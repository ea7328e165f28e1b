/-
**The band sweep of `region_op`.**

The sweep is proved once, for any binary operation on point sets: `Implements funcs op` says that
the three callbacks compute `op` on one strip. The rest is about how the sweep cuts the plane into
strips:

* `Built want rects level`: the output is banded and holds exactly the wanted points above `level`;
  it grows by empty strips (`Built.skip`) and by emitted strips (`Built.emit`);
* `Sweeping`: the loop invariant, with `sweepStep_sweeping` for one iteration and
  `sweepLoop_sweeping` for the loop;
* `emitRest_built`: the bands one operand still has when the other is exhausted;
* `regionOp_spec`: the whole of `region_op`.
-/

import FreeWindows.Lib.Ensures
import FreeWindows.Region.Coalesce

namespace FreeWindows.Rgn

open Lib List

/-- The callbacks compute `op` strip by strip. A region that already reaches below the strip is
excluded: `union_overlapping` would extend its last rectangle. -/
structure Implements (funcs : Callbacks) (op : Prop → Prop → Prop) : Prop where
  overlap : ∀ reg r1 r2 top bottom reg', (∀ rect ∈ reg.rects, rect.bottom < bottom) →
    Separated (xspans r1) → Separated (xspans r2) →
    funcs.overlap reg r1 r2 top bottom = some reg' →
    Emitted reg reg' top bottom fun x => op (Covers (xspans r1) x) (Covers (xspans r2) x)
  nonOverlap1 : ∀ reg band top bottom reg', Separated (xspans band) →
    callNonOverlap funcs.nonOverlap1 reg band top bottom = some reg' →
    Emitted reg reg' top bottom fun x => op (Covers (xspans band) x) False
  nonOverlap2 : ∀ reg band top bottom reg', Separated (xspans band) →
    callNonOverlap funcs.nonOverlap2 reg band top bottom = some reg' →
    Emitted reg reg' top bottom fun x => op False (Covers (xspans band) x)
  neither : ¬ op False False

/-! ### The output above a level -/

/-- **The output so far**: banded, with exactly the wanted points above `level`. -/
structure Built (want : Int → Int → Prop) (rects : List Rectangle) (level : Int) : Prop where
  banded : Banded rects
  points : ∀ x y, Contains rects x y ↔ y < level ∧ want x y

variable {level' x y level : Int} {reg reg' : Region} {funcs : Callbacks} {op : Prop → Prop → Prop}
  {s : Sweep} {whole1 whole2 : List Rectangle}

section Built

variable {want : Int → Int → Prop} {rects : List Rectangle}

theorem Built.above (built : Built want rects level) : ∀ rect ∈ rects, rect.bottom ≤ level := by
  intro rect member
  obtain ⟨horizontal, vertical⟩ := built.banded.proper rect member
  -- the last line of the rectangle is in the output
  have last : Contains rects rect.left (rect.bottom - 1) :=
    ⟨rect, member, le_rfl, horizontal, by omega, by omega⟩
  have := ((built.points _ _).mp last).1
  omega

/-- A strip without wanted points is passed over. -/
theorem Built.skip (built : Built want rects level) (later : level ≤ level')
    (empty : ∀ x y, level ≤ y → y < level' → ¬ want x y) : Built want rects level' := by
  refine ⟨built.banded, fun x y => (built.points x y).trans ⟨?_, ?_⟩⟩
  · rintro ⟨above, wanted⟩
    exact ⟨by omega, wanted⟩
  · rintro ⟨above, wanted⟩
    refine ⟨?_, wanted⟩
    by_contra notAbove
    exact empty x y (by omega) above wanted

theorem Built.append {bottom : Int} {p : Int → Prop} (built : Built want reg.rects level)
    (proper : level < bottom) (emitted : Emitted reg reg' level bottom p)
    (wanted : ∀ x y, level ≤ y → y < bottom → (p x ↔ want x y)) : Built want reg'.rects bottom := by
  obtain ⟨band, rects, isBand, covers⟩ := emitted
  rw [rects]
  refine ⟨?_, fun x y => ?_⟩
  · rw [banded_append]
    refine ⟨built.banded, isBand.banded proper, fun q member r inBand => ?_⟩
    have := built.above q member
    have := (isBand.strip r inBand).1
    right; omega
  · rw [contains_append, built.points, contains_isBand isBand]
    grind

/-- A strip is emitted, and the band it adds is coalesced with the one before. -/
theorem Built.emit {bottom : Int} {prevBand : Nat} {p : Int → Prop} (built : Built want reg.rects level)
    (last : LastBand reg.rects prevBand) (proper : level < bottom)
    (emitted : Emitted reg reg' level bottom p)
    (wanted : ∀ x y, level ≤ y → y < bottom → (p x ↔ want x y)) :
    Built want (coalesceAdded reg' prevBand reg.rects.length).1.rects bottom ∧
      LastBand (coalesceAdded reg' prevBand reg.rects.length).1.rects
        (coalesceAdded reg' prevBand reg.rects.length).2 := by
  have appended := built.append proper emitted wanted
  obtain ⟨band, rects, isBand, covers⟩ := emitted
  rw [rects] at appended
  obtain ⟨banded, points⟩ := coalesceAdded_same rects last appended.banded
  exact ⟨⟨banded, fun x y => (points x y).trans (appended.points x y)⟩,
    coalesceAdded_lastBand rects last isBand proper built.above⟩

/-- The output is complete when nothing is wanted below the level. -/
theorem Built.complete (built : Built want rects level)
    (nothing : ∀ x y, level ≤ y → ¬ want x y) (x y : Int) : Contains rects x y ↔ want x y := by
  rw [built.points]
  refine ⟨fun h => h.2, fun wanted => ⟨?_, wanted⟩⟩
  by_contra notAbove
  exact nothing x y (by omega) wanted

theorem coalesceAdded_none (reg : Region) (prevBand : Nat) :
    coalesceAdded reg prevBand reg.rects.length = (reg, prevBand) :=
  if_neg (not_not.mpr rfl)

end Built

/-! ### The operands below a level -/

/-- What an operand still has to offer: a banded list that has all its points from `level` on. -/
structure Rest (whole rest : List Rectangle) (level : Int) : Prop where
  banded : Banded rest
  below : ∀ rect ∈ rest, level < rect.bottom
  points : ∀ x y, level ≤ y → (Contains whole x y ↔ Contains rest x y)

section Rest

variable {whole rest : List Rectangle} {a : Rectangle}

section Leading

variable (operand : Rest whole (a :: rest) level)
include operand

/-- An operand between the level and the bottom of its leading band. -/
theorem Rest.leading (later : level ≤ y) (above : y < a.bottom) :
    Contains whole x y ↔ a.top ≤ y ∧ Covers (xspans (splitBand (a :: rest)).1) x := by
  obtain ⟨isBand, _, behind⟩ := operand.banded.split
  have all := splitBand_append (a :: rest)
  rw [operand.points x y later, ← all, contains_append, all, contains_isBand isBand]
  constructor
  · rintro (⟨top, _, covered⟩ | ⟨rect, member, inside⟩)
    · exact ⟨top, covered⟩
    · have := behind rect member
      have := inside.2.2.1
      omega
  · rintro ⟨top, covered⟩
    exact .inl ⟨top, above, covered⟩

/-- The leading band is behind: the operand goes on with what follows it. -/
theorem Rest.next : Rest whole (splitBand (a :: rest)).2 a.bottom := by
  obtain ⟨isBand, restBanded, behind⟩ := operand.banded.split
  refine ⟨restBanded, fun rect member => ?_, fun x y later => ?_⟩
  · have := behind rect member
    have := (restBanded.proper rect member).2
    omega
  · have := operand.below a mem_cons_self
    rw [operand.points x y (by omega), ← splitBand_append (a :: rest), contains_append,
      splitBand_append, contains_isBand isBand]
    constructor
    · rintro (⟨_, above, _⟩ | inside)
      · omega
      · exact inside
    · exact .inr

/-- The level moves down inside the leading band. -/
theorem Rest.lower (later : level ≤ level') (inside : level' < a.bottom) :
    Rest whole (a :: rest) level' := by
  refine ⟨operand.banded, fun rect member => ?_, fun x y below => operand.points x y (by omega)⟩
  rcases mem_cons.mp member with rfl | member
  · exact inside
  · obtain ⟨_, follows, tail⟩ := (banded_cons _ _).mp operand.banded
    have := (tail.proper rect member).2
    rcases follows rect member with ⟨_, bottom, _⟩ | below <;> omega

/-- One operand after an iteration that ended at `level'`. -/
theorem Rest.advance (later : level ≤ level') (inside : level' ≤ a.bottom) :
    Rest whole (if a.bottom = level' then (splitBand (a :: rest)).2 else a :: rest) level' := by
  split
  · rename_i ends
    rw [← ends]
    exact operand.next
  · exact operand.lower later (by omega)

theorem Rest.separated : Separated (xspans (splitBand (a :: rest)).1) :=
  operand.banded.split.1.separated

end Leading

end Rest

/-! ### The main loop -/

/-- The points that the operation wants of two operands. -/
def want (op : Prop → Prop → Prop) (whole1 whole2 : List Rectangle) (x y : Int) : Prop :=
  op (Contains whole1 x y) (Contains whole2 x y)

/-- **The invariant of the main loop.** At most one of the two leading bands has been cut
(`fresh`): the iteration that cut it used the other one up. -/
structure Sweeping (op : Prop → Prop → Prop) (whole1 whole2 : List Rectangle) (s : Sweep) :
    Prop where
  built : Built (want op whole1 whole2) s.newReg.rects s.ybot
  last : LastBand s.newReg.rects s.prevBand
  rest1 : Rest whole1 s.r1 s.ybot
  rest2 : Rest whole2 s.r2 s.ybot
  fresh : (∀ rect ∈ s.r1, s.ybot ≤ rect.top) ∨ ∀ rect ∈ s.r2, s.ybot ≤ rect.top

section Step

variable {rest1 rest2 : List Rectangle} {a b : Rectangle} {prevBand : Nat}

/-- The wanted points in the strips of an iteration, from the leading bands. -/
theorem want_leading (operand1 : Rest whole1 (a :: rest1) level)
    (operand2 : Rest whole2 (b :: rest2) level) (later : level ≤ y := by omega)
    (above1 : y < a.bottom := by omega) (above2 : y < b.bottom := by omega) :
    want op whole1 whole2 x y ↔
      op (a.top ≤ y ∧ Covers (xspans (splitBand (a :: rest1)).1) x)
        (b.top ≤ y ∧ Covers (xspans (splitBand (b :: rest2)).1) x) := by
  unfold want
  rw [operand1.leading later above1, operand2.leading later above2]

/-- The first part of an iteration builds the output down to where both leading bands have begun,
or to where one of them ends before that. -/
theorem sweepNonOverlap_built (implements : Implements funcs op)
    (operand1 : Rest whole1 (a :: rest1) level) (operand2 : Rest whole2 (b :: rest2) level)
    (built : Built (want op whole1 whole2) reg.rects level) (last : LastBand reg.rects prevBand)
    (fresh : level ≤ a.top ∨ level ≤ b.top) :
    Gives (sweepNonOverlap funcs reg a b (splitBand (a :: rest1)).1 (splitBand (b :: rest2)).1 level)
      fun out => out.2 = max a.top b.top ∧
        Built (want op whole1 whole2) (coalesceAdded out.1 prevBand reg.rects.length).1.rects
          (min out.2 (min a.bottom b.bottom)) ∧
        LastBand (coalesceAdded out.1 prevBand reg.rects.length).1.rects
          (coalesceAdded out.1 prevBand reg.rects.length).2 := by
  have below1 := operand1.below a mem_cons_self
  have below2 := operand2.below b mem_cons_self
  have proper1 := (operand1.banded.proper a mem_cons_self).2
  have proper2 := (operand2.banded.proper b mem_cons_self).2
  have gap {stop : Int} (later : level ≤ stop)
      (above : ∀ y, level ≤ y → y < stop → y < a.top ∧ y < b.top) :
      Built (want op whole1 whole2) reg.rects stop := by
    refine built.skip later fun x y low high => ?_
    obtain ⟨above1, above2⟩ := above y low high
    rw [want_leading operand1 operand2]
    simpa [show ¬ a.top ≤ y by omega, show ¬ b.top ≤ y by omega] using implements.neither
  unfold sweepNonOverlap
  dsimp only
  split
  · split
    · -- the first operand alone, from its top or the level to the top of the second
      refine gives_map (gives_of fun reg' call => ⟨by omega, ?_⟩)
      have emitted := implements.nonOverlap1 _ _ _ _ _ operand1.separated call
      have begun := @gap (max a.top level) (by omega) fun y low high => by omega
      rw [show min b.top (min a.bottom b.bottom) = min a.bottom b.top by omega]
      refine begun.emit last (by omega) emitted fun x y later above => ?_
      rw [want_leading operand1 operand2]
      simp [show a.top ≤ y by omega, show ¬ b.top ≤ y by omega]
    · refine ⟨by omega, ?_⟩
      rw [coalesceAdded_none, show min b.top (min a.bottom b.bottom) = level by omega]
      exact ⟨built, last⟩
  · split
    · split
      · refine gives_map (gives_of fun reg' call => ⟨by omega, ?_⟩)
        have emitted := implements.nonOverlap2 _ _ _ _ _ operand2.separated call
        have begun := @gap (max b.top level) (by omega) fun y low high => by omega
        rw [show min a.top (min a.bottom b.bottom) = min b.bottom a.top by omega]
        refine begun.emit last (by omega) emitted fun x y later above => ?_
        rw [want_leading operand1 operand2]
        simp [show ¬ a.top ≤ y by omega, show b.top ≤ y by omega]
      · refine ⟨by omega, ?_⟩
        rw [coalesceAdded_none, show min a.top (min a.bottom b.bottom) = level by omega]
        exact ⟨built, last⟩
    · -- equal tops: there is nothing above them
      refine ⟨by omega, ?_⟩
      rw [coalesceAdded_none, show min a.top (min a.bottom b.bottom) = a.top by omega]
      exact ⟨gap (by omega) fun y low high => by omega, last⟩

end Step

/-- **One iteration keeps the invariant**, and uses up a band unless one of the operands has none. -/
theorem sweepStep_sweeping (implements : Implements funcs op) (sweeping : Sweeping op whole1 whole2 s) :
    Gives (sweepStep funcs s) fun next => Sweeping op whole1 whole2 next ∧
      (next.r1 = [] ∨ next.r2 = [] ∨
        next.r1.length + next.r2.length < s.r1.length + s.r2.length) := by
  obtain ⟨newReg, prevBand, r1, r2, level⟩ := s
  cases r1 with
  | nil => exact ⟨sweeping, .inl rfl⟩
  | cons a rest1 =>
    cases r2 with
    | nil => exact ⟨sweeping, .inr (.inl rfl)⟩
    | cons b rest2 =>
      obtain ⟨built, last, operand1, operand2, fresh⟩ := sweeping
      have begun : level ≤ a.top ∨ level ≤ b.top :=
        fresh.imp (fun h => h a mem_cons_self) (fun h => h b mem_cons_self)
      refine gives_bind (sweepNonOverlap_built implements operand1 operand2 built last begun)
        fun ⟨mid, ytop⟩ ⟨ytopEq, midBuilt, midLast⟩ => ?_
      dsimp only at midBuilt midLast ytopEq operand1 operand2 ⊢
      generalize coalesceAdded mid prevBand newReg.rects.length = merged at *
      obtain ⟨midReg, midBand⟩ := merged
      have below1 := operand1.below a mem_cons_self
      have below2 := operand2.below b mem_cons_self
      have after1 := operand1.advance (le_min below1.le below2.le) (min_le_left _ _)
      have after2 := operand2.advance (le_min below1.le below2.le) (min_le_right _ _)
      -- one of the two leading bands is used up
      have freshNext : (∀ rect ∈ (if a.bottom = min a.bottom b.bottom then
            (splitBand (a :: rest1)).2 else a :: rest1), min a.bottom b.bottom ≤ rect.top) ∨
          ∀ rect ∈ (if b.bottom = min a.bottom b.bottom then
            (splitBand (b :: rest2)).2 else b :: rest2), min a.bottom b.bottom ≤ rect.top := by
        rcases le_total a.bottom b.bottom with shorter | shorter
        · left
          rw [min_eq_left shorter, if_pos rfl]
          exact operand1.banded.split.2.2
        · right
          rw [min_eq_right shorter, if_pos rfl]
          exact operand2.banded.split.2.2
      suffices all : Gives (sweepOverlap funcs midReg (splitBand (a :: rest1)).1
          (splitBand (b :: rest2)).1 ytop (min a.bottom b.bottom)) fun reg' =>
          Built (want op whole1 whole2) (coalesceAdded reg' midBand midReg.rects.length).1.rects
            (min a.bottom b.bottom) ∧
          LastBand (coalesceAdded reg' midBand midReg.rects.length).1.rects
            (coalesceAdded reg' midBand midReg.rects.length).2 by
        refine gives_bind all fun reg' ⟨built, last⟩ =>
          ⟨⟨built, last, after1, after2, freshNext⟩, .inr (.inr ?_)⟩
        have shorter1 := splitBand_snd_length a rest1
        have shorter2 := splitBand_snd_length b rest2
        change (if a.bottom = _ then (splitBand (a :: rest1)).2 else a :: rest1).length +
          (if b.bottom = _ then (splitBand (b :: rest2)).2 else b :: rest2).length <
            (a :: rest1).length + (b :: rest2).length
        split <;> split <;> omega
      unfold sweepOverlap
      split
      · rename_i overlaps
        have above := midBuilt.above
        rw [min_eq_left (by omega)] at midBuilt above
        refine gives_of fun reg' lower => midBuilt.emit midLast overlaps (implements.overlap _ _ _ _ _ _
          (fun rect member => ?_) operand1.separated operand2.separated lower) fun x y later top => ?_
        · have := above rect member
          omega
        · rw [want_leading operand1 operand2]
          simp [show a.top ≤ y by omega, show b.top ≤ y by omega]
      · rw [min_eq_right (by omega)] at midBuilt
        refine ⟨?_, ?_⟩ <;> rw [coalesceAdded_none]
        · exact midBuilt
        · exact midLast

/-- **The main loop** ends, with the invariant, when one of the operands is used up. -/
theorem sweepLoop_sweeping (implements : Implements funcs op) (fuel : Nat)
    (enough : s.r1.length + s.r2.length ≤ fuel) (sweeping : Sweeping op whole1 whole2 s) :
    Gives (sweepLoop funcs fuel s) fun final =>
      Sweeping op whole1 whole2 final ∧ (final.r1 = [] ∨ final.r2 = []) := by
  induction fuel generalizing s with
  | zero => exact ⟨sweeping, .inl (length_eq_zero_iff.mp (by omega))⟩
  | succ fuel ih =>
    refine gives_bind (sweepStep_sweeping implements sweeping) fun next ⟨kept, shorter⟩ => ?_
    split
    · rename_i exhausted
      exact ⟨kept, exhausted⟩
    · rename_i more
      rw [← or_assoc] at shorter
      have := shorter.resolve_left more
      exact ih (by omega) kept

/-! ### Behind the main loop -/

theorem emitRest_nil (func : NonOverlapFunc) (fuel : Nat) (reg : Region) (ybot : Int) :
    emitRest func fuel reg [] ybot = some reg := by
  cases fuel <;> rfl

/-- **The bands one operand still has**: emitting them completes the output. -/
theorem emitRest_built {want : Int → Int → Prop} {call : NonOverlapFunc} (op : Prop → Prop)
    (emits : ∀ reg band top bottom reg', Separated (xspans band) →
      call reg band top bottom = some reg' →
      Emitted reg reg' top bottom fun x => op (Covers (xspans band) x))
    (neither : ¬ op False) {whole : List Rectangle} {ybot : Int} (fuel : Nat)
    {reg : Region} {rest : List Rectangle} {level : Int} (enough : rest.length ≤ fuel)
    (operand : Rest whole rest level) (built : Built want reg.rects level)
    (wanted : ∀ x y, level ≤ y → (want x y ↔ op (Contains whole x y)))
    (begun : ybot ≤ level) (fresh : ∀ rect ∈ rest, level ≤ max rect.top ybot) :
    Gives (emitRest call fuel reg rest ybot) fun reg' => ∃ added, reg'.rects = reg.rects ++ added ∧
      Banded (reg.rects ++ added) ∧ ∀ x y, Contains (reg.rects ++ added) x y ↔ want x y := by
  cases rest with
  | nil =>
    have nothing : ∀ x y, level ≤ y → ¬ want x y := by
      intro x y later
      rw [wanted x y later, operand.points x y later]
      simpa using neither
    rw [emitRest_nil]
    refine ⟨[], (append_nil _).symm, ?_⟩
    rw [append_nil]
    exact ⟨built.banded, built.complete nothing⟩
  | cons r rest =>
    cases fuel with
    | zero => cases enough
    | succ fuel =>
      have ends := operand.below r mem_cons_self
      have proper := (operand.banded.proper r mem_cons_self).2
      have starts := fresh r mem_cons_self
      have shorter := splitBand_snd_length r rest
      have gap : Built want reg.rects (max r.top ybot) := built.skip starts fun x y later above => by
        rw [wanted x y later, operand.leading later (by omega)]
        simpa [show ¬ r.top ≤ y by omega] using neither
      refine gives_bind (gives_of fun mid step => emits _ _ _ _ mid operand.separated step)
        fun mid emitted => ?_
      have next : Built want mid.rects r.bottom := by
        refine gap.append (by omega) emitted fun x y later above => ?_
        rw [wanted x y (by omega), operand.leading (by omega) above]
        simp [show r.top ≤ y by omega]
      refine (emitRest_built op emits neither fuel
        (Nat.le_of_lt_succ (lt_of_lt_of_le shorter enough)) operand.next next
        (fun x y later => wanted x y (by omega)) (by omega) fun rect member =>
          (operand.banded.split.2.2 rect member).trans (le_max_left _ _)).mono
        fun reg' ⟨added, rects, complete⟩ => ?_
      obtain ⟨band, midRects, _⟩ := emitted
      refine ⟨band ++ added, ?_, ?_⟩
      · rw [rects, midRects, append_assoc]
      · rw [← append_assoc, ← midRects]
        exact complete

/-- A missing callback emits nothing, as if it were called. -/
theorem emitRest_callNonOverlap_none (fuel : Nat) (reg : Region) (rest : List Rectangle)
    (ybot : Int) : emitRest (callNonOverlap none) fuel reg rest ybot = some reg := by
  induction fuel generalizing rest with
  | zero => rfl
  | succ fuel ih =>
    cases rest with
    | nil => rfl
    | cons r rest => exact ih _

theorem sweepTail_eq (funcs : Callbacks) (s : Sweep) :
    sweepTail funcs s = if s.r1 ≠ [] then
      emitRest (callNonOverlap funcs.nonOverlap1) s.r1.length s.newReg s.r1 s.ybot
    else emitRest (callNonOverlap funcs.nonOverlap2) s.r2.length s.newReg s.r2 s.ybot := by
  unfold sweepTail
  split
  · cases funcs.nonOverlap1 with
    | none => rw [emitRest_callNonOverlap_none]
    | some func => rfl
  · cases funcs.nonOverlap2 with
    | none => rw [emitRest_callNonOverlap_none]
    | some func => rfl

/-- The part behind the loop completes the output. -/
theorem sweepRest_spec (implements : Implements funcs op) (sweeping : Sweeping op whole1 whole2 s)
    (exhausted : s.r1 = [] ∨ s.r2 = []) : Gives (sweepRest funcs s) fun reg =>
      Banded reg.rects ∧ ∀ x y, Contains reg.rects x y ↔ want op whole1 whole2 x y := by
  obtain ⟨built, last, operand1, operand2, _⟩ := sweeping
  refine gives_bind (p := fun mid => ∃ added, mid.rects = s.newReg.rects ++ added ∧
    Banded (s.newReg.rects ++ added) ∧
      ∀ x y, Contains (s.newReg.rects ++ added) x y ↔ want op whole1 whole2 x y) ?_
    fun mid ⟨added, rects, banded, points⟩ => ?_
  · rw [sweepTail_eq]
    split
    · rename_i some1
      have none2 := exhausted.resolve_left some1
      refine emitRest_built (fun p => op p False) implements.nonOverlap1 implements.neither
        s.r1.length le_rfl operand1 built (fun x y later => ?_) le_rfl fun rect _ => le_max_right _ _
      unfold want
      rw [operand2.points x y later, none2, iff_false_intro (contains_nil x y)]
    · rename_i none1
      rw [not_not] at none1
      refine emitRest_built (fun p => op False p) implements.nonOverlap2 implements.neither
        s.r2.length le_rfl operand2 built (fun x y later => ?_) le_rfl fun rect _ => le_max_right _ _
      unfold want
      rw [operand1.points x y later, none1, iff_false_intro (contains_nil x y)]
  · obtain ⟨sameBanded, samePoints⟩ := coalesceAdded_same rects last banded
    exact ⟨sameBanded, fun x y => (samePoints x y).trans (points x y)⟩

/-! ### The whole operation -/

theorem shrinkRegion_kept (alloc : Alloc) (reg : Region) :
    (shrinkRegion alloc reg).rects = reg.rects ∧ (shrinkRegion alloc reg).extents = reg.extents := by
  unfold shrinkRegion
  split
  · simp only
    split <;> exact ⟨rfl, rfl⟩
  · exact ⟨rfl, rfl⟩

theorem not_contains_above {rects : List Rectangle} (below : ∀ rect ∈ rects, level ≤ rect.top)
    (above : y < level) : ¬ Contains rects x y := by
  rintro ⟨rect, member, _, _, top, _⟩
  have := below rect member
  omega

theorem rest_start {rects : List Rectangle} (banded : Banded rects)
    (below : ∀ rect ∈ rects, level ≤ rect.top) : Rest rects rects level :=
  ⟨banded, fun rect member => lt_of_le_of_lt (below rect member) (banded.proper rect member).2,
    fun _ _ _ => Iff.rfl⟩

theorem sweeping_start (neither : ¬ op False False) (empty : reg.rects = []) (banded1 : Banded whole1)
    (banded2 : Banded whole2) (below1 : ∀ rect ∈ whole1, level ≤ rect.top)
    (below2 : ∀ rect ∈ whole2, level ≤ rect.top) :
    Sweeping op whole1 whole2 ⟨reg, 0, whole1, whole2, level⟩ := by
  refine ⟨⟨?_, fun x y => ?_⟩, ?_, rest_start banded1 below1, rest_start banded2 below2, .inl below1⟩
  · rw [empty]
    exact banded_nil
  · rw [empty, iff_false_intro (contains_nil x y), false_iff]
    rintro ⟨above, wanted⟩
    unfold want at wanted
    rw [iff_false_intro (not_contains_above below1 above),
      iff_false_intro (not_contains_above below2 above)] at wanted
    exact neither wanted
  · rw [empty]
    exact ⟨[], [], 0, 0, rfl, rfl, isBand_nil 0 0, nofun⟩

/-- **`region_op`**: from two banded regions whose extents do not start below them, a successful
operation builds a banded list of exactly the wanted points. -/
theorem regionOp_spec {alloc : Alloc} (implements : Implements funcs op)
    {newReg reg1 reg2 : Region} (banded1 : Banded reg1.rects) (banded2 : Banded reg2.rects)
    (top1 : ∀ rect ∈ reg1.rects, reg1.extents.top ≤ rect.top)
    (top2 : ∀ rect ∈ reg2.rects, reg2.extents.top ≤ rect.top) :
    Gives (regionOp alloc newReg reg1 reg2 funcs) fun result => Banded result.rects ∧
      ∀ x y, Contains result.rects x y ↔ want op reg1.rects reg2.rects x y := by
  unfold regionOp
  dsimp only
  split
  · generalize levelEq : (if reg1.extents.top < reg2.extents.top then reg1.extents.top
      else reg2.extents.top) = level
    have level1 : level ≤ reg1.extents.top := by rw [← levelEq]; split <;> omega
    have level2 : level ≤ reg2.extents.top := by rw [← levelEq]; split <;> omega
    refine gives_bind (sweepLoop_sweeping implements _ le_rfl
      (sweeping_start implements.neither rfl banded1 banded2
        (fun rect member => level1.trans (top1 rect member))
        (fun rect member => level2.trans (top2 rect member)))) fun final ⟨sweeping, exhausted⟩ => ?_
    refine gives_bind (sweepRest_spec implements sweeping exhausted) fun reg spec => ?_
    rw [← (shrinkRegion_kept alloc reg).1] at spec
    exact spec
  · exact trivial

end FreeWindows.Rgn
