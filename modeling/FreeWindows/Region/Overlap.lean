/-
**The callbacks of the sweep.**

A callback gets one band of each operand and a strip `[top, bottom)` and appends rectangles to the
region. `Emitted reg reg' top bottom p` says everything about such a call that the sweep uses: what
was appended is one band of the strip, and its x-spans cover exactly the points with `p`.

* `intersectOverlapping_emitted`, `subtractLoop_emitted`, `unionOverlapping_merging`: the
  three overlap callbacks emit the points in both, in the first only, in either;
* `copyBand_emitted`: the non-overlap callbacks emit their band.
-/

import FreeWindows.Region.Banded

namespace FreeWindows.Rgn

open Lib List Rectangle

/-- The x-spans of a band of an operand. -/
abbrev xspans (rects : List Rectangle) : List (Span Int) := rects.map Rectangle.xspan

theorem covers_xspans_cons (a : Rectangle) (band : List Rectangle) (x : Int) :
    Covers (xspans (a :: band)) x ↔ (a.left ≤ x ∧ x < a.right) ∨ Covers (xspans band) x := by
  rw [xspans, map_cons, covers_cons]
  rfl

/-- `reg'` is `reg` with one band of the strip `[top, bottom)` appended, over the points `p`. -/
def Emitted (reg reg' : Region) (top bottom : Int) (p : Int → Prop) : Prop :=
  ∃ band, reg'.rects = reg.rects ++ band ∧ IsBand top bottom band ∧
    ∀ x, Covers (xspans band) x ↔ p x

variable {bottom top left right : Int} {p : Int → Prop} {reg reg' : Region} {alloc : Alloc}
  {cur : List Rectangle}

theorem Emitted.congr {q : Int → Prop} (emitted : Emitted reg reg' top bottom p)
    (same : ∀ x, p x ↔ q x) : Emitted reg reg' top bottom q := by
  obtain ⟨band, rects, isBand, covers⟩ := emitted
  exact ⟨band, rects, isBand, fun x => (covers x).trans (same x)⟩

theorem emitted_nil (reg : Region) (top bottom : Int) : Emitted reg reg top bottom fun _ => False :=
  ⟨[], (append_nil _).symm, isBand_nil top bottom, fun x => by simp⟩

theorem addRect_rects {rect : Rectangle} (added : addRect alloc reg rect = some reg') :
    reg'.rects = reg.rects ++ [rect] := by
  unfold addRect at added
  split at added
  · split at added
    · cases added; rfl
    · cases added
  · cases added; rfl

variable {mid : Region} {r1 base : List Rectangle} {r a : Rectangle}

/-- One added rectangle in front of what the rest of the callback emits strictly behind it. -/
theorem Emitted.addRect (added : addRect alloc reg ⟨left, top, right, bottom⟩ = some mid)
    (proper : left < right) (rest : Emitted mid reg' top bottom p) (behind : ∀ x, p x → right < x) :
    Emitted reg reg' top bottom fun x => (left ≤ x ∧ x < right) ∨ p x := by
  obtain ⟨band, rects, isBand, covers⟩ := rest
  refine ⟨⟨left, top, right, bottom⟩ :: band, ?_, ⟨fun rect member => ?_, (separated_cons _ _).mpr
    ⟨proper, fun x covered => behind x ((covers x).mp covered), isBand.separated⟩⟩, fun x => ?_⟩
  · rw [rects, addRect_rects added, append_assoc, singleton_append]
  · rcases mem_cons.mp member with rfl | member
    · exact ⟨rfl, rfl⟩
    · exact isBand.strip rect member
  · rw [xspans, map_cons, covers_cons, covers x]
    exact Iff.rfl

/-- The same for a rectangle that is added only if it is not empty. -/
theorem Emitted.addProper (added : addProper alloc reg ⟨left, top, right, bottom⟩ = some mid)
    (rest : Emitted mid reg' top bottom p) (behind : ∀ x, p x → right < x) :
    Emitted reg reg' top bottom fun x => (left ≤ x ∧ x < right) ∨ p x := by
  unfold Rgn.addProper at added
  split at added
  · rename_i proper
    exact Emitted.addRect added proper rest behind
  · rename_i improper
    cases added
    refine rest.congr fun x => ⟨.inr, ?_⟩
    rintro (inside | holds)
    · simp only at improper
      omega
    · exact holds

/-! ### Intersection -/

/-- **`intersect_overlapping` emits the points of both bands.** -/
theorem intersectOverlapping_emitted (alloc : Alloc) (reg : Region) (r1 r2 : List Rectangle)
    (top bottom : Int) (first : Separated (xspans r1)) (second : Separated (xspans r2))
    (reg' : Region) (done : intersectOverlapping alloc reg r1 r2 top bottom = some reg') :
    Emitted reg reg' top bottom fun x => Covers (xspans r1) x ∧ Covers (xspans r2) x := by
  fun_induction intersectOverlapping alloc reg r1 r2 top bottom with
  | case1 reg a r1 b r2 left right ihLess ihGreater ihEqual =>
    obtain ⟨mid, step, done⟩ := Option.bind_eq_some_iff.mp done
    have behindA : ∀ x, Covers (xspans r1) x → a.right < x := fun x => first.behind
    have behindB : ∀ x, Covers (xspans r2) x → b.right < x := fun x => second.behind
    -- the rest of the loop emits the common points behind the rectangle just added
    have rest : Emitted mid reg' top bottom fun x =>
        (Covers (xspans (a :: r1)) x ∧ Covers (xspans (b :: r2)) x) ∧ right < x := by
      split at done
      · refine (ihLess mid first.tail second done).congr fun x => ?_
        simp only [covers_xspans_cons, right] at *
        grind
      · split at done
        · refine (ihGreater mid first second.tail done).congr fun x => ?_
          simp only [covers_xspans_cons, right] at *
          grind
        · refine (ihEqual mid first.tail second.tail done).congr fun x => ?_
          simp only [covers_xspans_cons, right] at *
          grind
    refine (Emitted.addProper step rest fun x holds => holds.2).congr fun x => ?_
    simp only [covers_xspans_cons, left, right] at *
    grind
  | case2 reg r1 r2 empty =>
    cases done
    refine (emitted_nil _ top bottom).congr fun x => ⟨False.elim, ?_⟩
    rintro ⟨inR1, inR2⟩
    cases r1 with
    | nil => exact covers_nil x inR1
    | cons a r1 =>
      cases r2 with
      | nil => exact covers_nil x inR2
      | cons b r2 => exact empty a r1 b r2 rfl rfl

/-! ### Subtraction -/

/-- What is left of the first band when the uncut part of its head starts at `left`. -/
def Remaining (left : Int) : List Rectangle → Int → Prop
  | [], _ => False
  | a :: r1, x => (left ≤ x ∧ x < a.right) ∨ Covers (xspans r1) x

/-- `left` lies in the head of the band. -/
def Starts (left : Int) : List Rectangle → Prop
  | [] => True
  | a :: _ => a.left ≤ left ∧ left < a.right

theorem remaining_nextLeft (left : Int) (r1 : List Rectangle) (x : Int) :
    Remaining (nextLeft left r1) r1 x ↔ Covers (xspans r1) x := by
  cases r1 with
  | nil => exact ⟨False.elim, covers_nil x⟩
  | cons a r1 =>
    rw [covers_xspans_cons]
    rfl

theorem starts_nextLeft (left : Int) (separated : Separated (xspans r1)) :
    Starts (nextLeft left r1) r1 := by
  cases r1 with
  | nil => exact trivial
  | cons a r1 => exact ⟨le_rfl, separated.head⟩

/-- The loops of `subtract_overlapping` emit what is left of the first band outside the second. -/
theorem subtractLoop_emitted (alloc : Alloc) (reg : Region) (left : Int) (r1 r2 : List Rectangle)
    (top bottom : Int) (first : Separated (xspans r1)) (second : Separated (xspans r2))
    (starts : Starts left r1) (reg' : Region)
    (done : subtractLoop alloc reg left r1 r2 top bottom = some reg') :
    Emitted reg reg' top bottom fun x => Remaining left r1 x ∧ ¬ Covers (xspans r2) x := by
  fun_induction subtractLoop alloc reg left r1 r2 top bottom with
  | case1 reg left a r1 b r2 before ih =>
    -- `b` ends before the uncut part
    refine (ih first second.tail starts done).congr fun x => ?_
    have behindA : Covers (xspans r1) x → a.right < x := first.behind
    simp only [Remaining, Starts, covers_xspans_cons] at *
    grind
  | case2 reg left a r1 b r2 notBefore begun covered ih =>
    -- `b` covers all of the uncut part
    refine (ih first.tail second (starts_nextLeft _ first.tail) done).congr fun x => ?_
    rw [remaining_nextLeft]
    simp only [Remaining, Starts, covers_xspans_cons] at *
    grind
  | case3 reg left a r1 b r2 notBefore begun inner ih =>
    -- `b` covers the beginning of the uncut part
    refine (ih first second.tail ?_ done).congr fun x => ?_
    · simp only [Starts] at *
      omega
    · have behindA : Covers (xspans r1) x → a.right < x := first.behind
      simp only [Remaining, Starts, covers_xspans_cons] at *
      grind
  | case4 reg left a r1 b r2 notBefore notOver inside ihCovered ihInner =>
    -- `b` starts inside the uncut part
    obtain ⟨mid, step, done⟩ := Option.bind_eq_some_iff.mp done
    have behindA : ∀ x, Covers (xspans r1) x → a.right < x := fun x => first.behind
    have behindB : ∀ x, Covers (xspans r2) x → b.right < x := fun x => second.behind
    have properB : b.left < b.right := second.head
    have rest : Emitted mid reg' top bottom fun x =>
        (Remaining left (a :: r1) x ∧ ¬ Covers (xspans (b :: r2)) x) ∧ b.left < x := by
      split at done
      · refine (ihCovered mid first.tail second (starts_nextLeft _ first.tail) done).congr fun x => ?_
        rw [remaining_nextLeft]
        simp only [Remaining, Starts, covers_xspans_cons] at *
        grind
      · refine (ihInner mid first second.tail ?_ done).congr fun x => ?_
        · simp only [Starts] at *
          omega
        · simp only [Remaining, Starts, covers_xspans_cons] at *
          grind
    refine (Emitted.addRect step (by omega) rest fun x holds => holds.2).congr fun x => ?_
    simp only [Remaining, Starts, covers_xspans_cons] at *
    grind
  | case5 reg left a r1 b r2 notBefore notOver outside ih =>
    -- `b` starts behind the head of the first band
    obtain ⟨mid, step, done⟩ := Option.bind_eq_some_iff.mp done
    have behindA : ∀ x, Covers (xspans r1) x → a.right < x := fun x => first.behind
    have behindB : ∀ x, Covers (xspans r2) x → b.right < x := fun x => second.behind
    have properB : b.left < b.right := second.head
    have rest := (ih mid first.tail second (starts_nextLeft _ first.tail) done).congr fun x => by
      rw [remaining_nextLeft]
    refine (Emitted.addProper step rest fun x holds => behindA x holds.1).congr fun x => ?_
    simp only [Remaining, Starts, covers_xspans_cons] at *
    grind
  | case6 reg left a r1 ih =>
    obtain ⟨mid, step, done⟩ := Option.bind_eq_some_iff.mp done
    have rest := (ih mid first.tail second (starts_nextLeft _ first.tail) done).congr fun x => by
      rw [remaining_nextLeft]
    refine (Emitted.addRect step starts.2 rest fun x holds => first.behind holds.1).congr fun x => ?_
    simp [Remaining]
  | case7 reg left r2 =>
    cases done
    exact (emitted_nil _ top bottom).congr fun x => ⟨False.elim, fun holds => holds.1⟩

/-! ### Copied bands -/

/-- **The non-overlap callbacks emit their band.** -/
theorem copyBand_emitted (alloc : Alloc) (reg : Region) (band : List Rectangle)
    (top bottom : Int) (separated : Separated (xspans band))
    (reg' : Region) (done : copyBand alloc reg band top bottom = some reg') :
    Emitted reg reg' top bottom fun x => Covers (xspans band) x := by
  induction band generalizing reg with
  | nil =>
    cases done
    exact (emitted_nil _ top bottom).congr fun x => ⟨False.elim, covers_nil x⟩
  | cons r rest ih =>
    obtain ⟨mid, step, done⟩ := Option.bind_eq_some_iff.mp done
    refine (Emitted.addRect step separated.head (ih mid separated.tail done)
      fun x => separated.behind).congr fun x => ?_
    rw [covers_xspans_cons]

/-! ### Union -/

/-- The region holds `base` and, on top of it, the part `cur` of the band of the strip that has
been emitted so far. -/
structure Merging (base : List Rectangle) (top bottom : Int) (reg : Region)
    (cur : List Rectangle) : Prop where
  rects : reg.rects = base ++ cur
  isBand : IsBand top bottom cur

theorem isBand_concat (isBand : IsBand top bottom cur) (proper : left < right)
    (behind : ∀ other ∈ cur, other.right < left) :
    IsBand top bottom (cur ++ [⟨left, top, right, bottom⟩]) := by
  refine ⟨fun rect member => ?_, ?_⟩
  · rcases mem_append.mp member with member | member
    · exact isBand.strip rect member
    · rw [mem_singleton.mp member]
      exact ⟨rfl, rfl⟩
  · rw [map_append]
    refine separated_concat isBand.separated proper fun span spanMember => ?_
    obtain ⟨other, member, rfl⟩ := mem_map.mp spanMember
    exact behind other member

/-- **One `MERGERECT`**: the band grows by the points of the rectangle, if none of its rectangles
starts to the right of it. -/
theorem mergeRect_merging (merging : Merging base top bottom reg cur)
    (above : ∀ rect ∈ base, rect.bottom < bottom) (proper : r.left < r.right)
    (sorted : ∀ other ∈ cur, other.left ≤ r.left)
    (done : mergeRect alloc reg r top bottom = some reg') :
    ∃ cur', Merging base top bottom reg' cur' ∧ (∀ other ∈ cur', other.left ≤ r.left) ∧
      ∀ x, Covers (xspans cur') x ↔ Covers (xspans cur) x ∨ r.xspan.Has x := by
  -- the rectangle is added as it is when every emitted one ends before it
  have append : (∀ other ∈ cur, other.right < r.left) →
      addRect alloc reg ⟨r.left, top, r.right, bottom⟩ = some reg' →
      ∃ cur', Merging base top bottom reg' cur' ∧ (∀ other ∈ cur', other.left ≤ r.left) ∧
        ∀ x, Covers (xspans cur') x ↔ Covers (xspans cur) x ∨ r.xspan.Has x := by
    intro behind added
    refine ⟨cur ++ [⟨r.left, top, r.right, bottom⟩], ⟨?_, isBand_concat merging.isBand proper behind⟩,
      fun other member => ?_, fun x => ?_⟩
    · rw [addRect_rects added, merging.rects, append_assoc]
    · rcases mem_append.mp member with member | member
      · exact sorted other member
      · rw [mem_singleton.mp member]
    · rw [xspans, map_append, covers_append]
      exact or_congr Iff.rfl (by simp [xspan])
  unfold mergeRect at done
  rcases eq_nil_or_concat' cur with rfl | ⟨init, last, rfl⟩
  · -- nothing emitted yet: the last rectangle, if any, belongs to an earlier strip
    rw [merging.rects, append_nil] at done
    split at done
    · rename_i last isLast
      have := above last (mem_of_getLast? isLast)
      rw [if_neg (by omega)] at done
      exact append (fun other member => absurd member not_mem_nil) done
    · exact append (fun other member => absurd member not_mem_nil) done
  · have isLast : reg.rects.getLast? = some last := by
      rw [merging.rects, ← append_assoc, getLast?_append]
      rfl
    have before : ∀ other ∈ init, other.right < last.left := fun other member =>
      (pairwise_append.mp (pairwise_map.mp merging.isBand.separated.apart)).2.2 other member last mem_cons_self
    obtain ⟨lastTop, lastBottom⟩ := merging.isBand.strip last (by simp)
    have lastSorted := sorted last (by simp)
    simp only [isLast] at done
    split at done
    · split at done
      · rename_i wider
        cases done
        refine ⟨init ++ [{ last with right := r.right }], ⟨?_, ⟨fun rect member => ?_, ?_⟩⟩,
          fun other member => ?_, fun x => ?_⟩
        · show reg.rects.dropLast ++ _ = _
          rw [merging.rects, ← append_assoc, dropLast_concat, append_assoc]
        · rcases mem_append.mp member with member | member
          · exact merging.isBand.strip rect (mem_append_left _ member)
          · rw [mem_singleton.mp member]
            exact ⟨lastTop, lastBottom⟩
        · have widen := merging.isBand.separated
          rw [map_append] at widen ⊢
          exact widen.widenLast wider.le
        · rcases mem_append.mp member with member | member
          · exact sorted other (mem_append_left _ member)
          · rw [mem_singleton.mp member]
            exact lastSorted
        · simp only [xspans, map_append, map_cons, map_nil, covers_append, covers_cons,
            covers_nil, or_false, Span.Has, xspan, or_assoc]
          refine or_congr Iff.rfl ?_
          omega
      · cases done
        refine ⟨init ++ [last], merging, sorted, fun x => ⟨.inl, ?_⟩⟩
        rintro (covered | inside)
        · exact covered
        · refine ⟨last.xspan, by simp, ?_⟩
          simp only [Span.Has, xspan] at *
          omega
    · refine append (fun other member => ?_) done
      rcases mem_append.mp member with member | member
      · have := before other member
        omega
      · rw [mem_singleton.mp member]
        omega

theorem left_le_of_separated (separated : Separated (xspans (a :: r1))) :
    ∀ r ∈ r1, a.left ≤ r.left := by
  intro r member
  have apart := (pairwise_cons.mp separated.apart).1 r.xspan (mem_map_of_mem member)
  exact (lt_trans separated.head apart).le

/-- A band is emitted with the points emitted so far and some others. -/
def MergesInto (base : List Rectangle) (top bottom : Int) (reg : Region) (cur : List Rectangle)
    (points : Int → Prop) : Prop :=
  ∃ band, Merging base top bottom reg band ∧
    ∀ x, Covers (xspans band) x ↔ Covers (xspans cur) x ∨ points x

/-- One rectangle is merged, and the others after it. -/
theorem mergeRect_mergesInto {rest : Region → Option Region} {points : Int → Prop}
    (merging : Merging base top bottom reg cur) (above : ∀ rect ∈ base, rect.bottom < bottom)
    (proper : r.left < r.right) (sorted : ∀ other ∈ cur, other.left ≤ r.left)
    (done : (mergeRect alloc reg r top bottom >>= rest) = some reg')
    (later : ∀ mid cur', rest mid = some reg' → Merging base top bottom mid cur' →
      (∀ other ∈ cur', other.left ≤ r.left) → MergesInto base top bottom reg' cur' points) :
    MergesInto base top bottom reg' cur fun x => r.xspan.Has x ∨ points x := by
  obtain ⟨mid, step, done⟩ := Option.bind_eq_some_iff.mp done
  obtain ⟨cur', merging, sorted, covers⟩ := mergeRect_merging merging above proper sorted step
  obtain ⟨band, merging, total⟩ := later mid cur' done merging sorted
  refine ⟨band, merging, fun x => (total x).trans ?_⟩
  rw [covers x, or_assoc]

/-- The rectangles behind the first one of a band start to the right of what the first one does. -/
theorem left_le_of_head {b : Rectangle} {r : List Rectangle} (separated : Separated (xspans (b :: r)))
    (sorted : ∀ other ∈ cur, other.left ≤ a.left) (le : a.left ≤ b.left) :
    ∀ other ∈ cur, ∀ rect ∈ b :: r, other.left ≤ rect.left := by
  intro other member rect later
  refine ((sorted other member).trans le).trans ?_
  rcases mem_cons.mp later with rfl | later
  · exact le_refl _
  · exact left_le_of_separated separated rect later

/-- The loops of `union_overlapping`: what has been emitted so far and the two rests together. -/
theorem unionOverlapping_merging (alloc : Alloc) (base : List Rectangle) (reg : Region)
    (r1 r2 : List Rectangle) (top bottom : Int) (above : ∀ rect ∈ base, rect.bottom < bottom)
    (first : Separated (xspans r1)) (second : Separated (xspans r2)) (reg' : Region)
    (done : unionOverlapping alloc reg r1 r2 top bottom = some reg') (cur : List Rectangle)
    (merging : Merging base top bottom reg cur) (sorted1 : ∀ other ∈ cur, ∀ r ∈ r1, other.left ≤ r.left)
    (sorted2 : ∀ other ∈ cur, ∀ r ∈ r2, other.left ≤ r.left) :
    MergesInto base top bottom reg' cur fun x => Covers (xspans r1) x ∨ Covers (xspans r2) x := by
  have behind : ∀ {a : Rectangle} {r cur : List Rectangle}, Separated (xspans (a :: r)) →
      (∀ other ∈ cur, other.left ≤ a.left) → ∀ other ∈ cur, ∀ rect ∈ r, other.left ≤ rect.left :=
    fun separated sorted other member rect later =>
      (sorted other member).trans (left_le_of_separated separated rect later)
  fun_induction unionOverlapping alloc reg r1 r2 top bottom generalizing cur with
  | case1 reg a r1 b r2 less ih =>
    obtain ⟨band, merging, total⟩ := mergeRect_mergesInto merging above first.head
      (fun other member => sorted1 other member a mem_cons_self) done
      fun mid cur' done merging sorted => ih mid first.tail second done cur' merging
        (behind first sorted) (left_le_of_head second sorted less.le)
    refine ⟨band, merging, fun x => (total x).trans ?_⟩
    simp only [xspans, map_cons, covers_cons, or_assoc]
  | case2 reg a r1 b r2 notLess ih =>
    obtain ⟨band, merging, total⟩ := mergeRect_mergesInto merging above second.head
      (fun other member => sorted2 other member b mem_cons_self) done
      fun mid cur' done merging sorted => ih mid first second.tail done cur' merging
        (left_le_of_head first sorted (Int.not_lt.mp notLess)) (behind second sorted)
    refine ⟨band, merging, fun x => (total x).trans ?_⟩
    simp only [xspans, map_cons, covers_cons]
    tauto
  | case3 reg a r1 ih =>
    obtain ⟨band, merging, total⟩ := mergeRect_mergesInto merging above first.head
      (fun other member => sorted1 other member a mem_cons_self) done
      fun mid cur' done merging sorted => ih mid first.tail second done cur' merging
        (behind first sorted) fun other member r none => absurd none not_mem_nil
    refine ⟨band, merging, fun x => (total x).trans ?_⟩
    simp only [xspans, map_cons, covers_cons, or_assoc]
  | case4 reg b r2 ih =>
    obtain ⟨band, merging, total⟩ := mergeRect_mergesInto merging above second.head
      (fun other member => sorted2 other member b mem_cons_self) done
      fun mid cur' done merging sorted => ih mid first second.tail done cur' merging
        (fun other member r none => absurd none not_mem_nil) (behind second sorted)
    refine ⟨band, merging, fun x => (total x).trans ?_⟩
    simp only [xspans, map_cons, covers_cons, map_nil, covers_nil, false_or]
  | case5 reg =>
    cases done
    exact ⟨cur, merging, fun x => by simp⟩

end FreeWindows.Rgn
