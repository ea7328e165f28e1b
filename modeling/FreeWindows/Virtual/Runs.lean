/-
**The free ranges over whole runs.**

Views are created, cut and deleted. A request is `Careful` when none of the views that it registers
or unregisters is awkward among the others. In runs of careful requests the free ranges stay exact
(`freeRanges_of_careful`); one awkward view breaks them (`freeRanges_fail`).
-/

import FreeWindows.Virtual.FreeRanges

namespace FreeWindows.Virtual

open Lib List Space View Fault Runs

/-! ### The tree -/

theorem mem_insertView (view : View) (views : List View) (other : View) :
    other ∈ insertView view views ↔ other = view ∨ other ∈ views := by
  induction views with
  | nil => simp [insertView]
  | cons first rest ih =>
    unfold insertView
    split
    · simp
    · simp only [mem_cons, ih]
      tauto

variable {views views' : List View} {addr size : Nat}

/-- A view that overlaps no other one has its place in the tree. -/
theorem Tree.insert {view : View} (tree : Tree views) (valid : view.Valid)
    (apart : ∀ other ∈ views, view.Apart other) : Tree (insertView view views) := by
  refine ⟨?_, fun other member => ?_⟩
  · induction views with
    | nil => simp [insertView]
    | cons first rest ih =>
      obtain ⟨behind, sorted⟩ := pairwise_cons.mp tree.sorted
      have firstValid := tree.valid first mem_cons_self
      have tail : Tree rest := ⟨sorted, fun other member =>
        tree.valid other (mem_cons_of_mem _ member)⟩
      unfold insertView
      split
      · next before =>
        have inFront : view.InFront first := by
          rcases apart first mem_cons_self with inFront | after
          · exact inFront
          · have := InFront.base_lt after firstValid.size_pos
            omega
        refine pairwise_cons.mpr ⟨fun other member => ?_, tree.sorted⟩
        rcases mem_cons.mp member with rfl | inRest
        · exact inFront
        · have := behind other inRest
          simp only [View.InFront] at *
          omega
      · next after =>
        refine pairwise_cons.mpr ⟨fun other member => ?_, ih tail fun other member =>
          apart other (mem_cons_of_mem _ member)⟩
        rcases (mem_insertView ..).mp member with rfl | inRest
        · refine (apart first mem_cons_self).resolve_left fun inFront => ?_
          have := InFront.base_lt inFront valid.size_pos
          omega
        · exact behind other inRest
  · rcases (mem_insertView ..).mp member with rfl | inTree
    · exact valid
    · exact tree.valid other inTree

theorem Tree.erase (tree : Tree views) (view : View) : Tree (views.erase view) :=
  ⟨tree.sorted.sublist erase_sublist, fun other member =>
    tree.valid other (mem_of_mem_erase member)⟩

theorem occupied_congr (same : ∀ view, view ∈ views ↔ view ∈ views') (addr : Nat) :
    Occupied views addr ↔ Occupied views' addr :=
  exists_congr fun view => and_congr_left fun _ => same view

theorem FreeExactly.congr {ranges : List RangeEntry} (exactly : FreeExactly ranges views)
    (same : ∀ view, view ∈ views ↔ view ∈ views') : FreeExactly ranges views' :=
  ⟨exactly.separated, fun addr => by rw [exactly.covers, occupied_congr same]⟩

/-- A part of a block in a reserved area is in that area. -/
theorem mmapIsInReservedArea_part {areas : List ReservedArea} {addr' size' : Nat}
    (inside : mmapIsInReservedArea areas addr size = 1) (lower : addr ≤ addr')
    (upper : addr' + size' ≤ addr + size) (nonempty : 0 < size') :
    mmapIsInReservedArea areas addr' size' = 1 := by
  induction areas with
  | nil => simp [mmapIsInReservedArea] at inside
  | cons area rest ih =>
    unfold mmapIsInReservedArea at inside ⊢
    split_ifs at inside with above behind short
    · exact absurd inside (by decide)
    · rw [if_neg (by omega), if_pos (by omega)]
      exact ih inside
    · rw [if_neg (by omega), if_neg (by omega), if_neg (by omega)]

/-! ### One request -/

section Requests

variable {areas : List ReservedArea} {space : Space} {view : View}

/-- The views are in order and in the reserved areas, and the free ranges are exactly the rest. -/
structure Exact (areas : List ReservedArea) (space : Space) : Prop where
  tree : Tree space.views
  reserved : ∀ view ∈ space.views, mmapIsInReservedArea areas view.base view.size = 1
  exactly : FreeExactly space.ranges space.views

theorem registerView_exact (inv : Exact areas space) (valid : view.Valid)
    (reserved : mmapIsInReservedArea areas view.base view.size = 1)
    (apart : ∀ other ∈ space.views, view.Apart other) (plain : ¬Awkward space.views view) :
    Ensures (· = full) (space.registerView areas view) fun space' =>
      Exact areas space' ∧ space'.views = insertView view space.views := by
  unfold registerView
  rw [if_pos (by omega)]
  refine ensures_bind (freeRangesInsertView_exact inv.exactly valid inv.tree.valid apart
    plain) fun ranges exactly => ⟨⟨inv.tree.insert valid apart, ?_, ?_⟩, rfl⟩
  · intro other member
    rcases (mem_insertView ..).mp member with rfl | inTree
    · exact reserved
    · exact inv.reserved other inTree
  · refine exactly.congr fun other => ?_
    rw [mem_insertView, mem_cons]

theorem unregisterView_exact (inv : Exact areas space) (member : view ∈ space.views)
    (low : ¬LowNeighbour space.views view) (plain : ¬Awkward (space.views.erase view) view) :
    Ensures (· = full) (space.unregisterView areas view) fun space' =>
      Exact areas space' ∧ space'.views = space.views.erase view := by
  have reserved := inv.reserved view member
  unfold unregisterView
  rw [if_pos (by omega)]
  refine ensures_bind (freeRangesRemoveView_exact inv.exactly inv.tree member low plain)
    fun ranges exactly => ⟨⟨inv.tree.erase view, fun other inTree => ?_, exactly⟩, rfl⟩
  exact inv.reserved other (mem_of_mem_erase inTree)

/-! ### What is left of a view -/

/-- The first view is a nonempty part of the second one. -/
structure View.PartOf (part view : View) : Prop where
  size_pos : 0 < part.size
  lower : view.base ≤ part.base
  upper : part.base + part.size ≤ view.base + view.size

variable {other : View}

section Parts

variable {part : View} (partOf : part.PartOf view)
include partOf

theorem View.PartOf.valid (valid : view.Valid) : part.Valid :=
  ⟨partOf.size_pos, le_trans partOf.upper valid.limit⟩

theorem View.PartOf.apart (apart : view.Apart other) : part.Apart other := by
  have := partOf.lower
  have := partOf.upper
  simp only [View.Apart, View.InFront] at *
  omega

theorem View.PartOf.uses (uses : part.Uses addr) : view.Uses addr := by
  have nonempty := partOf.size_pos
  have lower := partOf.lower
  have upper := partOf.upper
  rw [uses_iff nonempty] at uses
  rw [uses_iff (by omega)]
  simp only [granularity] at *
  omega

/-- A part is awkward among the other views only if the whole view is. -/
theorem View.PartOf.plain {others : List View} (sizes : ∀ other ∈ others, 0 < other.size)
    (apart : ∀ other ∈ others, view.Apart other) (plain : ¬Awkward others view) :
    ¬Awkward others part := by
  rintro ⟨⟨other, member, usesBase⟩, positive, free, addr, uses, own⟩
  have otherPos := sizes other member
  have nonempty := partOf.size_pos
  have lower := partOf.lower
  have upper := partOf.upper
  rcases apart other member with inFront | behind
  · -- the other view is behind, so it shares the last granule of the part, which is the only one
    refine own ⟨other, member, ?_⟩
    rw [uses_iff otherPos] at usesBase ⊢
    rw [uses_iff nonempty] at uses
    simp only [View.InFront, rangeBase, roundAddr, granularity] at *
    omega
  · -- the other view is in front, so the part starts in the first granule of the view
    have start : part.rangeBase = view.rangeBase := by
      rw [uses_iff otherPos] at usesBase
      simp only [View.InFront, rangeBase, roundAddr, granularity] at *
      omega
    exact plain ⟨start ▸ ⟨other, member, usesBase⟩, start ▸ positive, start ▸ free, addr,
      partOf.uses uses, own⟩

end Parts

/-! ### Careful requests -/

/-- What is left of a view in front of removed pages, and behind them. -/
def View.frontPart (view : View) (base : Nat) : View := ⟨view.base, base - view.base⟩

def View.backPart (view : View) (stop : Nat) : View := ⟨stop, view.base + view.size - stop⟩

/-- A new view starts and ends at a page, has pages in a reserved area and is not awkward; a view
that is unregistered is not awkward among the others and no view behind it starts in the lowest
granule; not all of a view is cut, and when pages are cut out of its middle, its rear part is not
awkward among the others and the front part. -/
def Careful (areas : List ReservedArea) (space : Space) : Request → Prop
  | .create base size => (base &&& pageMask = 0 ∧ size &&& pageMask = 0) ∧
      View.Valid ⟨base, size⟩ ∧ mmapIsInReservedArea areas base size = 1 ∧
      ¬Awkward space.views ⟨base, size⟩
  | .removePages view base size =>
      size < view.size ∧ ¬Awkward (space.views.erase view) view ∧ ¬LowNeighbour space.views view ∧
        (view.base ≠ base ∧ base + size ≠ view.base + view.size →
          ¬Awkward (view.frontPart base :: space.views.erase view) (view.backPart (base + size)))
  | .delete view => ¬Awkward (space.views.erase view) view ∧ ¬LowNeighbour space.views view

theorem apart_of_not_overlaps (clear : ¬view.overlaps other = true) : view.Apart other := by
  simp only [overlaps, View.Apart, View.InFront, Bool.and_eq_true, decide_eq_true_eq] at *
  omega

/-- A part of a view that was just unregistered can be registered. -/
theorem registerPart_exact {part : View} (inv : Exact areas space) (partOf : part.PartOf view)
    (valid : view.Valid) (reserved : mmapIsInReservedArea areas view.base view.size = 1)
    (apart : ∀ other ∈ space.views, view.Apart other) (plain : ¬Awkward space.views view) :
    Ensures (· = full) (space.registerView areas part) fun space' =>
      Exact areas space' ∧ space'.views = insertView part space.views :=
  registerView_exact inv (partOf.valid valid)
    (mmapIsInReservedArea_part reserved partOf.lower partOf.upper partOf.size_pos)
    (fun other member => partOf.apart (apart other member))
    (partOf.plain (fun other member => (inv.tree.valid other member).size_pos) apart plain)

theorem full_ne_assertion : ∀ fault, fault = full → fault ≠ assertion := by
  rintro _ rfl
  exact noConfusion

theorem removePagesFromView_exact {base : Nat} (inv : Exact areas space)
    (careful : Careful areas space (.removePages view base size)) :
    Ensures (· ≠ assertion) (space.removePagesFromView areas view base size)
      (Exact areas) := by
  obtain ⟨proper, plain, low, rear⟩ := careful
  unfold removePagesFromView
  dsimp only
  split
  · exact noConfusion
  next inside =>
  obtain ⟨member, lower, upper⟩ := Decidable.not_not.mp inside
  have valid := inv.tree.valid view member
  have reserved := inv.reserved view member
  have apart : ∀ other ∈ space.views.erase view, view.Apart other := fun other inRest =>
    have ⟨different, inTree⟩ := inv.tree.nodup.mem_erase_iff.mp inRest
    inv.tree.apart member inTree different
  have removed := unregisterView_exact inv member low plain
  split
  next middle =>
    refine (ensures_bind removed fun space' ⟨inv', views⟩ => ?_).allow full_ne_assertion
    rw [← views] at apart plain rear
    have front : (view.frontPart base).PartOf view :=
      ⟨show 0 < base - view.base by omega, le_rfl,
        show view.base + (base - view.base) ≤ _ by omega⟩
    have back : (view.backPart (base + size)).PartOf view :=
      ⟨show 0 < view.base + view.size - (base + size) by omega,
        show view.base ≤ base + size by omega,
        show base + size + (view.base + view.size - (base + size)) ≤ _ by omega⟩
    refine ensures_bind (registerPart_exact inv' front valid reserved apart plain)
      fun space'' ⟨inv'', views'⟩ => ?_
    have same : ∀ other, other ∈ space''.views ↔ other ∈ view.frontPart base :: space'.views :=
      fun other => by rw [views', mem_insertView, mem_cons]; rfl
    refine (registerView_exact inv'' (back.valid valid)
      (mmapIsInReservedArea_part reserved back.lower back.upper back.size_pos) ?_ ?_).mono
      fun _ => And.left
    · intro other inTree
      rcases mem_cons.mp ((same other).mp inTree) with rfl | inRest
      · right
        show view.base + (base - view.base) ≤ base + size
        omega
      · exact back.apart (apart other inRest)
    · intro awkward
      refine rear middle ?_
      simpa only [Awkward, occupied_congr same] using awkward
  next edge =>
    refine (ensures_bind removed fun space' ⟨inv', views⟩ => ?_).allow full_ne_assertion
    rw [← views] at apart plain
    split
    next start =>
      have back : View.PartOf ⟨base + size, view.size - size⟩ view :=
        ⟨show 0 < view.size - size by omega, show view.base ≤ base + size by omega,
          show base + size + (view.size - size) ≤ _ by omega⟩
      exact (registerPart_exact inv' back valid reserved apart plain).mono fun _ => And.left
    next start =>
      have front : View.PartOf ⟨view.base, base - view.base⟩ view :=
        ⟨show 0 < base - view.base by omega, le_rfl,
          show view.base + (base - view.base) ≤ _ by omega⟩
      exact (registerPart_exact inv' front valid reserved apart plain).mono fun _ => And.left

/-- **A careful request** keeps the free ranges exact, and no assertion of the code fails. -/
theorem step_exact {request : Request} (inv : Exact areas space)
    (careful : Careful areas space request) :
    Ensures (· ≠ assertion) (space.step areas request) (Exact areas) := by
  cases request with
  | create base size =>
    obtain ⟨⟨aligned, aligned'⟩, valid, reserved, plain⟩ := careful
    simp only [step, createView, aligned, aligned', ne_eq, not_true_eq_false, or_self,
      if_false]
    split
    · exact noConfusion
    next clear =>
    have apart : ∀ other ∈ space.views, View.Apart ⟨base, size⟩ other := fun other member =>
      apart_of_not_overlaps fun overlaps => clear (any_eq_true.mpr ⟨other, member, overlaps⟩)
    exact ((registerView_exact inv valid reserved apart plain).mono fun _ => And.left).allow
      full_ne_assertion
  | removePages view base size => exact removePagesFromView_exact inv careful
  | delete view =>
    simp only [step, deleteView]
    split
    next member =>
      exact ((unregisterView_exact inv member careful.2 careful.1).mono fun _ => And.left).allow
        full_ne_assertion
    · exact noConfusion

theorem initial_exact (areas : List ReservedArea) : Exact areas initial := by
  refine ⟨⟨List.Pairwise.nil, ?_⟩, ?_, separated_singleton (by decide), fun addr => ?_⟩
  · simp [initial]
  · simp [initial]
  · simp [initial, Covers, Span.Has, Occupied]

/-! ### Whole runs -/

/-- **The free ranges in every state that careful requests lead to**: they are sorted, nonempty and
apart, they are the complement of the granules of the views, so no byte of a view is in one of
them; and no assertion fails in a further careful request. -/
theorem freeRanges_of_careful (run : Runs (Space.step areas) (Careful areas) Space.initial space) :
    Separated space.ranges ∧
      (∀ addr, Covers space.ranges addr ↔ addr < topAddress ∧ ¬Occupied space.views addr) ∧
      (∀ view ∈ space.views, ∀ byte, view.base ≤ byte → byte < view.base + view.size →
        ¬Covers space.ranges byte) ∧
      ∀ request, Careful areas space request →
        space.step areas request ≠ .error .assertion := by
  have inv : Exact areas space := run.invariant (Exact areas) (initial_exact areas)
    fun s request t inv careful done => (step_exact inv careful).post done
  refine ⟨inv.exactly.separated, inv.exactly.covers, fun view member byte lower upper covered => ?_,
    fun request careful => (step_exact inv careful).not_error (not_not.mpr rfl)⟩
  refine ((inv.exactly.covers byte).mp covered).2 ⟨view, member, ?_⟩
  simp only [View.Uses, rangeBase, rangeEnd, roundAddr, granularity]
  omega

end Requests

/-- One reserved area, and three requests in it: the second view starts in the last granule of the
first one, then pages are cut out of the first one. -/
def lowArea : List ReservedArea := [⟨0x10000, 0x10000000⟩]

def sharedGranules : Space :=
  ⟨[⟨0x20000, 0x1000⟩, ⟨0x22000, 0xf000⟩, ⟨0x31000, 0xf000⟩],
    [⟨0, 0x20000⟩, ⟨0x40000, topAddress⟩]⟩

theorem sharedGranules_run :
    Runs (step lowArea) (Careful lowArea) initial sharedGranules := by
  have first : Careful lowArea initial (.create 0x20000 0x11000) := by
    refine ⟨by decide, ⟨by decide, by decide⟩, by decide, ?_⟩
    simp [Awkward, initial, Occupied]
  have second : Careful lowArea ⟨[⟨0x20000, 0x11000⟩], [⟨0, 0x20000⟩, ⟨0x40000, topAddress⟩]⟩
      (.create 0x31000 0xf000) := by
    refine ⟨by decide, ⟨by decide, by decide⟩, by decide, ?_⟩
    simp only [Awkward, Occupied, View.Uses, rangeBase, rangeEnd, roundAddr, granularity,
      mem_singleton, exists_eq_left]
    omega
  have third : Careful lowArea ⟨[⟨0x20000, 0x11000⟩, ⟨0x31000, 0xf000⟩],
      [⟨0, 0x20000⟩, ⟨0x40000, topAddress⟩]⟩ (.removePages ⟨0x20000, 0x11000⟩ 0x21000 0x1000) := by
    refine ⟨by decide, ?_, ?_, fun _ => ?_⟩
    · simp [Awkward, Occupied, View.Uses, rangeBase, rangeEnd, roundAddr, granularity]
    · simp [LowNeighbour, rangeBase, roundAddr, granularity]
    · simp [Awkward, Occupied, View.Uses, rangeBase, rangeEnd, roundAddr, granularity,
        frontPart, backPart]
      omega
  exact head first (by decide +kernel) (head second (by decide +kernel)
    (head third (by decide +kernel) (refl _)))

/-- The granules that three views share are not free. -/
theorem freeRanges_of_careful_shared :
    sharedGranules.views.length = 3 ∧ ∀ addr, Covers sharedGranules.ranges addr ↔
      addr < topAddress ∧ ¬Occupied sharedGranules.views addr :=
  ⟨rfl, (freeRanges_of_careful sharedGranules_run).2.1⟩

/-- **An awkward view breaks the free ranges.** A view of one page in the middle of free addresses,
then a view that starts behind it in the same granule: the range in front ends where the second
view's first granule starts, nothing is taken from it, and the range behind is not looked at. So
`0x20000` is a byte of the second view and in a free range. -/
theorem freeRanges_fail :
    ∃ space, runAll (Space.step lowArea) Space.initial
        [.create 0x10000 0x1000, .create 0x11000 0x20000] = .ok space ∧
      (∀ view ∈ space.views, mmapIsInReservedArea lowArea view.base view.size = 1) ∧
      ⟨0x11000, 0x20000⟩ ∈ space.views ∧ Covers space.ranges 0x20000 := by
  refine ⟨⟨[⟨0x10000, 0x1000⟩, ⟨0x11000, 0x20000⟩], [⟨0, 0x10000⟩, ⟨0x20000, topAddress⟩]⟩,
    by decide +kernel, by decide, by decide, ⟨0x20000, topAddress⟩, by decide, ?_⟩
  exact ⟨by decide, by decide⟩

end FreeWindows.Virtual
