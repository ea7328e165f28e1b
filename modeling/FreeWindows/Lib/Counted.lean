/-
**Counts of references.**

Slots hold values or nothing, and every value has a count. `Counted` says that the count of a value is
the number of slots that hold it; filling an empty slot and emptying a full one keep it when the count
goes along (`Counted.put`, `Counted.clear`), and so do filling and emptying many slots one after the
other (`Counted.putAll`, `Counted.clearAll`).
-/

import Mathlib

namespace FreeWindows.Lib

open Function

variable {ι α : Type}

/-- Each value is counted as often as a slot holds it. -/
def Counted (held : ι → Option α) (count : α → Nat) : Prop :=
  ∀ a, {i | held i = some a}.Finite ∧ count a = {i | held i = some a}.ncard

theorem counted_empty : Counted (fun _ : ι => (none : Option α)) fun _ => 0 := by
  intro a
  have nothing : {i : ι | (none : Option α) = some a} = ∅ :=
    Set.eq_empty_iff_forall_notMem.mpr fun _ => nofun
  rw [nothing]
  exact ⟨Set.finite_empty, Set.ncard_empty _ |>.symm⟩

variable {held held' : ι → Option α} {count : α → Nat} {i : ι} {a : α} {place : Nat → ι}
  {values : List (Option α)}

theorem Counted.pos (counted : Counted held count) (full : held i = some a) : 0 < count a := by
  obtain ⟨finite, number⟩ := counted a
  rw [number]
  exact (Set.ncard_pos finite).mpr ⟨i, full⟩

theorem Counted.eq_zero (counted : Counted held count) (nowhere : ∀ i, held i ≠ some a) : count a = 0 := by
  rw [(counted a).2]
  have nothing : {i | held i = some a} = ∅ := Set.eq_empty_iff_forall_notMem.mpr nowhere
  rw [nothing, Set.ncard_empty]

theorem eq_of_outside (others : ∀ i, (∀ k, i ≠ place k) → held' i = held i)
    (inside : ∀ k, held' (place k) = held (place k)) : held' = held := by
  funext i
  by_cases place : ∃ k, i = place k
  · obtain ⟨k, rfl⟩ := place
    exact inside k
  · exact others i (not_exists.mp place)

variable [DecidableEq ι]

/-- The slots but the first one, after that one has changed. -/
theorem outside_update {value : Option α} (others : ∀ i, (∀ k, i ≠ place k) → held' i = held i)
    (first : held' (place 0) = value) (i : ι) (away : ∀ k, i ≠ place (k + 1)) :
    held' i = update held (place 0) value i := by
  by_cases here : i = place 0
  · rw [here, update_self, first]
  · rw [update_of_ne here]
    exact others i fun k => by cases k with
      | zero => exact here
      | succ k => exact away k

variable [DecidableEq α]

/-- **An empty slot is filled.** -/
theorem Counted.put (counted : Counted held count) (empty : held i = none) (a : α) :
    Counted (update held i (some a)) (update count a (count a + 1)) := by
  intro b
  obtain ⟨finite, number⟩ := counted b
  by_cases same : b = a
  · subst same
    have more : {j | update held i (some b) j = some b} = insert i {j | held j = some b} := by
      ext j
      by_cases here : j = i <;> simp [here, update_apply]
    have outside : i ∉ {j | held j = some b} := by
      intro full
      exact Option.some_ne_none b (full.symm.trans empty)
    rw [more, Set.ncard_insert_of_notMem outside finite, update_self, number]
    exact ⟨finite.insert i, rfl⟩
  · have others : {j | update held i (some a) j = some b} = {j | held j = some b} := by
      ext j
      by_cases here : j = i
      · simp [here, empty, Ne.symm same]
      · simp [here]
    rw [others, update_of_ne same]
    exact ⟨finite, number⟩

/-- **A full slot is emptied.** -/
theorem Counted.clear (counted : Counted held count) (full : held i = some a) :
    Counted (update held i none) (update count a (count a - 1)) := by
  intro b
  obtain ⟨finite, number⟩ := counted b
  by_cases same : b = a
  · subst same
    have fewer : {j | update held i none j = some b} = {j | held j = some b} \ {i} := by
      ext j
      by_cases here : j = i <;> simp [here]
    have inside : i ∈ {j | held j = some b} := full
    rw [fewer, Set.ncard_sdiff_singleton_of_mem inside, update_self, number]
    exact ⟨finite.sdiff, rfl⟩
  · have others : {j | update held i none j = some b} = {j | held j = some b} := by
      ext j
      by_cases here : j = i
      · simp [here, full, Ne.symm same]
      · simp [here]
    rw [others, update_of_ne same]
    exact ⟨finite, number⟩

/-- A value is counted once more. -/
def grab (count : α → Nat) (a : α) : α → Nat := update count a (count a + 1)

/-- A value is counted once less, if it is counted at all. -/
def release (count : α → Nat) (a : α) : Option (α → Nat) :=
  if count a = 0 then none else some (update count a (count a - 1))

/-- **Many slots are filled**, the values being in the order of the slots. -/
theorem Counted.putAll (apart : Injective place) (counted : Counted held count)
    (empty : ∀ k, held (place k) = none) (filled : ∀ k, held' (place k) = values[k]?.join)
    (others : ∀ i, (∀ k, i ≠ place k) → held' i = held i) :
    Counted held' (values.reduceOption.foldl grab count) := by
  induction values generalizing place held count with
  | nil =>
    rw [eq_of_outside others fun k => by rw [filled, empty]; rfl]
    exact counted
  | cons value rest ih =>
    -- the first slot is filled, and the rest is another list of empty slots
    have apart' := apart.comp Nat.succ_injective
    have behind : ∀ k, place (k + 1) ≠ place 0 := fun k same => nomatch apart same
    have step : Counted (update held (place 0) value) (value.elim count (grab count)) := by
      cases value with
      | none =>
        have same := update_eq_self (place 0) held
        rw [empty 0] at same
        rw [same]
        exact counted
      | some a => exact counted.put (empty 0) a
    have next := ih apart' step (fun k => ?_) (fun k => filled (k + 1)) (outside_update others (filled 0))
    · cases value <;> exact next
    · exact (update_of_ne (behind k) ..).trans (empty _)

/-- **Many slots are emptied.** Every value in them is counted when its turn comes. -/
theorem Counted.clearAll (apart : Injective place) (counted : Counted held count)
    (full : ∀ k, held (place k) = values[k]?.join) (emptied : ∀ k, held' (place k) = none)
    (others : ∀ i, (∀ k, i ≠ place k) → held' i = held i) :
    ∃ count', values.reduceOption.foldlM release count = some count' ∧ Counted held' count' := by
  induction values generalizing place held count with
  | nil =>
    rw [eq_of_outside others fun k => by rw [emptied, full]; rfl]
    exact ⟨count, rfl, counted⟩
  | cons value rest ih =>
    have apart' := apart.comp Nat.succ_injective
    have behind : ∀ k, place (k + 1) ≠ place 0 := fun k same => nomatch apart same
    have first : held (place 0) = value := full 0
    have others' := outside_update others (emptied 0)
    have full' : ∀ k, update held (place 0) none (place (k + 1)) = rest[k]?.join := by
      intro k
      rw [update_of_ne (behind k), full]
      rfl
    cases value with
    | none =>
      rw [← first, update_eq_self] at full' others'
      exact ih apart' counted full' (fun k => emptied (k + 1)) others'
    | some a =>
      obtain ⟨count', run, still⟩ :=
        ih apart' (counted.clear first) full' (fun k => emptied (k + 1)) others'
      refine ⟨count', ?_, still⟩
      rw [List.reduceOption_cons_of_some, List.foldlM_cons, release,
        if_neg (ne_of_gt (counted.pos first))]
      exact run

end FreeWindows.Lib
