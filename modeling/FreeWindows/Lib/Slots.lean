/-
**Moving elements inside an array.**

Arrays that are kept in order make room for an element, or close the gap of one, by loops that copy
each slot from its neighbour. `shiftDown` closes a gap, `shiftUp` makes one; an element is then
written to the slot that became free. On a list that is cut at the slots in question, the result is
the list with the element taken out or put in (`shiftDown_set`, `shiftUp_insert`,
`shiftDown_remove`).
-/

import Mathlib

namespace FreeWindows.Lib

open List

variable {α : Type}

/-- `slots[i] = slots[j];` -/
def copySlot (slots : List α) (i j : Nat) : List α :=
  match slots[j]? with
  | some element => slots.set i element
  | none => slots

/-- `for (; i < stop; i++) slots[i] = slots[i + 1];` -/
def shiftDown (slots : List α) (i stop : Nat) : List α :=
  if i < stop then shiftDown (copySlot slots i (i + 1)) (i + 1) stop else slots
termination_by stop - i

/-- `for (; i > stop; i--) slots[i] = slots[i - 1];` -/
def shiftUp (slots : List α) (i stop : Nat) : List α :=
  if stop < i then shiftUp (copySlot slots i (i - 1)) (i - 1) stop else slots
termination_by i - stop

/-! ### No new elements -/

variable {element : α} {i stop : Nat} {slots : List α}

theorem mem_copySlot {j : Nat} (member : element ∈ copySlot slots i j) : element ∈ slots := by
  unfold copySlot at member
  split at member
  next copied read =>
    rcases mem_or_eq_of_mem_set member with old | same
    · exact old
    · exact same ▸ mem_of_getElem? read
  · exact member

theorem mem_shiftDown (member : element ∈ shiftDown slots i stop) : element ∈ slots := by
  fun_induction shiftDown slots i stop with
  | case1 slots i lt ih => exact mem_copySlot (ih member)
  | case2 => exact member

theorem length_copySlot (slots : List α) (i j : Nat) : (copySlot slots i j).length = slots.length := by
  unfold copySlot
  split
  · exact length_set
  · rfl

theorem length_shiftDown (slots : List α) (i stop : Nat) :
    (shiftDown slots i stop).length = slots.length := by
  fun_induction shiftDown slots i stop with
  | case1 slots i lt ih => rw [ih, length_copySlot]
  | case2 => rfl

theorem mem_shiftUp (member : element ∈ shiftUp slots i stop) : element ∈ slots := by
  fun_induction shiftUp slots i stop with
  | case1 slots i lt ih => exact mem_copySlot (ih member)
  | case2 => exact member

/-! ### What the loops do -/

/-- After the gap is closed, the last of the copied slots is free. -/
theorem shiftDown_eq (front moved rest : List α) (gap : α) :
    ∃ last, shiftDown (front ++ gap :: moved ++ rest) front.length (front.length + moved.length) =
      front ++ moved ++ last :: rest := by
  induction moved generalizing front gap with
  | nil =>
    refine ⟨gap, ?_⟩
    rw [shiftDown, if_neg (by simp)]
    simp
  | cons first moved ih =>
    obtain ⟨last, shifted⟩ := ih (front ++ [first]) first
    refine ⟨last, ?_⟩
    have step : copySlot (front ++ gap :: first :: moved ++ rest) front.length (front.length + 1) =
        (front ++ [first]) ++ first :: moved ++ rest := by
      simp [copySlot]
    have bound : front.length + (first :: moved).length = (front ++ [first]).length + moved.length := by
      simp
      omega
    rw [shiftDown, if_pos (by simp), step, bound,
      show front.length + 1 = (front ++ [first]).length by simp, shifted]
    simp

/-- **An element moves towards the end**, past the elements in between. -/
theorem shiftDown_set (front moved rest : List α) (gap element : α) :
    (shiftDown (front ++ gap :: moved ++ rest) front.length (front.length + moved.length)).set
      (front.length + moved.length) element = front ++ moved ++ element :: rest := by
  obtain ⟨last, shifted⟩ := shiftDown_eq front moved rest gap
  rw [shifted, ← length_append]
  simp

/-- **An element is put in**, into a slot that is free, in front of the elements in between. -/
theorem shiftUp_set (front moved rest : List α) (free element : α) :
    (shiftUp (front ++ moved ++ free :: rest) (front.length + moved.length) front.length).set
      front.length element = front ++ element :: (moved ++ rest) := by
  induction moved using reverseRecOn generalizing rest free with
  | nil =>
    rw [shiftUp, if_neg (by simp)]
    simp
  | append_singleton moved last ih =>
    have step : copySlot (front ++ (moved ++ [last]) ++ free :: rest)
        (front.length + (moved ++ [last]).length) (front.length + (moved ++ [last]).length - 1) =
        front ++ moved ++ last :: (last :: rest) := by
      have read : (front ++ (moved ++ [last]) ++ free :: rest)[
          front.length + (moved ++ [last]).length - 1]? = some last := by simp
      rw [copySlot, read, ← length_append]
      simp
    rw [shiftUp, if_pos (by simp), step,
      show front.length + (moved ++ [last]).length - 1 = front.length + moved.length by simp, ih]
    simp

/-- An element is put in at an index, and the last slot was free. -/
theorem shiftUp_insert {index : Nat} (element : α) (bound : index ≤ slots.length) :
    (shiftUp (slots ++ [element]) slots.length index).set index element =
      slots.take index ++ element :: slots.drop index := by
  have shifted := shiftUp_set (slots.take index) (slots.drop index) [] element element
  have front : (slots.take index).length = index := length_take_of_le bound
  rw [take_append_drop, append_nil, front, length_drop,
    Nat.add_sub_cancel' bound] at shifted
  exact shifted

/-- The element in a slot is taken out, and the last slot is given up. -/
theorem shiftDown_remove (front moved : List α) (gap : α) :
    (shiftDown (front ++ gap :: moved) front.length ((front ++ gap :: moved).length - 1)).dropLast =
      front ++ moved := by
  obtain ⟨last, shifted⟩ := shiftDown_eq front moved [] gap
  rw [append_nil] at shifted
  rw [show (front ++ gap :: moved).length - 1 = front.length + moved.length by simp, shifted]
  simp

end FreeWindows.Lib
