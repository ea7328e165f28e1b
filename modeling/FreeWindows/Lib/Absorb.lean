/-
**Input that is absorbed in blocks.**

A state takes in its input in blocks of a fixed size, and what does not fill a block waits. `absorb` gives the
state and the rest; by `absorb_append` it does not matter how the input is cut.
-/

import Mathlib

namespace FreeWindows.Lib

open List

variable {σ α : Type} (size : Nat) (step : σ → List α → σ)

/-- The state after all whole blocks, and what is left of the input. -/
def absorb (state : σ) (input : List α) : σ × List α :=
  if 0 < size ∧ size ≤ input.length then absorb (step state (input.take size)) (input.drop size)
  else (state, input)
termination_by input.length
decreasing_by
  rw [length_drop]
  omega

variable {size step} {input : List α}

theorem absorb_short (state : σ) (short : input.length < size) :
    absorb size step state input = (state, input) := by
  rw [absorb, if_neg (by omega)]

theorem absorb_block (state : σ) (block : 0 < size ∧ size ≤ input.length) :
    absorb size step state input = absorb size step (step state (input.take size)) (input.drop size) := by
  rw [absorb, if_pos block]

/-- **The rest waits for more input.** -/
theorem absorb_append (state : σ) (input more : List α) : absorb size step state (input ++ more) =
    absorb size step (absorb size step state input).1 ((absorb size step state input).2 ++ more) := by
  fun_induction absorb size step state input with
  | case1 state input block ih =>
    rw [absorb_block state ⟨block.1, by rw [length_append]; omega⟩, take_append_of_le_length block.2,
      drop_append_of_le_length block.2, ih]
  | case2 => rfl

theorem length_absorb (positive : 0 < size) (state : σ) (input : List α) :
    (absorb size step state input).2.length = input.length % size := by
  fun_induction absorb size step state input with
  | case1 state input block ih => rw [ih, length_drop, ← Nat.mod_eq_sub_mod block.2]
  | case2 state input short => rw [Nat.mod_eq_of_lt (by omega)]

end FreeWindows.Lib
