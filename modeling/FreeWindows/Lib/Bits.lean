/-
**Machine words.**

The tests that C code makes on masks, as statements about the bits that are set, and signed integers that
do not wrap around.
-/

import Mathlib

namespace FreeWindows.Lib

variable {w : Nat}

theorem eq_zero_iff_bits (x : BitVec w) : x = 0 ↔ ∀ bit, x.getLsbD bit = false := by
  constructor
  · rintro rfl bit
    exact BitVec.getLsbD_zero
  · intro clear
    exact BitVec.eq_of_getLsbD_eq fun bit _ => (clear bit).trans BitVec.getLsbD_zero.symm

theorem and_eq_zero_iff_bits (x y : BitVec w) :
    x &&& y = 0 ↔ ∀ bit, x.getLsbD bit = true → y.getLsbD bit = false := by
  rw [eq_zero_iff_bits]
  refine forall_congr' fun bit => ?_
  rw [BitVec.getLsbD_and]
  cases x.getLsbD bit <;> simp

theorem and_eq_right_iff_bits (x y : BitVec w) :
    x &&& y = y ↔ ∀ bit, y.getLsbD bit = true → x.getLsbD bit = true := by
  constructor
  · intro same bit set
    rw [← same, BitVec.getLsbD_and, Bool.and_eq_true] at set
    exact set.1
  · intro all
    refine BitVec.eq_of_getLsbD_eq fun bit _ => ?_
    rw [BitVec.getLsbD_and]
    cases set : y.getLsbD bit with
    | false => rw [Bool.and_false]
    | true => rw [all bit set, Bool.and_true]

/-- A value of a 32-bit integer. -/
def int32 (value : Int) : Int := value.bmod (2 ^ 32)

theorem int32_eq {value : Int} (small : value.natAbs < 2 ^ 31 := by omega) : int32 value = value := by
  rw [int32, Int.bmod_def]
  omega

end FreeWindows.Lib
