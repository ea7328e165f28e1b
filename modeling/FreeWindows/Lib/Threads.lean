/-
**Counting threads.**

A program of finitely many threads keeps a local state for each of them. `tally f threads` adds up what
the threads contribute to a count, so an invariant that relates a shared counter to the threads is an
equation between numbers.

* `tally_update`: the step of one thread changes its own contribution only;
* `le_tally`, `add_le_tally`, `exists_of_tally_pos`, `tally_eq_zero`: what a count says about threads.
-/

import Mathlib

namespace FreeWindows.Lib

open Finset Function

section Tally

variable {ι α : Type} [Fintype ι]

def tally (f : α → Nat) (threads : ι → α) : Nat := ∑ t, f (threads t)

variable (f : α → Nat) (threads : ι → α)

theorem le_tally (t : ι) : f (threads t) ≤ tally f threads :=
  single_le_sum (f := fun u => f (threads u)) (fun _ _ => Nat.zero_le _) (mem_univ t)

theorem exists_of_tally_pos {f : α → Nat} {threads : ι → α} (positive : 0 < tally f threads) :
    ∃ t, 0 < f (threads t) := by
  obtain ⟨t, -, nonzero⟩ := exists_ne_zero_of_sum_ne_zero positive.ne'
  exact ⟨t, Nat.pos_of_ne_zero nonzero⟩

theorem tally_eq_zero {f : α → Nat} {threads : ι → α} :
    tally f threads = 0 ↔ ∀ t, f (threads t) = 0 := by
  simp [tally]

theorem add_le_tally {t u : ι} (different : t ≠ u) : f (threads t) + f (threads u) ≤ tally f threads := by
  classical
  have pair := sum_le_sum_of_subset (f := fun v => f (threads v)) (subset_univ {t, u})
  rwa [sum_pair different] at pair

/-- The step of one thread. -/
theorem tally_update [DecidableEq ι] (t : ι) (a : α) :
    tally f (update threads t a) + f (threads t) = tally f threads + f a := by
  have others : ∑ u ∈ univ.erase t, f (update threads t a u) = ∑ u ∈ univ.erase t, f (threads u) :=
    sum_congr rfl fun u member => by rw [update_of_ne (ne_of_mem_erase member)]
  have before := add_sum_erase univ (fun u => f (threads u)) (mem_univ t)
  have after := add_sum_erase univ (fun u => f (update threads t a u)) (mem_univ t)
  simp only [update_self] at after
  simp only [tally]
  omega

end Tally

end FreeWindows.Lib
