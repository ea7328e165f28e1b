/-
**Lists threaded through the slots of a table.**

The unused slots of a table are often kept in a list whose links are in the slots themselves. `link`
is the link of each slot, and `Threaded link head slots` says that the list from `head` on has these
slots, in this order.

* `Threaded.congr`, `Threaded.push`: links of other slots do not matter, and a slot is put in front;
* `follow`, `Threaded.follow_eq`: the list can be computed.
-/

import Mathlib

namespace FreeWindows.Lib

open Function

/-- The list that starts at `head` has these slots. -/
def Threaded (link : Nat → Option Nat) : Option Nat → List Nat → Prop
  | head, [] => head = none
  | head, i :: rest => head = some i ∧ Threaded link (link i) rest

/-- The first slots of the list, as many as `fuel` says. -/
def follow (link : Nat → Option Nat) : (fuel : Nat) → Option Nat → List Nat
  | 0, _ => []
  | _ + 1, none => []
  | fuel + 1, some i => i :: follow link fuel (link i)

variable {link link' : Nat → Option Nat} {head : Option Nat} {slots : List Nat}
  (threaded : Threaded link head slots)
include threaded

theorem Threaded.congr (same : ∀ i ∈ slots, link' i = link i) : Threaded link' head slots := by
  induction slots generalizing head with
  | nil => exact threaded
  | cons i rest ih =>
    refine ⟨threaded.1, ?_⟩
    rw [same i List.mem_cons_self]
    exact ih threaded.2 fun j member => same j (List.mem_cons_of_mem _ member)

/-- **A slot is put in front**, with a link to the old list. -/
theorem Threaded.push {i : Nat} (fresh : i ∉ slots) :
    Threaded (update link i head) (some i) (i :: slots) := by
  refine ⟨rfl, ?_⟩
  rw [update_self]
  refine threaded.congr fun j member => update_of_ne ?_ ..
  rintro rfl
  exact fresh member

theorem Threaded.follow_eq {fuel : Nat} (enough : slots.length ≤ fuel) :
    follow link fuel head = slots := by
  induction slots generalizing head fuel with
  | nil =>
    cases threaded
    cases fuel <;> rfl
  | cons i rest ih =>
    obtain ⟨rfl, later⟩ := threaded
    cases fuel with
    | zero => cases enough
    | succ fuel => exact congrArg (i :: ·) (ih later (Nat.le_of_succ_le_succ enough))

end FreeWindows.Lib
