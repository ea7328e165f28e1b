/-
**Doubly linked lists that share their nodes' links.**

`Linked next prev last head nodes`: the links forward lead from `head` through the nodes and end
behind them, and every link back leads to the node before; the first one leads to `last`. Several
lists can live in the same links, as long as they have no node in common.

* `Linked.push`: a new node at the head of a list;
* `Linked.unlink`: a node is taken out of a list, wherever it is;
* `Linked.congr`: a list whose links are not touched;
* `walk`, `Linked.walk_eq`: the search along a list finds what a search in its nodes finds.
-/

import Mathlib

namespace FreeWindows.Lib

open Function List Option

def Linked (next prev : Nat → Option Nat) : (last head : Option Nat) → List Nat → Prop
  | _, head, [] => head = none
  | last, head, i :: rest => head = some i ∧ prev i = last ∧ Linked next prev (some i) (next i) rest

/-- The link of `at?` is set, if there is such a node. -/
def relink (links : Nat → Option Nat) (at? target : Option Nat) : Nat → Option Nat :=
  match at? with
  | some i => update links i target
  | none => links

/-- The first node from `head` on with the property; `fuel` bounds the length of the list. -/
def walk (next : Nat → Option Nat) (found : Nat → Bool) : (fuel : Nat) → Option Nat → Option Nat
  | 0, _ => none
  | _, none => none
  | fuel + 1, some i => if found i then some i else walk next found fuel (next i)

section Linked

variable {next prev next' prev' : Nat → Option Nat} {last head : Option Nat} {nodes : List Nat}
  {i : Nat}

theorem relink_of_ne {links : Nat → Option Nat} {at? target : Option Nat} (other : at? ≠ some i) :
    relink links at? target i = links i := by
  cases at? with
  | none => rfl
  | some j => exact update_of_ne (fun same => other (congrArg some same.symm)) ..

theorem relink_apply (links : Nat → Option Nat) (at? target : Option Nat) (i : Nat) :
    relink links at? target i = if at? = some i then target else links i := by
  split
  · rename_i same
    rw [same]
    exact update_self ..
  · rename_i other
    exact relink_of_ne other

section Members

variable (linked : Linked next prev last head nodes)
include linked

/-- **Links that are not touched.** -/
theorem Linked.congr (sameNext : ∀ i ∈ nodes, next' i = next i)
    (samePrev : ∀ i ∈ nodes, prev' i = prev i) : Linked next' prev' last head nodes := by
  induction nodes generalizing last head with
  | nil => exact linked
  | cons i rest ih =>
    obtain ⟨start, back, tail⟩ := linked
    refine ⟨start, (samePrev i mem_cons_self).trans back, ?_⟩
    rw [sameNext i mem_cons_self]
    exact ih tail (fun j member => sameNext j (mem_cons_of_mem _ member))
      fun j member => samePrev j (mem_cons_of_mem _ member)

theorem Linked.head_mem (start : head = some i) : i ∈ nodes := by
  cases nodes with
  | nil => exact absurd (linked.symm.trans start) (nomatch ·)
  | cons j rest =>
    cases linked.1.symm.trans start
    exact mem_cons_self

theorem Linked.next_mem (member : i ∈ nodes) {j : Nat} (follows : next i = some j) : j ∈ nodes := by
  induction nodes generalizing last head with
  | nil => cases member
  | cons k rest ih =>
    obtain ⟨-, -, tail⟩ := linked
    rcases mem_cons.mp member with rfl | inside
    · exact mem_cons_of_mem _ (tail.head_mem follows)
    · exact mem_cons_of_mem _ (ih tail inside)

/-- What a link back leads to is a node, or the one in front of the list. -/
theorem Linked.prev_mem (member : i ∈ nodes) : prev i = last ∨ ∃ j ∈ nodes, prev i = some j := by
  induction nodes generalizing last head with
  | nil => cases member
  | cons k rest ih =>
    obtain ⟨-, back, tail⟩ := linked
    rcases mem_cons.mp member with rfl | inside
    · exact .inl back
    · rcases ih tail inside with first | ⟨j, isNode, leads⟩
      · exact .inr ⟨k, mem_cons_self, first⟩
      · exact .inr ⟨j, mem_cons_of_mem _ isNode, leads⟩

/-- The link back leads to the front exactly for the first node. -/
theorem Linked.prev_eq_last (nodup : nodes.Nodup) (apart : ∀ j ∈ nodes, some j ≠ last)
    (member : i ∈ nodes) : prev i = last ↔ head = some i := by
  cases nodes with
  | nil => cases member
  | cons k rest =>
    obtain ⟨start, back, tail⟩ := linked
    rcases mem_cons.mp member with rfl | inside
    · exact iff_of_true back start
    · refine iff_of_false (fun front => ?_) fun same => ?_
      · rcases tail.prev_mem inside with first | ⟨j, isNode, leads⟩
        · exact apart k mem_cons_self (first.symm.trans front)
        · exact apart j (mem_cons_of_mem _ isNode) (leads.symm.trans front)
      · cases start.symm.trans same
        exact (nodup_cons.mp nodup).1 inside

end Members

/-- **A new node at the head.** -/
theorem Linked.push (linked : Linked next prev none head nodes) (nodup : nodes.Nodup)
    (fresh : i ∉ nodes) :
    Linked (update next i head) (update (relink prev head (some i)) i none) none
      (some i) (i :: nodes) := by
  refine ⟨rfl, update_self .., ?_⟩
  rw [update_self]
  have apart : ∀ j ∈ nodes, j ≠ i := fun j member same => fresh (same ▸ member)
  cases nodes with
  | nil => exact linked
  | cons j rest =>
    obtain ⟨rfl, -, tail⟩ := linked
    have other := apart j mem_cons_self
    refine ⟨rfl, ?_, ?_⟩
    · rw [update_of_ne other]
      exact update_self ..
    · rw [update_of_ne other]
      have behind : ∀ k ∈ rest, k ≠ i := fun k member => apart k (mem_cons_of_mem _ member)
      refine tail.congr (fun k member => update_of_ne (behind k member) ..) fun k member => ?_
      rw [update_of_ne (behind k member)]
      refine relink_of_ne fun same => (nodup_cons.mp nodup).1 ?_
      rwa [some.inj same]

/-- The neighbours of a node that is taken out lead to each other. -/
theorem Linked.unlink (linked : Linked next prev last head nodes) (nodup : nodes.Nodup)
    (apart : ∀ j ∈ nodes, some j ≠ last) (member : i ∈ nodes) :
    Linked (relink next (prev i) (next i)) (relink prev (next i) (prev i)) last
      (if head = some i then next i else head) (nodes.erase i) := by
  induction nodes generalizing last head with
  | nil => cases member
  | cons k rest ih =>
    obtain ⟨start, back, tail⟩ := linked
    obtain ⟨outside, nodupRest⟩ := nodup_cons.mp nodup
    have apartRest : ∀ j ∈ rest, some j ≠ last := fun j inside =>
      apart j (mem_cons_of_mem _ inside)
    by_cases same : k = i
    · -- the first node goes, and what follows it leads back to the front
      subst same
      rw [if_pos start, erase_cons_head, back]
      cases rest with
      | nil => exact tail
      | cons j rest =>
        obtain ⟨follows, -, behind⟩ := tail
        rw [follows]
        have untouched : relink next last (some j) j = next j :=
          relink_of_ne fun front => apartRest j mem_cons_self front.symm
        refine ⟨rfl, update_self .., ?_⟩
        rw [untouched]
        refine behind.congr (fun m inside => ?_) fun m inside => ?_
        · exact relink_of_ne fun front => apartRest m (mem_cons_of_mem _ inside) front.symm
        · refine relink_of_ne fun same => (nodup_cons.mp nodupRest).1 ?_
          rwa [some.inj same]
    · have inside : i ∈ rest := (mem_cons.mp member).resolve_left (Ne.symm same)
      have apartTail : ∀ j ∈ rest, some j ≠ some k := fun j isNode eq =>
        outside (some.inj eq ▸ isNode)
      have unlinked := ih tail nodupRest apartTail inside
      have first : head ≠ some i := fun eq => same (some.inj (start.symm.trans eq))
      rw [if_neg first, erase_cons_tail (by simpa using same)]
      refine ⟨start, ?_, ?_⟩
      · rw [relink_of_ne fun follows => outside (tail.next_mem inside follows)]
        exact back
      · have link : relink next (prev i) (next i) k =
            if next k = some i then next i else next k := by
          have front := tail.prev_eq_last nodupRest apartTail inside
          split
          · rename_i leads
            rw [front.mpr leads]
            exact update_self ..
          · rename_i leads
            exact relink_of_ne fun eq => leads (front.mp eq)
        rw [link]
        exact unlinked

/-- **Taking a node out of a list** leaves the other lists alone. -/
theorem Linked.unlink_other (linked : Linked next prev none head nodes) (member : i ∈ nodes) {j : Nat}
    (other : j ∉ nodes) :
    relink next (prev i) (next i) j = next j ∧ relink prev (next i) (prev i) j = prev j := by
  refine ⟨relink_of_ne fun leads => other ?_, relink_of_ne fun follows => ?_⟩
  · rcases linked.prev_mem member with first | ⟨k, isNode, back⟩
    · exact absurd (first.symm.trans leads) (nomatch ·)
    · cases back.symm.trans leads
      exact isNode
  · exact other (linked.next_mem member follows)

/-- **The search along a list.** -/
theorem Linked.walk_eq (linked : Linked next prev last head nodes) {fuel : Nat}
    (enough : nodes.length ≤ fuel) (found : Nat → Bool) :
    walk next found fuel head = nodes.find? found := by
  induction nodes generalizing last head fuel with
  | nil =>
    rw [show head = none from linked]
    cases fuel <;> rfl
  | cons i rest ih =>
    obtain ⟨start, -, tail⟩ := linked
    cases fuel with
    | zero => exact absurd enough (Nat.not_succ_le_zero _)
    | succ fuel =>
      rw [start, walk, find?_cons]
      cases found i with
      | true => rfl
      | false => exact ih tail (Nat.le_of_succ_le_succ enough)

end Linked

end FreeWindows.Lib
