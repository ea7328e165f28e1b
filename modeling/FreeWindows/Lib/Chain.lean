/-
**Doubly linked lists in a block of memory.**

An arena holds nodes at addresses; a node has links to the next and to the previous one. `Chain` says
that the links forward lead through given entries. The link back is only right for the entries that
are marked as `linked`: a list can be used for a while with links back that are out of date, as long
as these nodes are not taken out.

* `ListAt.unlink`: taking out a node whose link back is right;
* `ListAt.insertAfter`: putting in a node without a change to the one behind it, whose link back is out
  of date from then on;
* `ListAt.setData`: another content of the first node;
* `Directed`: every list ends, also with links back that are out of date.

A list is described from some node on; `last` is the node in front of it, and `Arena.link last` is
where the list starts. `Frame` says what is left alone.
-/

import Mathlib

namespace FreeWindows.Lib

open List Option

structure Node (α : Type) where
  next : Option Nat
  prev : Option Nat
  data : α

/-- Nodes at addresses, and the first one of a list. -/
structure Arena (α : Type) where
  node : Nat → Node α
  first : Option Nat

variable {i : Nat} {last target : Option Nat}

namespace Arena

variable {α : Type}

def modify (arena : Arena α) (i : Nat) (change : Node α → Node α) : Arena α :=
  { arena with node := fun j => if j = i then change (arena.node i) else arena.node j }

theorem modify_self (arena : Arena α) (i : Nat) (change : Node α → Node α) :
    (arena.modify i change).node i = change (arena.node i) := if_pos rfl

theorem modify_other (arena : Arena α) {j : Nat} (change : Node α → Node α) (other : j ≠ i) :
    (arena.modify i change).node j = arena.node j := if_neg other

/-- A property of all nodes, after a change of one of them. -/
theorem forall_modify {arena : Arena α} {change : Node α → Node α} {P : Nat → Node α → Prop}
    (here : P i (change (arena.node i))) (others : ∀ j, j ≠ i → P j (arena.node j)) (j : Nat) :
    P j ((arena.modify i change).node j) := by
  by_cases same : j = i
  · rw [same, arena.modify_self]
    exact here
  · rw [arena.modify_other change same]
    exact others j same

/-- What the node `last` leads to; without one, the first node. -/
def link (arena : Arena α) : Option Nat → Option Nat
  | none => arena.first
  | some p => (arena.node p).next

theorem link_modify (arena : Arena α) (change : Node α → Node α) (other : some i ≠ last) :
    (arena.modify i change).link last = arena.link last := by
  cases last with
  | none => rfl
  | some p => exact congrArg Node.next (arena.modify_other change fun same => other (congrArg some same.symm))

/-- The node that `last` leads to is another one. -/
def setLink (arena : Arena α) (last target : Option Nat) : Arena α :=
  match last with
  | none => { arena with first := target }
  | some p => arena.modify p fun node => { node with next := target }

/-- Another content of a node. -/
def setData (arena : Arena α) (i : Nat) (data : α) : Arena α :=
  arena.modify i fun node => { node with data }

/-- The neighbours of a node lead to each other. -/
def unlink (arena : Arena α) (cur : Nat) : Arena α :=
  let relinked := match (arena.node cur).next with
    | some n => arena.modify n fun node => { node with prev := (arena.node cur).prev }
    | none => arena
  relinked.setLink (arena.node cur).prev (arena.node cur).next

/-- A node behind another one. The link back of the one that follows is not changed. -/
def insertAfter (arena : Arena α) (cur new : Nat) (data : α) : Arena α :=
  (arena.modify new fun _ => ⟨(arena.node cur).next, some cur, data⟩).modify cur fun node =>
    { node with next := some new }

end Arena

/-- An entry of a list: its address, whether its link back is right, and its content. -/
structure Entry (α : Type) where
  address : Nat
  linked : Bool
  data : α

/-- The links forward lead through the entries, from `first` on. -/
def Chain {α : Type} (arena : Arena α) : (last first : Option Nat) → List (Entry α) → Prop
  | _, first, [] => first = none
  | last, first, entry :: rest =>
    first = some entry.address ∧ (arena.node entry.address).data = entry.data ∧
      (entry.linked = true → (arena.node entry.address).prev = last) ∧
      Chain arena (some entry.address) (arena.node entry.address).next rest

/-- The first entry has another link back. -/
def relinkHead {α : Type} (linked : Bool) : List (Entry α) → List (Entry α)
  | [] => []
  | entry :: rest => { entry with linked } :: rest

section Chains

variable {α : Type} {arena arena' : Arena α} {first : Option Nat} {entries rest : List (Entry α)}

/-- The addresses of a list: they are different, below a bound, and not the one in front. -/
structure Separate (last : Option Nat) (bound : Nat) (entries : List (Entry α)) : Prop where
  nodup : (entries.map Entry.address).Nodup
  below : ∀ entry ∈ entries, entry.address < bound
  apart : ∀ entry ∈ entries, some entry.address ≠ last
  lastBelow : ∀ p, last = some p → p < bound

variable {bound : Nat} {arena'' : Arena α} {entries' : List (Entry α)}

theorem Separate.tail {entry : Entry α} (separate : Separate last bound (entry :: rest)) :
    Separate (some entry.address) bound rest where
  nodup := (nodup_cons.mp separate.nodup).2
  below other member := separate.below other (mem_cons_of_mem _ member)
  apart other member same := (nodup_cons.mp separate.nodup).1
    (mem_map.mpr ⟨other, member, some.inj same⟩)
  lastBelow _ same := some.inj same ▸ separate.below entry mem_cons_self

theorem Separate.behind {entry : Entry α} (separate : Separate last bound (entry :: rest)) :
    Separate last bound rest :=
  ⟨separate.tail.nodup, separate.tail.below, (forall_mem_cons.mp separate.apart).2, separate.lastBelow⟩

theorem Separate.notMem {p : Nat} (separate : Separate last bound entries) (here : last = some p) :
    p ∉ entries.map Entry.address := by
  intro inside
  obtain ⟨other, member, same⟩ := mem_map.mp inside
  exact separate.apart other member (same ▸ here.symm)

theorem Separate.length_le (separate : Separate last bound entries) : entries.length ≤ bound := by
  have inside : entries.map Entry.address ⊆ range bound := by
    intro i member
    obtain ⟨entry, isEntry, rfl⟩ := mem_map.mp member
    exact mem_range.mpr (separate.below entry isEntry)
  simpa using (subperm_of_subset separate.nodup inside).length_le

/-- Nothing of a list is changed but its own nodes and where it starts. -/
structure Frame (arena arena' : Arena α) (last : Option Nat) (bound : Nat)
    (entries : List (Entry α)) : Prop where
  prev : ∀ i, i < bound → i ∉ entries.map Entry.address → (arena'.node i).prev = (arena.node i).prev
  data : ∀ i, i < bound → i ∉ entries.map Entry.address → (arena'.node i).data = (arena.node i).data
  next : ∀ i, i < bound → i ∉ entries.map Entry.address → some i ≠ last →
    (arena'.node i).next = (arena.node i).next
  first : last ≠ none → arena'.first = arena.first

theorem frame_of_node (first : arena'.first = arena.first)
    (same : ∀ i, i < bound → i ∉ entries.map Entry.address → arena'.node i = arena.node i) :
    Frame arena arena' last bound entries where
  prev i below outside := congrArg Node.prev (same i below outside)
  data i below outside := congrArg Node.data (same i below outside)
  next i below outside _ := congrArg Node.next (same i below outside)
  first _ := first

theorem Frame.refl (bound : Nat) : Frame arena arena last bound entries :=
  frame_of_node rfl fun _ _ _ => rfl

theorem Frame.trans {inner : List (Entry α)} (one : Frame arena arena' last bound entries)
    (two : Frame arena' arena'' last bound inner)
    (part : inner.map Entry.address ⊆ entries.map Entry.address) :
    Frame arena arena'' last bound entries where
  prev i below outside := (two.prev i below fun inside => outside (part inside)).trans
    (one.prev i below outside)
  data i below outside := (two.data i below fun inside => outside (part inside)).trans
    (one.data i below outside)
  next i below outside apart := (two.next i below (fun inside => outside (part inside)) apart).trans
    (one.next i below outside apart)
  first some := (two.first some).trans (one.first some)

theorem Chain.congr (chain : Chain arena last first entries)
    (same : ∀ entry ∈ entries, arena'.node entry.address = arena.node entry.address) :
    Chain arena' last first entries := by
  induction entries generalizing last first with
  | nil => exact chain
  | cons entry rest ih =>
    obtain ⟨start, data, prev, tail⟩ := chain
    have here := same entry mem_cons_self
    refine ⟨start, here ▸ data, here ▸ prev, ?_⟩
    rw [here]
    exact ih tail fun other member => same other (mem_cons_of_mem _ member)

theorem Chain.eq_nil (chain : Chain arena last first entries) (ends : first = none) : entries = [] := by
  cases entries with
  | nil => rfl
  | cons entry rest => exact absurd (chain.1.symm.trans ends) (some_ne_none _)

/-- A list behind `last`, in the memory below `bound`. -/
structure ListAt (arena : Arena α) (last : Option Nat) (bound : Nat) (entries : List (Entry α)) :
    Prop where
  chain : Chain arena last (arena.link last) entries
  separate : Separate last bound entries

/-- The list behind `last` has become another one, in more memory. -/
structure Replaces (arena arena' : Arena α) (last : Option Nat) (bound bound' : Nat)
    (entries entries' : List (Entry α)) : Prop where
  list : ListAt arena' last bound' entries'
  frame : Frame arena arena' last bound entries
  grows : bound ≤ bound'
  origin : ∀ entry ∈ entries',
    entry.address ∈ entries.map Entry.address ∨ bound ≤ entry.address

variable {bound' : Nat} {entry : Entry α}

theorem Replaces.refl (list : ListAt arena last bound entries) :
    Replaces arena arena last bound bound entries entries :=
  ⟨list, Frame.refl bound, Nat.le_refl _, fun _ member => .inl (mem_map_of_mem member)⟩

theorem Replaces.trans {mid : List (Entry α)} (one : Replaces arena arena' last bound bound entries mid)
    (two : Replaces arena' arena'' last bound bound' mid entries')
    (part : mid.map Entry.address ⊆ entries.map Entry.address) :
    Replaces arena arena'' last bound bound' entries entries' where
  list := two.list
  frame := one.frame.trans two.frame part
  grows := two.grows
  origin other member := (two.origin other member).imp_left fun inside => part inside

theorem ListAt.tail (list : ListAt arena last bound (entry :: rest)) :
    ListAt arena (some entry.address) bound rest :=
  ⟨list.chain.2.2.2, list.separate.tail⟩

/-- **The first node stays**, and the list behind it becomes another one. -/
theorem Replaces.keep (list : ListAt arena last bound (entry :: rest)) {rest' : List (Entry α)}
    (behind : Replaces arena arena' (some entry.address) bound bound' rest rest') :
    Replaces arena arena' last bound bound' (entry :: rest) (entry :: rest') := by
  obtain ⟨start, data, prev, -⟩ := list.chain
  have below := list.separate.below entry mem_cons_self
  have outside : entry.address ∉ rest.map Entry.address :=
    (nodup_cons.mp list.separate.nodup).1
  have linkSame : arena'.link last = arena.link last := by
    cases last with
    | none => exact behind.frame.first (some_ne_none _)
    | some p =>
      exact behind.frame.next p (list.separate.lastBelow p rfl) (list.separate.behind.notMem rfl)
        (list.separate.apart entry mem_cons_self).symm
  refine ⟨⟨⟨linkSame.trans start, ?_, fun isLinked => ?_, behind.list.chain⟩, ?_⟩, ?_, behind.grows, ?_⟩
  · rw [behind.frame.data _ below outside, data]
  · rw [behind.frame.prev _ below outside, prev isLinked]
  · refine ⟨nodup_cons.mpr ⟨behind.list.separate.notMem rfl, behind.list.separate.nodup⟩, ?_, ?_, ?_⟩
    · exact forall_mem_cons.mpr ⟨Nat.lt_of_lt_of_le below behind.grows, behind.list.separate.below⟩
    · refine forall_mem_cons.mpr ⟨list.separate.apart entry mem_cons_self, ?_⟩
      intro other member same
      have lastBelow := list.separate.lastBelow _ same.symm
      exact (behind.origin other member).elim (list.separate.behind.notMem same.symm) (by omega)
    · exact fun p same => Nat.lt_of_lt_of_le (list.separate.lastBelow p same) behind.grows
  · refine ⟨fun i iBelow away => ?_, fun i iBelow away => ?_, fun i iBelow away apart => ?_,
      fun _ => behind.frame.first (some_ne_none _)⟩
    all_goals simp only [map_cons, mem_cons, not_or] at away
    · exact behind.frame.prev i iBelow away.2
    · exact behind.frame.data i iBelow away.2
    · exact behind.frame.next i iBelow away.2 fun same => away.1 (some.inj same)
  · refine forall_mem_cons.mpr ⟨.inl mem_cons_self, fun other member => ?_⟩
    exact (behind.origin other member).imp_left (mem_cons_of_mem _)

theorem Separate.head_ne (separate : Separate last bound (entry :: rest)) {other : Entry α}
    (member : other ∈ rest) : other.address ≠ entry.address := fun same =>
  (nodup_cons.mp separate.nodup).1 (mem_map.mpr ⟨other, member, same⟩)

theorem frame_modify (change : Node α → Node α) :
    Frame arena (arena.modify entry.address change) last bound (entry :: rest) :=
  frame_of_node rfl fun _ _ outside =>
    arena.modify_other change fun same => outside (same ▸ mem_cons_self)

/-- Addresses are all that separates lists. -/
theorem Separate.of_map (separate : Separate last bound entries)
    (same : entries'.map Entry.address = entries.map Entry.address) : Separate last bound entries' := by
  have origin : ∀ entry ∈ entries', ∃ old ∈ entries, old.address = entry.address := fun entry member =>
    mem_map.mp (same ▸ mem_map_of_mem member)
  refine ⟨same ▸ separate.nodup, fun entry member => ?_, fun entry member => ?_, separate.lastBelow⟩
  · obtain ⟨old, inside, eq⟩ := origin entry member
    exact eq ▸ separate.below old inside
  · obtain ⟨old, inside, eq⟩ := origin entry member
    exact eq ▸ separate.apart old inside

/-- **Another content of the first node.** -/
theorem ListAt.setData (list : ListAt arena last bound (entry :: rest)) (data : α) :
    Replaces arena (arena.setData entry.address data) last bound bound (entry :: rest)
      ({ entry with data } :: rest) := by
  obtain ⟨start, -, prev, tail⟩ := list.chain
  have here : (arena.setData entry.address data).node entry.address =
      { arena.node entry.address with data } := arena.modify_self _ _
  have apart := list.separate.apart entry mem_cons_self
  have same : ({ entry with data } :: rest).map Entry.address = (entry :: rest).map Entry.address := rfl
  refine ⟨⟨⟨(arena.link_modify _ apart).trans start, congrArg Node.data here, ?_, ?_⟩,
    list.separate.of_map same⟩, frame_modify _, Nat.le_refl _,
    fun _ member => .inl (same ▸ mem_map_of_mem member)⟩
  · exact fun isLinked => (congrArg Node.prev here).trans (prev isLinked)
  · rw [here]
    exact tail.congr fun other member => arena.modify_other _ (list.separate.head_ne member)

theorem map_address_relinkHead (linked : Bool) (entries : List (Entry α)) :
    (relinkHead linked entries).map Entry.address = entries.map Entry.address := by
  cases entries <;> rfl

theorem mem_relinkHead {linked : Bool} (member : entry ∈ relinkHead linked entries) :
    entry.address ∈ entries.map Entry.address :=
  map_address_relinkHead linked entries ▸ mem_map_of_mem member

/-- The link of the node in front. -/
theorem Arena.setLink_link (arena : Arena α) (last target : Option Nat) :
    (arena.setLink last target).link last = target := by
  cases last with
  | none => rfl
  | some p => rw [Arena.setLink, Arena.link, arena.modify_self]

theorem Arena.setLink_other (arena : Arena α) (other : some i ≠ last) :
    (arena.setLink last target).node i = arena.node i := by
  cases last with
  | none => rfl
  | some p => rw [Arena.setLink, arena.modify_other _ fun same => other (congrArg some same)]

theorem frame_setLink (last target : Option Nat) :
    Frame arena (arena.setLink last target) last bound entries := by
  have same : ∀ i, ((arena.setLink last target).node i).prev = (arena.node i).prev ∧
      ((arena.setLink last target).node i).data = (arena.node i).data := by
    intro i
    by_cases at' : some i = last
    · subst at'
      rw [Arena.setLink, arena.modify_self]
      exact ⟨rfl, rfl⟩
    · rw [arena.setLink_other at']
      exact ⟨rfl, rfl⟩
  refine ⟨fun i _ _ => (same i).1, fun i _ _ => (same i).2, fun i _ _ apart => ?_, fun some => ?_⟩
  · rw [arena.setLink_other apart]
  · cases last with
    | none => exact absurd rfl some
    | some p => rfl

variable (list : ListAt arena last bound (entry :: rest))
include list

/-- **Taking out the first node**, whose link back is right. -/
theorem ListAt.unlink (isLinked : entry.linked = true) :
    Replaces arena (arena.unlink entry.address) last bound bound (entry :: rest)
      (relinkHead true rest) := by
  obtain ⟨-, -, prev, tail⟩ := list.chain
  have back := prev isLinked
  have separate := list.separate.behind
  have origin : ∀ other ∈ relinkHead true rest,
      other.address ∈ (entry :: rest).map Entry.address ∨ bound ≤ other.address := fun _ member =>
    .inl (mem_cons_of_mem _ (mem_relinkHead member))
  have separate' := separate.of_map (map_address_relinkHead true rest)
  cases rest with
  | nil =>
    have unlinked : arena.unlink entry.address = arena.setLink last none := by
      rw [Arena.unlink, tail, back]
    rw [unlinked]
    exact ⟨⟨arena.setLink_link last none, separate'⟩, frame_setLink last none, Nat.le_refl _, origin⟩
  | cons second rest =>
    obtain ⟨next, data, -, behind⟩ := tail
    have unlinked : arena.unlink entry.address =
        (arena.modify second.address fun node => { node with prev := last }).setLink last
          (some second.address) := by
      rw [Arena.unlink, next, back]
    have apart := separate.apart second mem_cons_self
    have here : ((arena.modify second.address fun node => { node with prev := last }).setLink last
        (some second.address)).node second.address =
          { arena.node second.address with prev := last } := by
      rw [Arena.setLink_other _ apart, arena.modify_self]
    rw [unlinked]
    refine ⟨⟨⟨Arena.setLink_link _ _ _, ?_, fun _ => ?_, ?_⟩, separate'⟩, ?_, Nat.le_refl _, origin⟩
    · exact (congrArg Node.data here).trans data
    · exact congrArg Node.prev here
    · rw [here]
      refine behind.congr fun other member => ?_
      rw [Arena.setLink_other _ (separate.apart other (mem_cons_of_mem _ member)),
        arena.modify_other _ (separate.head_ne member)]
    · have one : Frame arena (arena.modify second.address fun node => { node with prev := last }) last
          bound (second :: rest) := frame_modify _
      have two := @frame_setLink α (arena.modify second.address fun node => { node with prev := last })
        (second :: rest) bound last (some second.address)
      have both := one.trans two (List.Subset.refl _)
      exact (Frame.refl bound).trans both (subset_cons_self _ _)

/-- The list starts with what followed the node that was taken out, and that node is as it was. -/
theorem ListAt.unlink_link (isLinked : entry.linked = true) :
    (arena.unlink entry.address).link last = (arena.node entry.address).next ∧
      (arena.unlink entry.address).node entry.address = arena.node entry.address := by
  obtain ⟨-, -, prev, tail⟩ := list.chain
  have apart := list.separate.apart entry mem_cons_self
  rw [Arena.unlink, prev isLinked]
  refine ⟨Arena.setLink_link _ _ _, ?_⟩
  rw [Arena.setLink_other _ apart]
  cases rest with
  | nil => rw [show (arena.node entry.address).next = none from tail]
  | cons second rest =>
    rw [tail.1]
    exact arena.modify_other _ (list.separate.head_ne mem_cons_self).symm

/-- **A node behind the first one**, at the next free address. The link back of the one that follows
is out of date. -/
theorem ListAt.insertAfter (data : α) :
    Replaces arena (arena.insertAfter entry.address bound data) last bound (bound + 1) (entry :: rest)
      (entry :: ⟨bound, true, data⟩ :: relinkHead false rest) := by
  obtain ⟨start, content, prev, tail⟩ := list.chain
  have below := list.separate.below entry mem_cons_self
  have here : (arena.insertAfter entry.address bound data).node entry.address =
      { arena.node entry.address with next := some bound } := by
    rw [Arena.insertAfter, Arena.modify_self, arena.modify_other _ (Nat.ne_of_lt below)]
  have new : (arena.insertAfter entry.address bound data).node bound =
      ⟨(arena.node entry.address).next, some entry.address, data⟩ := by
    rw [Arena.insertAfter, Arena.modify_other _ _ (Nat.ne_of_gt below), arena.modify_self]
  have others : ∀ i, i ≠ entry.address → i < bound →
      (arena.insertAfter entry.address bound data).node i = arena.node i := by
    intro i other iBelow
    rw [Arena.insertAfter, Arena.modify_other _ _ other, arena.modify_other _ (Nat.ne_of_lt iBelow)]
  have apart := list.separate.apart entry mem_cons_self
  have newApart : some bound ≠ last := fun same =>
    Nat.lt_irrefl bound (list.separate.lastBelow bound same.symm)
  have linkSame : (arena.insertAfter entry.address bound data).link last = arena.link last := by
    rw [Arena.insertAfter, Arena.link_modify _ _ apart, arena.link_modify _ newApart]
  have behind : Chain (arena.insertAfter entry.address bound data) (some bound)
      (arena.node entry.address).next (relinkHead false rest) := by
    have same : ∀ other ∈ rest, (arena.insertAfter entry.address bound data).node other.address =
        arena.node other.address := fun other member =>
      others _ (list.separate.head_ne member)
        (list.separate.below other (mem_cons_of_mem _ member))
    cases rest with
    | nil => exact tail
    | cons second rest =>
      obtain ⟨next, data, -, more⟩ := tail.congr same
      exact ⟨next, data, nofun, more⟩
  refine ⟨⟨⟨linkSame.trans start, ?_, fun isLinked => ?_, ?_⟩, ?_⟩, ?_, Nat.le_succ _, ?_⟩
  · exact (congrArg Node.data here).trans content
  · exact (congrArg Node.prev here).trans (prev isLinked)
  · rw [here]
    refine ⟨rfl, congrArg Node.data new, fun _ => congrArg Node.prev new, ?_⟩
    rw [new]
    exact behind
  · have addresses : (entry :: ⟨bound, true, data⟩ :: relinkHead false rest).map Entry.address =
        entry.address :: bound :: rest.map Entry.address := by
      rw [map_cons, map_cons, map_address_relinkHead]
    have fresh : bound ∉ rest.map Entry.address := by
      intro inside
      obtain ⟨other, member, same⟩ := mem_map.mp inside
      have := list.separate.below other (mem_cons_of_mem _ member)
      omega
    have inner := list.separate.behind.of_map (map_address_relinkHead false rest)
    refine ⟨?_, ?_, ?_, fun p same => Nat.lt_succ_of_lt (list.separate.lastBelow p same)⟩
    · have nodup := nodup_cons.mp list.separate.nodup
      rw [addresses]
      exact nodup_cons.mpr ⟨by simpa [Nat.ne_of_lt below] using nodup.1,
        nodup_cons.mpr ⟨fresh, nodup.2⟩⟩
    · exact forall_mem_cons.mpr ⟨Nat.lt_succ_of_lt below, forall_mem_cons.mpr
        ⟨Nat.lt_succ_self _, fun other member => Nat.lt_succ_of_lt (inner.below other member)⟩⟩
    · exact forall_mem_cons.mpr ⟨apart, forall_mem_cons.mpr ⟨newApart, inner.apart⟩⟩
  · exact frame_of_node rfl fun i iBelow outside =>
      others i (fun same => outside (same ▸ mem_cons_self)) iBelow
  · refine forall_mem_cons.mpr ⟨.inl mem_cons_self,
      forall_mem_cons.mpr ⟨.inr (Nat.le_refl _), fun other member => ?_⟩⟩
    exact .inl (mem_cons_of_mem _ (mem_relinkHead member))

end Chains

/-! ### Lists that end

Links that lead in one direction do not come back to where they started, whatever the links in the
other direction say: nodes have ranks that go up along the links forward and down along those back. -/

/-- All links stay among the first `count` nodes, and lead in one direction. -/
structure Directed {α : Type} (arena : Arena α) (count : Nat) (rank : Nat → Nat) : Prop where
  first : ∀ i, arena.first = some i → i < count
  next : ∀ i j, (arena.node i).next = some j → j < count ∧ rank i < rank j
  prev : ∀ i j, (arena.node i).prev = some j → j < count ∧ rank j < rank i
  bound : ∀ i, i < count → rank i < count

section Directed

variable {α : Type} {arena : Arena α} {count : Nat} {rank : Nat → Nat}

/-- Where the links of a node may lead. -/
def Directs (count : Nat) (rank : Nat → Nat) (i : Nat) (node : Node α) : Prop :=
  (∀ j, node.next = some j → j < count ∧ rank i < rank j) ∧
    ∀ j, node.prev = some j → j < count ∧ rank j < rank i

theorem directed_of_links (first : ∀ i, arena.first = some i → i < count)
    (links : ∀ i, Directs count rank i (arena.node i)) (bound : ∀ i, i < count → rank i < count) :
    Directed arena count rank :=
  ⟨first, fun i => (links i).1, fun i => (links i).2, bound⟩

variable (directed : Directed arena count rank)
include directed

/-- Another node, with links in the same direction. -/
theorem Directed.modify {change : Node α → Node α} (links : Directs count rank i (change (arena.node i))) :
    Directed (arena.modify i change) count rank :=
  directed_of_links directed.first
    (Arena.forall_modify links fun j _ => ⟨directed.next j, directed.prev j⟩) directed.bound

/-- The content of the nodes does not matter. -/
theorem Directed.setData (i : Nat) (data : α) : Directed (arena.setData i data) count rank :=
  directed.modify ⟨directed.next i, directed.prev i⟩

/-- The node that `last` leads to comes later. -/
theorem Directed.setLink (below : ∀ j, target = some j → j < count)
    (later : ∀ i j, last = some i → target = some j → rank i < rank j) :
    Directed (arena.setLink last target) count rank := by
  cases last with
  | none => exact ⟨below, directed.next, directed.prev, directed.bound⟩
  | some p =>
    rw [Arena.setLink]
    exact directed.modify ⟨fun j link => ⟨below j link, later p j rfl link⟩, directed.prev p⟩

/-- **Taking out a node**, also one whose link back is out of date. -/
theorem Directed.unlink (cur : Nat) : Directed (arena.unlink cur) count rank := by
  have up := directed.next cur
  have down := directed.prev cur
  have relinked : Directed (match (arena.node cur).next with
      | some n => arena.modify n fun node => { node with prev := (arena.node cur).prev }
      | none => arena) count rank := by
    split
    next n ahead =>
      refine directed.modify ⟨directed.next n, fun j back => ?_⟩
      exact ⟨(down j back).1, Nat.lt_trans (down j back).2 (up n ahead).2⟩
    next => exact directed
  refine relinked.setLink (fun j ahead => (up j ahead).1) fun i j back ahead => ?_
  exact Nat.lt_trans (down i back).2 (up j ahead).2

/-- Ranks with room for a node behind `cur`. -/
def rankAfter (rank : Nat → Nat) (cur new i : Nat) : Nat :=
  if i = new then rank cur + 1 else if rank cur < rank i then rank i + 1 else rank i

/-- **Putting in a node** that was not used before. -/
theorem Directed.insertAfter {cur : Nat} (used : cur < count) (data : α) :
    Directed (arena.insertAfter cur count data) (count + 1) (rankAfter rank cur count) := by
  have fresh : ∀ {i}, i < count → i ≠ count := Nat.ne_of_lt
  have keeps : ∀ i j, i ≠ count → j ≠ count → rank i < rank j →
      rankAfter rank cur count i < rankAfter rank cur count j := by
    intro i j iOld jOld less
    unfold rankAfter
    rw [if_neg iOld, if_neg jOld]
    split <;> split <;> omega
  have old : ∀ i, i ≠ count →
      Directs (count + 1) (rankAfter rank cur count) i (arena.node i) := by
    refine fun i isOld => ⟨fun j link => ?_, fun j link => ?_⟩
    · obtain ⟨below, up⟩ := directed.next i j link
      exact ⟨Nat.lt_succ_of_lt below, keeps i j isOld (fresh below) up⟩
    · obtain ⟨below, down⟩ := directed.prev i j link
      exact ⟨Nat.lt_succ_of_lt below, keeps j i (fresh below) isOld down⟩
  have atCur : rankAfter rank cur count cur = rank cur := by simp [rankAfter, fresh used]
  have atNew : rankAfter rank cur count count = rank cur + 1 := by simp [rankAfter]
  have up : ∀ j, some count = some j →
      j < count + 1 ∧ rankAfter rank cur count cur < rankAfter rank cur count j := by
    rintro j ⟨⟩
    exact ⟨Nat.lt_succ_self _, by omega⟩
  refine directed_of_links (fun i start => Nat.lt_succ_of_lt (directed.first i start))
    (Arena.forall_modify ⟨up, ?_⟩ fun i other => ?_) fun i below => ?_
  · rw [arena.modify_other _ (fresh used)]
    exact (old cur (fresh used)).2
  · refine Arena.forall_modify (P := fun i node => i ≠ cur →
      Directs (count + 1) (rankAfter rank cur count) i node) (fun _ => ⟨fun j link => ?_, ?_⟩)
      (fun i isOld _ => old i isOld) i other
    · obtain ⟨below, up⟩ := directed.next cur j link
      refine ⟨Nat.lt_succ_of_lt below, ?_⟩
      rw [atNew, rankAfter, if_neg (fresh below), if_pos up]
      omega
    · rintro j ⟨⟩
      exact ⟨Nat.lt_succ_of_lt used, by omega⟩
  · have := directed.bound cur used
    unfold rankAfter
    split
    · omega
    · have := directed.bound i (by omega)
      split <;> omega

end Directed

end FreeWindows.Lib
