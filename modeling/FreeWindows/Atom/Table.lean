/-
**The three structures of an atom table.**

`TableInv`: the slots, the hash chains and the entries of a table fit together. Two live entries have
names that differ by more than their case, every chain holds the live entries with its hash and no
others, and every entry knows the slot it is in. So the search along a chain finds the one entry with
a name (`findAtomEntry_eq`). It is kept when a count changes (`TableInv.setCount`), when an entry is
added (`TableInv.insert`) and when one is taken out (`TableInv.remove`).
-/

import FreeWindows.Atom.Model

namespace FreeWindows.Atom

open Lib Registry Function List

/-! ### Names -/

variable {str : Name}

section Names

variable {casemap : CaseMap}

/-- The search compares names up to their case. -/
theorem sameName_iff {entry : AtomEntry} :
    sameName casemap str entry = true ↔ folded casemap entry.str = folded casemap str := by
  rw [← compareName_zero]
  unfold sameName compareName
  simp only [Bool.and_eq_true, decide_eq_true_eq]
  split <;> omega

theorem hashStrW_congr {one two : Name} (same : folded casemap one = folded casemap two) :
    hashStrW casemap one = hashStrW casemap two := by
  have fold : ∀ str : Name, hashStrW casemap str =
      (folded casemap str).foldl (fun hash unit => (hash * 65599 + unit) % 2 ^ 32) 0 % hashSize := by
    intro str
    unfold hashStrW folded
    rw [foldl_map]
  rw [fold, fold, same]

end Names

/-! ### The invariant -/

/-- The link to the next entry. -/
def AtomTable.next (table : AtomTable) (e : EntryId) : Option EntryId := (table.memory e).next

/-- The link to the previous entry. -/
def AtomTable.prev (table : AtomTable) (e : EntryId) : Option EntryId := (table.memory e).prev

/-- What an entry in a slot is like. -/
structure EntryInv (casemap : CaseMap) (table : AtomTable) (i : Nat) (e : EntryId) : Prop where
  allocated : e < table.nextEntry
  atom : (table.memory e).atom = i + minStrAtom
  hash : (table.memory e).hash = hashStrW casemap (table.memory e).str
  nonempty : (table.memory e).str.length ≠ 0
  short : (table.memory e).str.length ≤ maxAtomLen
  string : getIntAtomValue (table.memory e).str = 0

/-- **Slots, chains and entries fit together.** -/
structure TableInv (casemap : CaseMap) (table : AtomTable) (chain : Nat → List EntryId) : Prop where
  positive : 0 < table.count
  limit : table.count ≤ maxAtoms
  reserved : table.atoms 0 = none
  beyond : ∀ i, table.count ≤ i → table.atoms i = none
  entry : ∀ i e, table.atoms i = some e → EntryInv casemap table i e
  distinct : ∀ i j e e', table.atoms i = some e → table.atoms j = some e' →
    folded casemap (table.memory e).str = folded casemap (table.memory e').str → i = j
  linked : ∀ h, Linked table.next table.prev none (table.entries h) (chain h)
  nodup : ∀ h, (chain h).Nodup
  members : ∀ h e, e ∈ chain h ↔ (∃ i, table.atoms i = some e) ∧ (table.memory e).hash = h

section Table

variable {casemap : CaseMap} {table : AtomTable} {chain : Nat → List EntryId} {e : EntryId} {i j : Nat}
  {table' : AtomTable}

section Search

variable (inv : TableInv casemap table chain)
include inv

theorem TableInv.length_le (h : Nat) : (chain h).length ≤ table.nextEntry := by
  have inside : chain h ⊆ range table.nextEntry := by
    intro e member
    obtain ⟨⟨i, slot⟩, _⟩ := (inv.members h e).mp member
    exact mem_range.mpr (inv.entry i e slot).allocated
  simpa using (subperm_of_subset (inv.nodup h) inside).length_le

/-- **The search finds the entry with the name**, whatever the case. -/
theorem TableInv.findAtomEntry_eq (slot : table.atoms i = some e)
    (same : folded casemap (table.memory e).str = folded casemap str) :
    table.findAtomEntry casemap str (hashStrW casemap str) = some e := by
  refine ((inv.linked _).walk_eq (inv.length_le _) _).trans ?_
  have member : e ∈ chain (hashStrW casemap str) :=
    (inv.members _ e).mpr ⟨⟨i, slot⟩, by rw [(inv.entry i e slot).hash, hashStrW_congr same]⟩
  cases found : (chain (hashStrW casemap str)).find? fun e => sameName casemap str (table.memory e) with
  | none =>
    have differs := find?_eq_none.mp found e member
    exact absurd (sameName_iff.mpr same) differs
  | some other =>
    have holds := find?_some found
    have alike := sameName_iff.mp holds
    obtain ⟨⟨j, slot'⟩, _⟩ := (inv.members _ other).mp (mem_of_find?_eq_some found)
    obtain rfl := inv.distinct j i other e slot' slot (alike.trans same.symm)
    exact slot'.symm.trans slot

end Search

/-! ### Counts -/

/-- Entries with the same name in the same slot. -/
structure SameName (one two : AtomEntry) : Prop where
  atom : two.atom = one.atom
  hash : two.hash = one.hash
  str : two.str = one.str

/-- What an entry in a slot is like depends on its name and its slot. -/
theorem EntryInv.transfer (entry : EntryInv casemap table i e)
    (grows : table.nextEntry ≤ table'.nextEntry) (same : SameName (table.memory e) (table'.memory e)) :
    EntryInv casemap table' i e := by
  obtain ⟨allocated, atom, hash, nonempty, short, string⟩ := entry
  refine ⟨lt_of_lt_of_le allocated grows, same.atom.trans atom, ?_, ?_, ?_, ?_⟩
  all_goals rw [same.str]
  · exact same.hash.trans hash
  · exact nonempty
  · exact short
  · exact string

theorem modify_memory (entry e : EntryId) (change : AtomEntry → AtomEntry) :
    (table.modify entry change).memory e =
      if e = entry then change (table.memory e) else table.memory e := by
  show update table.memory entry _ e = _
  rw [update_apply]
  split
  · rename_i same
    rw [same]
  · rfl

/-- A change through a link changes one entry at most, and nothing but its memory. -/
theorem modify?_eq (table : AtomTable) (link : Option EntryId) (change : AtomEntry → AtomEntry) :
    table.modify? link change = { table with
      memory := fun e => if link = some e then change (table.memory e) else table.memory e } := by
  cases link with
  | none => simp [AtomTable.modify?]
  | some entry =>
    have same : (table.modify entry change).memory =
        fun e => if some entry = some e then change (table.memory e) else table.memory e := by
      funext e
      simp only [modify_memory, Option.some_inj, eq_comm]
    rw [← same]
    rfl

/-- **A change of a count.** -/
theorem TableInv.setCount (inv : TableInv casemap table chain) (entry : EntryId)
    (change : BitVec 32 → BitVec 32) :
    TableInv casemap (table.modify entry fun e => { e with count := change e.count }) chain := by
  have same : ∀ e, SameName (table.memory e)
      ((table.modify entry fun e => { e with count := change e.count }).memory e) := by
    intro e
    rw [modify_memory]
    split <;> exact ⟨rfl, rfl, rfl⟩
  refine ⟨inv.positive, inv.limit, inv.reserved, inv.beyond, fun i e slot => ?_,
    fun i j e e' one two alike => ?_, fun h => ?_, inv.nodup, fun h e => ?_⟩
  · exact (inv.entry i e slot).transfer le_rfl (same e)
  · rw [(same e).str, (same e').str] at alike
    exact inv.distinct i j e e' one two alike
  · refine (inv.linked h).congr (fun e _ => ?_) fun e _ => ?_
    · rw [AtomTable.next, modify_memory]
      split <;> rfl
    · rw [AtomTable.prev, modify_memory]
      split <;> rfl
  · rw [(same e).hash]
    exact inv.members h e

/-! ### A new entry -/

theorem freeSlot_spec (atoms : Nat → Option EntryId) (left i : Nat) :
    i ≤ freeSlot atoms left i ∧ freeSlot atoms left i ≤ i + left ∧
      (freeSlot atoms left i < i + left → atoms (freeSlot atoms left i) = none) := by
  induction left generalizing i with
  | zero => exact ⟨le_rfl, le_rfl, fun lt => absurd lt (lt_irrefl _)⟩
  | succ left ih =>
    rw [freeSlot]
    split
    · rename_i free
      exact ⟨le_rfl, Nat.le_add_right _ _, fun _ => free⟩
    · obtain ⟨low, high, free⟩ := ih (i + 1)
      exact ⟨by omega, by omega, fun lt => free (by omega)⟩

/-- The slot that `add_atom_entry` takes. -/
def AtomTable.slot (table : AtomTable) : Nat := freeSlot table.atoms (table.count - 1) 1

theorem TableInv.slot_spec (inv : TableInv casemap table chain) :
    0 < table.slot ∧ table.slot ≤ table.count ∧ table.atoms table.slot = none := by
  obtain ⟨low, high, free⟩ := freeSlot_spec table.atoms (table.count - 1) 1
  have positive := inv.positive
  refine ⟨low, ?_, ?_⟩
  · unfold AtomTable.slot
    omega
  · by_cases inside : table.slot < 1 + (table.count - 1)
    · exact free inside
    · exact inv.beyond _ (by omega)

/-- The table with a new entry in the slot. -/
def AtomTable.insert (table : AtomTable) (i hash : Nat) (str : Name) : AtomTable :=
  let grown := { table with
    nextEntry := table.nextEntry + 1
    count := if i = table.count then table.count + 1 else table.count
    atoms := update table.atoms i (some table.nextEntry) }
  (grown.modify table.nextEntry fun e => { e with atom := i + minStrAtom }).linkEntry
    table.nextEntry hash str

/-- Entries that differ in their links only. -/
structure SameContent (one two : AtomEntry) : Prop extends SameName one two where
  count : two.count = one.count

/-- **What the new entry changes.** -/
structure Inserted (table table' : AtomTable) (i hash : Nat) (str : Name) : Prop where
  count : table'.count = if i = table.count then table.count + 1 else table.count
  atoms : table'.atoms = update table.atoms i (some table.nextEntry)
  entries : table'.entries = update table.entries hash (some table.nextEntry)
  nextEntry : table'.nextEntry = table.nextEntry + 1
  new : SameContent ⟨none, none, 1, i + minStrAtom, hash, str⟩ (table'.memory table.nextEntry)
  old : ∀ e, e ≠ table.nextEntry → SameContent (table.memory e) (table'.memory e)
  next : table'.next = update table.next table.nextEntry (table.entries hash)
  prev : table'.prev = update
    (relink table.prev (table.entries hash) (some table.nextEntry)) table.nextEntry none

section Insert

variable {hash : Nat}

theorem insert_memory (e : EntryId) : (table.insert i hash str).memory e =
    if e = table.nextEntry then ⟨table.entries hash, none, 1, i + minStrAtom, hash, str⟩
    else if table.entries hash = some e then
      { table.memory e with prev := some table.nextEntry }
    else table.memory e := by
  simp only [AtomTable.insert, AtomTable.linkEntry, modify?_eq, AtomTable.modify, update_apply]
  split_ifs <;> simp_all

theorem insert_inserted (table : AtomTable) (i hash : Nat) (str : Name) :
    Inserted table (table.insert i hash str) i hash str := by
  refine ⟨?_, ?_, ?_, ?_, ?_, fun e older => ?_, ?_, ?_⟩
  case refine_5 =>
    rw [insert_memory, if_pos rfl]
    exact ⟨⟨rfl, rfl, rfl⟩, rfl⟩
  case refine_6 =>
    rw [insert_memory, if_neg older]
    split <;> exact ⟨⟨rfl, rfl, rfl⟩, rfl⟩
  case refine_7 =>
    funext e
    rw [AtomTable.next, insert_memory, update_apply]
    split_ifs <;> rfl
  case refine_8 =>
    funext e
    rw [AtomTable.prev, insert_memory, update_apply, relink_apply]
    split_ifs <;> rfl
  all_goals simp only [AtomTable.insert, AtomTable.linkEntry, modify?_eq, AtomTable.modify]

section Insert

variable (inv : TableInv casemap table chain)
include inv

/-- A slot of the new table is the one that was taken, or an old one. -/
theorem Inserted.slots (inserted : Inserted table table' i hash str) (slot : table'.atoms j = some e) :
    j = i ∧ e = table.nextEntry ∨ j ≠ i ∧ table.atoms j = some e ∧ e ≠ table.nextEntry := by
  rw [inserted.atoms, update_apply] at slot
  split at slot
  · next same => exact .inl ⟨same, (Option.some.inj slot).symm⟩
  · next other => exact .inr ⟨other, slot, ne_of_lt (inv.entry j e slot).allocated⟩

/-- The next entry is in no chain. -/
theorem TableInv.unchained (h : Nat) : table.nextEntry ∉ chain h := by
  intro member
  obtain ⟨⟨j, slot⟩, _⟩ := (inv.members h _).mp member
  exact lt_irrefl _ (inv.entry j _ slot).allocated

/-- The chains with a new entry: one of them has grown. -/
theorem Inserted.linked (inserted : Inserted table table' i hash str) (h : Nat) :
    Linked table'.next table'.prev none (table'.entries h)
        (update chain hash (table.nextEntry :: chain hash) h) ∧
      (update chain hash (table.nextEntry :: chain hash) h).Nodup := by
  rw [inserted.next, inserted.prev, inserted.entries]
  by_cases same : h = hash
  · subst same
    rw [update_self, update_self]
    exact ⟨(inv.linked h).push (inv.nodup h) (inv.unchained h),
      nodup_cons.mpr ⟨inv.unchained h, inv.nodup h⟩⟩
  · rw [update_of_ne same, update_of_ne same]
    have older : ∀ e ∈ chain h, e ≠ table.nextEntry := by
      rintro e member rfl
      exact inv.unchained h member
    refine ⟨(inv.linked h).congr (fun e member => ?_) fun e member => ?_, inv.nodup h⟩
    · exact update_of_ne (older e member) ..
    · rw [update_of_ne (older e member)]
      refine relink_of_ne fun head => same ?_
      -- the head of the other chain has another hash
      have one := ((inv.members h e).mp member).2
      have two := ((inv.members hash e).mp ((inv.linked hash).head_mem head)).2
      exact one.symm.trans two

theorem Inserted.entry (inserted : Inserted table table' i (hashStrW casemap str) str)
    (nonempty : str.length ≠ 0) (short : str.length ≤ maxAtomLen) (string : getIntAtomValue str = 0)
    (slot : table'.atoms j = some e) : EntryInv casemap table' j e := by
  rcases inserted.slots inv slot with ⟨rfl, rfl⟩ | ⟨_, slot, older⟩
  · have new := inserted.new
    refine ⟨?_, new.atom, ?_, ?_, ?_, ?_⟩
    · rw [inserted.nextEntry]
      exact Nat.lt_succ_self _
    all_goals rw [new.str]
    · exact new.hash
    · exact nonempty
    · exact short
    · exact string
  · refine (inv.entry j e slot).transfer ?_ (inserted.old e older).toSameName
    rw [inserted.nextEntry]
    exact Nat.le_succ _

theorem Inserted.members (inserted : Inserted table table' i hash str) (free : table.atoms i = none)
    (h : Nat) (e : EntryId) :
    e ∈ update chain hash (table.nextEntry :: chain hash) h ↔
      (∃ j, table'.atoms j = some e) ∧ (table'.memory e).hash = h := by
  by_cases isNew : e = table.nextEntry
  · subst isNew
    have slot : table'.atoms i = some table.nextEntry := by
      rw [inserted.atoms, update_self]
    rw [inserted.new.hash]
    by_cases same : h = hash
    · subst same
      rw [update_self]
      exact iff_of_true mem_cons_self ⟨⟨i, slot⟩, rfl⟩
    · rw [update_of_ne same]
      exact iff_of_false (inv.unchained h) fun both => same both.2.symm
  · have slots : (∃ j, table'.atoms j = some e) ↔ ∃ j, table.atoms j = some e := by
      constructor
      · rintro ⟨j, slot⟩
        rcases inserted.slots inv slot with ⟨_, rfl⟩ | ⟨_, slot, _⟩
        · exact absurd rfl isNew
        · exact ⟨j, slot⟩
      · rintro ⟨j, slot⟩
        have other : j ≠ i := by
          rintro rfl
          rw [free] at slot
          cases slot
        exact ⟨j, by rw [inserted.atoms, update_of_ne other]; exact slot⟩
    rw [slots, (inserted.old e isNew).hash, ← inv.members h e]
    by_cases same : h = hash
    · subst same
      simp [isNew]
    · rw [update_of_ne same]

/-- **A new entry** with a name that the table does not have. -/
theorem TableInv.insert (inserted : Inserted table table' i (hashStrW casemap str) str)
    (positive : 0 < i) (le : i ≤ table.count) (room : i < maxAtoms) (free : table.atoms i = none)
    (nonempty : str.length ≠ 0) (short : str.length ≤ maxAtomLen) (string : getIntAtomValue str = 0)
    (fresh : table.findAtomEntry casemap str (hashStrW casemap str) = none) :
    TableInv casemap table' (update chain (hashStrW casemap str)
      (table.nextEntry :: chain (hashStrW casemap str))) := by
  have differs : ∀ j e, table.atoms j = some e →
      folded casemap (table.memory e).str ≠ folded casemap str := fun j e slot same =>
    absurd (fresh.symm.trans (inv.findAtomEntry_eq slot same)) (nomatch ·)
  refine ⟨?_, ?_, ?_, fun j above => ?_,
    fun j e slot => inserted.entry inv nonempty short string slot, fun j k e e' one two alike => ?_,
    fun h => (inserted.linked inv h).1, fun h => (inserted.linked inv h).2,
    inserted.members inv free⟩
  · rw [inserted.count]
    split <;> omega
  · have := inv.limit
    rw [inserted.count]
    split <;> omega
  · rw [inserted.atoms, update_of_ne (ne_of_lt positive)]
    exact inv.reserved
  · rw [inserted.count] at above
    have outside : j ≠ i ∧ table.count ≤ j := by
      split at above <;> omega
    rw [inserted.atoms, update_of_ne outside.1]
    exact inv.beyond j outside.2
  · rcases inserted.slots inv one with ⟨rfl, rfl⟩ | ⟨_, one, older⟩ <;>
      rcases inserted.slots inv two with ⟨rfl, rfl⟩ | ⟨_, two, older'⟩
    · rfl
    · rw [inserted.new.str, (inserted.old e' older').str] at alike
      exact absurd alike.symm (differs k e' two)
    · rw [inserted.new.str, (inserted.old e older).str] at alike
      exact absurd alike (differs j e one)
    · rw [(inserted.old e older).str, (inserted.old e' older').str] at alike
      exact inv.distinct j k e e' one two alike

end Insert

end Insert

/-! ### An entry that is taken out -/

/-- **What taking out an entry changes.** -/
structure Removed (table table' : AtomTable) (i : Nat) (e : EntryId) : Prop where
  count : table'.count = table.count
  atoms : table'.atoms = update table.atoms i none
  entries : table'.entries = if table.prev e = none then
    update table.entries (table.memory e).hash (table.next e) else table.entries
  nextEntry : table'.nextEntry = table.nextEntry
  content : ∀ other, SameContent (table.memory other) (table'.memory other)
  next : table'.next = relink table.next (table.prev e) (table.next e)
  prev : table'.prev = relink table.prev (table.next e) (table.prev e)

theorem unlinkEntry_removed (table : AtomTable) (i : Nat) (e : EntryId) :
    Removed table { table.unlinkEntry e with
      atoms := update (table.unlinkEntry e).atoms i none } i e := by
  have memory : ∀ x, (table.unlinkEntry e).memory x =
      if table.prev e = some x then
        { (if table.next e = some x then { table.memory x with prev := table.prev e }
            else table.memory x) with next := table.next e }
      else if table.next e = some x then { table.memory x with prev := table.prev e }
      else table.memory x := by
    intro x
    simp only [AtomTable.unlinkEntry, modify?_eq, AtomTable.next, AtomTable.prev]
    split <;> rfl
  have rest : (table.unlinkEntry e).count = table.count ∧ (table.unlinkEntry e).atoms = table.atoms ∧
      (table.unlinkEntry e).nextEntry = table.nextEntry ∧
      (table.unlinkEntry e).entries = if table.prev e = none then
        update table.entries (table.memory e).hash (table.next e) else table.entries := by
    simp only [AtomTable.unlinkEntry, modify?_eq, AtomTable.next, AtomTable.prev]
    split_ifs with front <;> simp [front]
  obtain ⟨count, atoms, nextEntry, entries⟩ := rest
  refine ⟨count, by rw [atoms], entries, nextEntry, fun x => ?_, funext fun x => ?_, funext fun x => ?_⟩
  · show SameContent _ ((table.unlinkEntry e).memory x)
    rw [memory]
    split_ifs <;> exact ⟨⟨rfl, rfl, rfl⟩, rfl⟩
  · show ((table.unlinkEntry e).memory x).next = _
    rw [memory, relink_apply]
    split_ifs <;> rfl
  · show ((table.unlinkEntry e).memory x).prev = _
    rw [memory, relink_apply]
    split_ifs <;> rfl

section Remove

variable (removed : Removed table table' i e)
include removed

/-- A slot of the table without the entry is one of the others. -/
theorem Removed.slots {other : EntryId} :
    table'.atoms j = some other ↔ j ≠ i ∧ table.atoms j = some other := by
  rw [removed.atoms, update_apply]
  split
  · next same => exact iff_of_false (nomatch ·) fun both => both.1 same
  · next other => exact ⟨fun slot => ⟨other, slot⟩, And.right⟩

variable (inv : TableInv casemap table chain)
include inv

variable (slot : table.atoms i = some e)
include slot

theorem Removed.linked (h : Nat) :
    Linked table'.next table'.prev none (table'.entries h)
      (update chain (table.memory e).hash ((chain (table.memory e).hash).erase e) h) := by
  have member : e ∈ chain (table.memory e).hash := (inv.members _ e).mpr ⟨⟨i, slot⟩, rfl⟩
  have list := inv.linked (table.memory e).hash
  have nodup := inv.nodup (table.memory e).hash
  rw [removed.next, removed.prev, removed.entries]
  by_cases same : h = (table.memory e).hash
  · subst same
    have unlinked := list.unlink nodup (fun _ _ => (nomatch ·)) member
    have first := list.prev_eq_last nodup (fun _ _ => (nomatch ·)) member
    rw [update_self]
    split
    · rename_i front
      rw [if_pos (first.mp front)] at unlinked
      rwa [update_self]
    · rename_i behind
      rwa [if_neg fun head => behind (first.mpr head)] at unlinked
  · rw [update_of_ne same]
    have entries : (if table.prev e = none then
        update table.entries (table.memory e).hash (table.next e) else table.entries) h =
        table.entries h := by
      split
      · exact update_of_ne same ..
      · rfl
    rw [entries]
    have apart : ∀ x ∈ chain h, x ∉ chain (table.memory e).hash := by
      intro x inside inside'
      exact same ((((inv.members h x).mp inside).2.symm.trans ((inv.members _ x).mp inside').2))
    exact (inv.linked h).congr (fun x inside => (list.unlink_other member (apart x inside)).1)
      fun x inside => (list.unlink_other member (apart x inside)).2

theorem Removed.members (h : Nat) (other : EntryId) :
    other ∈ update chain (table.memory e).hash ((chain (table.memory e).hash).erase e) h ↔
      (∃ j, table'.atoms j = some other) ∧ (table'.memory other).hash = h := by
  have slots : (∃ j, table'.atoms j = some other) ↔ other ≠ e ∧ ∃ j, table.atoms j = some other := by
    constructor
    · rintro ⟨j, is⟩
      obtain ⟨different, is⟩ := removed.slots.mp is
      refine ⟨?_, j, is⟩
      rintro rfl
      exact different (inv.distinct _ _ _ _ is slot rfl)
    · rintro ⟨different, j, is⟩
      refine ⟨j, removed.slots.mpr ⟨?_, is⟩⟩
      rintro rfl
      exact different (Option.some.inj (is.symm.trans slot))
  rw [slots, (removed.content other).hash, and_assoc, ← inv.members h other]
  by_cases same : h = (table.memory e).hash
  · subst same
    rw [update_self, (inv.nodup _).mem_erase_iff]
  · rw [update_of_ne same]
    refine ⟨fun inside => ⟨?_, inside⟩, And.right⟩
    rintro rfl
    exact same ((inv.members h other).mp inside).2.symm

/-- **An entry is taken out.** -/
theorem TableInv.remove :
    TableInv casemap table' (update chain (table.memory e).hash
      ((chain (table.memory e).hash).erase e)) := by
  have old : ∀ {j other}, table'.atoms j = some other → table.atoms j = some other := fun slot =>
    (removed.slots.mp slot).2
  have free : ∀ {j}, table.atoms j = none → table'.atoms j = none := fun none =>
    Option.eq_none_iff_forall_ne_some.mpr fun _ is => nomatch none.symm.trans (old is)
  refine ⟨removed.count ▸ inv.positive, removed.count ▸ inv.limit, free inv.reserved,
    fun j above => free (inv.beyond j (removed.count ▸ above)), fun j other is => ?_,
    fun j k one two is is' alike => ?_, removed.linked inv slot, ?_, removed.members inv slot⟩
  · exact (inv.entry j other (old is)).transfer (le_of_eq removed.nextEntry.symm)
      (removed.content other).toSameName
  · rw [(removed.content one).str, (removed.content two).str] at alike
    exact inv.distinct j k one two (old is) (old is') alike
  · exact (forall_update_iff chain fun _ => List.Nodup).mpr ⟨(inv.nodup _).erase e, fun h _ => inv.nodup h⟩

end Remove

end Table

end FreeWindows.Atom
