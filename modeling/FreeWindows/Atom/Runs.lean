/-
**Atoms and their counts along whole runs.**

A session is a table with a book of the atoms that are in use: which entry and name each of them was
given, and its balance, the adds and grabs minus the deletes and releases. `Good` says that the table
does what the book says: two live names differ by more than their case, the chains hold the live
entries, an atom maps to its entry as long as its balance is positive and to nothing otherwise, and
a name is found in any case.

The reference count is an `int`, the balance is not. `atoms_good_iff`: all states of a run are good
exactly if no delete or release is for an atom whose balance is one more than a multiple of 2^32,
other than one. `atom_lost` is the run in which a name that is added 2^32 + 1 times is gone after one
delete.
-/

import FreeWindows.Atom.Table
import FreeWindows.Lib.Run

namespace FreeWindows.Atom

open Lib Registry Function Option AtomTable BitVec

/-! ### Sessions -/

/-- What an atom was given, and how many references there are to it. -/
structure Life where
  entry : EntryId
  name : Name
  balance : Nat
deriving DecidableEq, Repr

/-- A table and the book of the atoms in use. -/
structure Session where
  table : AtomTable
  live : Nat → Option Life

inductive AtomAction where
  | add (name : Name)
  | find (name : Name)
  | delete (atom : Nat)
  | grab (atom : Nat)
  | release (atom : Nat)
deriving DecidableEq, Repr

/-- The book after an atom was returned for the name; integer atoms are not in it. -/
def Session.added (s : Session) (name : Name) (atom : Nat) : Nat → Option Life :=
  if atom < minStrAtom then s.live
  else
    match s.live atom with
    | some life => update s.live atom (some { life with balance := life.balance + 1 })
    | none => update s.live atom (some ⟨s.table.nextEntry, name, 1⟩)

/-- The book after a grab of the atom. -/
def Session.grabbed (s : Session) (atom : Nat) : Nat → Option Life :=
  match s.live atom with
  | some life => update s.live atom (some { life with balance := life.balance + 1 })
  | none => s.live

/-- The book after a delete or release of the atom. -/
def Session.dropped (s : Session) (atom : Nat) : Nat → Option Life :=
  match s.live atom with
  | some life => update s.live atom
      (if life.balance = 1 then none else some { life with balance := life.balance - 1 })
  | none => s.live

/-- The session after `add_atom` has returned. -/
def Session.afterAdd (s : Session) (name : Name) : AtomTable × Except AtomError Nat → Session
  | (table, .ok atom) => ⟨table, s.added name atom⟩
  | (table, .error _) => ⟨table, s.live⟩

/-- One call. -/
def Session.step (casemap : CaseMap) (s : Session) : AtomAction → Except Empty Session
  | .add name => .ok (s.afterAdd name (s.table.addAtom casemap name))
  | .find _ => .ok s
  | .delete atom => .ok ⟨(s.table.deleteAtom atom).1, s.dropped atom⟩
  | .grab atom => .ok ⟨(s.table.grabAtom atom).1, s.grabbed atom⟩
  | .release atom => .ok ⟨(s.table.releaseAtom atom).1, s.dropped atom⟩

def Session.initial : Session where
  table := createAtomTable
  live _ := none

/-- **The table does what the book says.** -/
structure Good (casemap : CaseMap) (s : Session) : Prop where
  /-- Two live entries never have names that are equal up to their case. -/
  distinct : ∀ atom atom' e e', s.table.getAtomEntry atom = some e →
    s.table.getAtomEntry atom' = some e' →
    folded casemap (s.table.memory e).str = folded casemap (s.table.memory e').str → atom = atom'
  /-- The hash chains contain the live entries, each once, and no others. -/
  chains : ∃ chain : Nat → List EntryId,
    (∀ h, Linked s.table.next s.table.prev none (s.table.entries h) (chain h) ∧ (chain h).Nodup) ∧
      ∀ e, (∃ h < hashSize, e ∈ chain h) ↔ ∃ atom, s.table.getAtomEntry atom = some e
  /-- An atom maps to the entry that it was given while its balance is positive, and else to
  nothing. -/
  values : ∀ atom, s.table.getAtomEntry atom = (s.live atom).map Life.entry
  names : ∀ atom life, s.live atom = some life →
    0 < life.balance ∧ (s.table.memory life.entry).str = life.name
  /-- A name is found in any case. -/
  finds : ∀ atom e, s.table.getAtomEntry atom = some e →
    ∀ name, folded casemap name = folded casemap (s.table.memory e).str →
      s.table.findAtom casemap name = .ok atom

/-- The reference count does not reach zero before the balance does. -/
def Careful (s : Session) : AtomAction → Prop
  | .delete atom => ∀ life, s.live atom = some life → life.balance % 2 ^ 32 = 1 → life.balance = 1
  | .release atom => ∀ life, s.live atom = some life → life.balance % 2 ^ 32 = 1 → life.balance = 1
  | _ => True

/-- The case mapping leaves `#` and the digits alone, as the one of `l_intl.nls` does: no other unit
is mapped to the same as one of them. -/
def Caseless (casemap : CaseMap) : Prop :=
  ∀ unit special : WChar, special = 0x23 ∨ ¬ (special < 0x30 ∨ special > 0x39) →
    casemap unit = casemap special → unit = special

/-! ### Integer atoms -/

section Names

variable {casemap : CaseMap} {one two : Name}

theorem intAtomLoop_congr (caseless : Caseless casemap) (same : folded casemap one = folded casemap two)
    (ret : Nat) : intAtomLoop ret one = intAtomLoop ret two := by
  induction one generalizing two ret with
  | nil =>
    cases two with
    | nil => rfl
    | cons b two => cases same
  | cons a one ih =>
    cases two with
    | nil => cases same
    | cons b two =>
      obtain ⟨head, tail⟩ := List.cons.inj same
      have alike : casemap a = casemap b := UInt16.toNat_inj.mp head
      by_cases digit : a < 0x30 ∨ a > 0x39
      · by_cases digit' : b < 0x30 ∨ b > 0x39
        · rw [intAtomLoop, intAtomLoop, if_pos digit, if_pos digit']
        · exact absurd (caseless a b (.inr digit') alike ▸ digit) digit'
      · obtain rfl := caseless b a (.inr digit) alike.symm
        rw [intAtomLoop, intAtomLoop, if_neg digit, if_neg digit]
        simp only [ih tail]

/-- Names that are equal up to their case are the same integer atom or none. -/
theorem getIntAtomValue_congr (caseless : Caseless casemap)
    (same : folded casemap one = folded casemap two) : getIntAtomValue one = getIntAtomValue two := by
  cases one with
  | nil =>
    cases two with
    | nil => rfl
    | cons b two => cases same
  | cons a one =>
    cases two with
    | nil => cases same
    | cons b two =>
      obtain ⟨head, tail⟩ := List.cons.inj same
      have alike : casemap a = casemap b := UInt16.toNat_inj.mp head
      rw [getIntAtomValue, intAtomLoop_congr caseless tail]
      refine if_congr (not_congr ⟨fun hash => ?_, fun hash => ?_⟩) rfl rfl
      · exact hash ▸ caseless b a (.inl hash) alike.symm
      · exact hash ▸ caseless a b (.inl hash) alike

theorem intAtomLoop_lt {ret : Nat} (below : ret < maxIntAtom) (name : Name) :
    intAtomLoop ret name < maxIntAtom := by
  induction name generalizing ret with
  | nil => exact below
  | cons unit rest ih =>
    rw [intAtomLoop]
    split
    · decide
    · simp only
      split
      · decide
      · rename_i less
        exact ih (Nat.lt_of_not_ge less)

theorem getIntAtomValue_lt (name : Name) : getIntAtomValue name < minStrAtom := by
  cases name with
  | nil => decide
  | cons unit rest =>
    rw [getIntAtomValue]
    split
    · decide
    · exact intAtomLoop_lt (by decide) rest

end Names

/-! ### The invariant -/

/-- What the table knows about an atom in use: its count is the balance in 32 bits. -/
structure LifeInv (table : AtomTable) (atom : Nat) (life : Life) : Prop where
  entry : table.getAtomEntry atom = some life.entry
  positive : 0 < life.balance
  count : (table.memory life.entry).count = BitVec.ofNat 32 life.balance
  name : (table.memory life.entry).str = life.name

/-- **The invariant of a session.** -/
structure Session.Inv (casemap : CaseMap) (s : Session) : Prop where
  table : ∃ chain, TableInv casemap s.table chain
  unused : ∀ atom, s.live atom = none → s.table.getAtomEntry atom = none
  used : ∀ atom life, s.live atom = some life → LifeInv s.table atom life

variable {atom : Nat} {e : EntryId} {s : Session}

section Inv

variable {casemap : CaseMap} {table : AtomTable} {chain : Nat → List EntryId}

theorem TableInv.getAtomEntry_iff (inv : TableInv casemap table chain) :
    table.getAtomEntry atom = some e ↔ ∃ i, atom = i + minStrAtom ∧ table.atoms i = some e := by
  unfold getAtomEntry
  constructor
  · intro found
    split at found
    · rename_i inside
      exact ⟨atom - minStrAtom, (Nat.sub_add_cancel inside.1).symm, found⟩
    · cases found
  · rintro ⟨i, rfl, slot⟩
    have below : i < table.count := by
      by_contra above
      rw [inv.beyond i (le_of_not_gt above)] at slot
      cases slot
    rw [if_pos ⟨Nat.le_add_left _ _, by omega⟩, Nat.add_sub_cancel]
    exact slot

theorem TableInv.atom_unique (inv : TableInv casemap table chain) {atom' : Nat}
    (one : table.getAtomEntry atom = some e) (two : table.getAtomEntry atom' = some e) :
    atom = atom' := by
  obtain ⟨i, rfl, slot⟩ := inv.getAtomEntry_iff.mp one
  obtain ⟨j, rfl, slot'⟩ := inv.getAtomEntry_iff.mp two
  rw [inv.distinct _ _ _ _ slot slot' rfl]

theorem Session.Inv.good (inv : s.Inv casemap) (caseless : Caseless casemap) : Good casemap s := by
  obtain ⟨chain, table⟩ := inv.table
  refine ⟨fun atom atom' e e' one two alike => ?_,
    ⟨chain, fun h => ⟨table.linked h, table.nodup h⟩, fun e => ?_⟩, fun atom => ?_,
    fun atom life is => ⟨(inv.used atom life is).positive, (inv.used atom life is).name⟩,
    fun atom e found name alike => ?_⟩
  · obtain ⟨i, rfl, slot⟩ := table.getAtomEntry_iff.mp one
    obtain ⟨j, rfl, slot'⟩ := table.getAtomEntry_iff.mp two
    rw [table.distinct i j e e' slot slot' alike]
  · constructor
    · rintro ⟨h, -, member⟩
      obtain ⟨⟨i, slot⟩, -⟩ := (table.members h e).mp member
      exact ⟨i + minStrAtom, table.getAtomEntry_iff.mpr ⟨i, rfl, slot⟩⟩
    · rintro ⟨atom, found⟩
      obtain ⟨i, -, slot⟩ := table.getAtomEntry_iff.mp found
      refine ⟨(s.table.memory e).hash, ?_, (table.members _ e).mpr ⟨⟨i, slot⟩, rfl⟩⟩
      rw [(table.entry i e slot).hash]
      exact Nat.mod_lt _ (by decide)
  · cases is : s.live atom with
    | none => exact inv.unused atom is
    | some life => exact (inv.used atom life is).entry
  · obtain ⟨i, rfl, slot⟩ := table.getAtomEntry_iff.mp found
    have entry := table.entry i e slot
    have length := congrArg List.length alike
    rw [folded, folded, List.length_map, List.length_map] at length
    unfold findAtom
    rw [if_neg (by rw [length]; exact entry.nonempty),
      if_neg (by rw [length]; exact not_lt.mpr entry.short),
      if_neg (by rw [getIntAtomValue_congr caseless alike]; exact not_not.mpr entry.string),
      table.findAtomEntry_eq slot alike.symm]
    exact congrArg Except.ok entry.atom

theorem createAtomTable_inv : TableInv casemap createAtomTable fun _ => [] where
  positive := Nat.one_pos
  limit := by decide
  reserved := rfl
  beyond _ _ := rfl
  entry _ _ slot := nomatch slot
  distinct _ _ _ _ slot := nomatch slot
  linked _ := rfl
  nodup _ := List.nodup_nil
  members _ _ := iff_of_false List.not_mem_nil fun both => nomatch both.1

theorem initial_inv : Session.initial.Inv casemap where
  table := ⟨fun _ => [], createAtomTable_inv⟩
  unused atom _ := by
    show createAtomTable.getAtomEntry atom = none
    unfold getAtomEntry
    split <;> rfl
  used _ _ is := nomatch is

end Inv

/-! ### Steps -/

variable {action : AtomAction} {life : Life} {casemap : CaseMap}

section Steps

/-- What the table knows about an atom. -/
def Tracks (table : AtomTable) (atom : Nat) : Option Life → Prop
  | none => table.getAtomEntry atom = none
  | some life => LifeInv table atom life

/-- **The table and the book change together**, for one atom. -/
theorem Session.Inv.change (inv : s.Inv casemap) {table' : AtomTable} {chain' : Nat → List EntryId}
    (valid : TableInv casemap table' chain') {new : Option Life} (own : Tracks table' atom new)
    (maps : ∀ other, other ≠ atom → table'.getAtomEntry other = s.table.getAtomEntry other)
    (same : ∀ other life', other ≠ atom → LifeInv s.table other life' →
      SameContent (s.table.memory life'.entry) (table'.memory life'.entry)) :
    Session.Inv casemap ⟨table', update s.live atom new⟩ := by
  have tracks := (forall_update_iff s.live (Tracks table')).mpr ⟨own, fun other different => by
    cases is : s.live other with
    | none => exact (maps other different).trans (inv.unused other is)
    | some life' =>
      have there := inv.used other life' is
      have content := same other life' different there
      exact ⟨(maps other different).trans there.entry, there.positive, content.count.trans there.count,
        content.str.trans there.name⟩⟩
  refine ⟨⟨chain', valid⟩, fun other none => ?_, fun other life' is => ?_⟩
  · exact (congrArg (Tracks table' other) none).mp (tracks other)
  · exact (congrArg (Tracks table' other) is).mp (tracks other)

/-- **A count and the balance change together.** -/
theorem Session.Inv.recount (inv : s.Inv casemap) (is : s.live atom = some life)
    (change : BitVec 32 → BitVec 32) (balance : Nat) (positive : 0 < balance)
    (counts : change (BitVec.ofNat 32 life.balance) = BitVec.ofNat 32 balance) :
    Session.Inv casemap ⟨s.table.modify life.entry fun e => { e with count := change e.count },
      update s.live atom (some { life with balance })⟩ := by
  obtain ⟨chain, table⟩ := inv.table
  have here := inv.used atom life is
  refine inv.change (table.setCount life.entry change) ⟨here.entry, positive, ?_, ?_⟩ (fun _ _ => rfl)
    fun other life' different there => ?_
  · rw [modify_memory, if_pos rfl, ← counts, ← here.count]
  · rw [modify_memory, if_pos rfl]
    exact here.name
  · have apart : life'.entry ≠ life.entry := fun eq =>
      different (table.atom_unique there.entry (eq ▸ here.entry))
    rw [modify_memory, if_neg apart]
    exact ⟨⟨rfl, rfl, rfl⟩, rfl⟩

theorem ofNat_succ (balance : Nat) : BitVec.ofNat 32 balance + 1 = BitVec.ofNat 32 (balance + 1) := by
  rw [ofNat_add]
  rfl

variable {balance : Nat} {name : Name}

theorem ofNat_pred (positive : 0 < balance) :
    BitVec.ofNat 32 balance - 1 = BitVec.ofNat 32 (balance - 1) := by
  obtain ⟨rest, rfl⟩ := Nat.exists_eq_succ_of_ne_zero (ne_of_gt positive)
  rw [← ofNat_succ, add_sub_cancel]
  rfl

theorem Session.Inv.grab (inv : s.Inv casemap) (atom : Nat) :
    Session.Inv casemap ⟨(s.table.grabAtom atom).1, s.grabbed atom⟩ := by
  unfold grabAtom Session.grabbed
  cases is : s.live atom with
  | none =>
    have unused := inv.unused atom is
    rw [unused]
    split <;> exact inv
  | some life =>
    have here := inv.used atom life is
    obtain ⟨chain, table⟩ := inv.table
    obtain ⟨i, rfl, -⟩ := table.getAtomEntry_iff.mp here.entry
    rw [if_pos (Nat.le_add_left _ _), here.entry]
    exact inv.recount is (· + 1) _ (Nat.succ_pos _) (ofNat_succ _)

/-- **Adding a name that the table has**, in whatever case. -/
theorem Session.Inv.add_old (inv : s.Inv casemap)
    (found : s.table.findAtomEntry casemap name (hashStrW casemap name) = some e) :
    Session.Inv casemap ⟨s.table.modify e fun e => { e with count := e.count + 1 },
      s.added name (s.table.memory e).atom⟩ := by
  obtain ⟨chain, table⟩ := inv.table
  replace found := ((table.linked _).walk_eq (table.length_le _) _).symm.trans found
  obtain ⟨⟨i, slot⟩, -⟩ := (table.members _ e).mp (List.mem_of_find?_eq_some found)
  have atom := (table.entry i e slot).atom
  have mapped : s.table.getAtomEntry (s.table.memory e).atom = some e :=
    table.getAtomEntry_iff.mpr ⟨i, atom, slot⟩
  unfold Session.added
  rw [if_neg (by rw [atom]; omega)]
  cases is : s.live (s.table.memory e).atom with
  | none => exact absurd ((inv.unused _ is).symm.trans mapped) (nomatch ·)
  | some life =>
    obtain rfl := some.inj ((inv.used _ life is).entry.symm.trans mapped)
    exact inv.recount is (· + 1) _ (Nat.succ_pos _) (ofNat_succ _)

/-- **Adding a new name.** -/
theorem Session.Inv.add_new (inv : s.Inv casemap) (nonempty : name.length ≠ 0)
    (short : name.length ≤ maxAtomLen) (string : getIntAtomValue name = 0)
    (fresh : s.table.findAtomEntry casemap name (hashStrW casemap name) = none)
    (room : s.table.slot ≠ maxAtoms) :
    Session.Inv casemap ⟨s.table.insert s.table.slot (hashStrW casemap name) name,
      s.added name (s.table.slot + minStrAtom)⟩ := by
  obtain ⟨chain, table⟩ := inv.table
  obtain ⟨positive, le, free⟩ := table.slot_spec
  have limit := table.limit
  have inserted := insert_inserted s.table s.table.slot (hashStrW casemap name) name
  have table' := table.insert inserted positive le (by omega) free nonempty short string fresh
  have unused : s.live (s.table.slot + minStrAtom) = none := by
    cases is : s.live (s.table.slot + minStrAtom) with
    | none => rfl
    | some life =>
      obtain ⟨i, same, slot⟩ := table.getAtomEntry_iff.mp (inv.used _ life is).entry
      rw [← Nat.add_right_cancel same, free] at slot
      cases slot
  unfold Session.added
  rw [if_neg (by omega), unused]
  refine inv.change table' ⟨table'.getAtomEntry_iff.mpr ⟨_, rfl, by rw [inserted.atoms, update_self]⟩,
    Nat.one_pos, inserted.new.count, inserted.new.str⟩ (fun other different => ?_) fun other life' _ there => ?_
  · refine ext fun e => (table'.getAtomEntry_iff.trans ?_).trans table.getAtomEntry_iff.symm
    refine exists_congr fun j => and_congr_right fun place => ?_
    rw [inserted.atoms, update_of_ne fun eq => different (by rw [place, eq])]
  · obtain ⟨j, -, slot⟩ := table.getAtomEntry_iff.mp there.entry
    exact inserted.old life'.entry (ne_of_lt (table.entry j _ slot).allocated)

/-- The count reaches zero when the balance is one more than a multiple of 2^32. -/
theorem ofNat_pred_eq_zero (positive : 0 < balance) :
    BitVec.ofNat 32 balance - 1 = 0 ↔ balance % 2 ^ 32 = 1 := by
  rw [ofNat_pred positive, ← toNat_inj]
  show (balance - 1) % 2 ^ 32 = 0 ↔ _
  omega

/-- The last reference but for multiples of 2^32: the entry goes. -/
theorem Session.Inv.deleteAtom_last (inv : s.Inv casemap) (is : s.live atom = some life)
    (last : life.balance % 2 ^ 32 = 1) :
    ∃ counted chain, TableInv casemap counted chain ∧ counted.atoms = s.table.atoms ∧
      (∀ e, e ≠ life.entry → counted.memory e = s.table.memory e) ∧
      Removed counted (s.table.deleteAtom atom).1 (atom - minStrAtom) life.entry := by
  obtain ⟨chain, table⟩ := inv.table
  have here := inv.used atom life is
  refine ⟨_, chain, table.setCount life.entry (· - 1), rfl, fun e other => ?_, ?_⟩
  · rw [modify_memory, if_neg other]
  · have zero : ((s.table.modify life.entry fun e => { e with count := e.count - 1 }).memory
        life.entry).count = 0 := by
      rw [modify_memory, if_pos rfl]
      show (s.table.memory life.entry).count - 1 = 0
      rw [here.count, ofNat_pred_eq_zero here.positive]
      exact last
    unfold deleteAtom
    rw [here.entry]
    simp only [if_pos zero]
    exact unlinkEntry_removed _ _ life.entry

theorem Session.Inv.deleteAtom_more (inv : s.Inv casemap) (is : s.live atom = some life)
    (more : life.balance % 2 ^ 32 ≠ 1) : (s.table.deleteAtom atom).1 =
      s.table.modify life.entry fun e => { e with count := e.count - 1 } := by
  have here := inv.used atom life is
  have nonzero : ((s.table.modify life.entry fun e => { e with count := e.count - 1 }).memory
      life.entry).count ≠ 0 := by
    rw [modify_memory, if_pos rfl]
    show (s.table.memory life.entry).count - 1 ≠ 0
    rw [here.count, Ne, ofNat_pred_eq_zero here.positive]
    exact more
  unfold deleteAtom
  rw [here.entry]
  simp only [if_neg nonzero]

/-- **Without care the atom is lost**: it maps to nothing, and its balance is positive. -/
theorem Session.Inv.lost (inv : s.Inv casemap) (is : s.live atom = some life)
    (last : life.balance % 2 ^ 32 = 1) : (s.table.deleteAtom atom).1.getAtomEntry atom = none := by
  obtain ⟨counted, chain, table, -, -, removed⟩ := inv.deleteAtom_last is last
  unfold getAtomEntry
  rw [removed.atoms, update_self]
  split <;> rfl

/-- **One reference less**, with due care. -/
theorem Session.Inv.drop (inv : s.Inv casemap)
    (careful : ∀ life, s.live atom = some life → life.balance % 2 ^ 32 = 1 → life.balance = 1) :
    Session.Inv casemap ⟨(s.table.deleteAtom atom).1, s.dropped atom⟩ := by
  unfold Session.dropped
  cases is : s.live atom with
  | none =>
    unfold deleteAtom
    rw [inv.unused atom is]
    exact inv
  | some life =>
    have here := inv.used atom life is
    by_cases last : life.balance % 2 ^ 32 = 1
    · obtain ⟨counted, chain, table, atoms, others, removed⟩ := inv.deleteAtom_last is last
      obtain ⟨chain', old⟩ := inv.table
      obtain ⟨i, place, slot⟩ := old.getAtomEntry_iff.mp here.entry
      have index : i = atom - minStrAtom := by omega
      have table' := table.remove removed (by rw [atoms, ← index]; exact slot)
      simp only [careful life is last, if_true]
      refine inv.change table' (inv.lost is last) (fun other different => ?_)
        fun other life' different there => ?_
      · refine ext fun e => (table'.getAtomEntry_iff.trans ?_).trans old.getAtomEntry_iff.symm
        refine exists_congr fun j => and_congr_right fun place => ?_
        rw [removed.slots, atoms]
        exact and_iff_right (by omega)
      · have content := removed.content life'.entry
        rwa [others life'.entry fun eq => different (old.atom_unique there.entry (eq ▸ here.entry))] at content
    · have several : life.balance ≠ 1 := fun one => last (by simp [one])
      have positive := here.positive
      simp only [inv.deleteAtom_more is last, if_neg several]
      exact inv.recount is (· - 1) (life.balance - 1) (by omega) (ofNat_pred positive)

/-- A release is a delete: there are no entries for atoms below the string atoms. -/
theorem deleteAtom_eq_releaseAtom (table : AtomTable) (atom : Nat) :
    (table.deleteAtom atom).1 = (table.releaseAtom atom).1 := by
  unfold releaseAtom
  split
  · rfl
  · rename_i below
    have nothing : table.getAtomEntry atom = none := if_neg fun both => below both.1
    unfold deleteAtom
    rw [nothing]

theorem Session.Inv.allocate (inv : s.Inv casemap) :
    Session.Inv casemap ⟨{ s.table with nextEntry := s.table.nextEntry + 1 }, s.live⟩ := by
  obtain ⟨chain, table⟩ := inv.table
  refine ⟨⟨chain, { table with entry := fun i e slot => ?_ }⟩, inv.unused, fun atom life is => ?_⟩
  · exact (table.entry i e slot).transfer (Nat.le_succ _) ⟨rfl, rfl, rfl⟩
  · obtain ⟨entry, positive, count, name⟩ := inv.used atom life is
    exact ⟨entry, positive, count, name⟩

theorem Session.Inv.add (inv : s.Inv casemap) (name : Name) :
    (s.afterAdd name (s.table.addAtom casemap name)).Inv casemap := by
  unfold addAtom
  by_cases empty : name.length = 0
  · rw [if_pos empty]
    exact inv
  rw [if_neg empty]
  by_cases long : name.length > maxAtomLen
  · rw [if_pos long]
    exact inv
  rw [if_neg long]
  by_cases number : getIntAtomValue name ≠ 0
  · rw [if_pos number, Session.afterAdd, Session.added, if_pos (getIntAtomValue_lt name)]
    exact inv
  rw [if_neg number]
  cases found : s.table.findAtomEntry casemap name (hashStrW casemap name) with
  | some e =>
    simp only [found]
    exact inv.add_old found
  | none =>
    have entry : ({ s.table with nextEntry := s.table.nextEntry + 1 } : AtomTable).addAtomEntry
        s.table.nextEntry = if s.table.slot = maxAtoms then none else _ := rfl
    by_cases full : s.table.slot = maxAtoms
    · rw [if_pos full] at entry
      simp only [found, entry]
      exact inv.allocate
    · rw [if_neg full] at entry
      simp only [found, entry]
      exact inv.add_new empty (Nat.le_of_not_gt long) (not_not.mp number) found full

/-- **Every step that is careful keeps the invariant.** -/
theorem Session.Inv.step (inv : s.Inv casemap) (careful : Careful s action) :
    ∃ t, s.step casemap action = .ok t ∧ t.Inv casemap := by
  cases action with
  | add name => exact ⟨_, rfl, inv.add name⟩
  | find name => exact ⟨s, rfl, inv⟩
  | delete atom => exact ⟨_, rfl, inv.drop careful⟩
  | grab atom => exact ⟨_, rfl, inv.grab atom⟩
  | release atom => exact ⟨_, rfl, deleteAtom_eq_releaseAtom s.table atom ▸ inv.drop careful⟩

end Steps

/-! ### Whole runs -/

theorem dropped_self (is : s.live atom = some life) (several : life.balance ≠ 1) :
    s.dropped atom atom = some { life with balance := life.balance - 1 } := by
  unfold Session.dropped
  rw [is]
  simp only [update_self, if_neg several]

/-- A good session has been careful. -/
theorem Session.Inv.careful_of_good {t : Session} (inv : s.Inv casemap)
    (done : s.step casemap action = .ok t) (good : Good casemap t) : Careful s action := by
  have balanced : ∀ atom, t = ⟨(s.table.deleteAtom atom).1, s.dropped atom⟩ →
      ∀ life, s.live atom = some life → life.balance % 2 ^ 32 = 1 → life.balance = 1 := by
    rintro atom rfl life is last
    by_contra several
    have maps := good.values atom
    simp only [inv.lost is last, dropped_self is several] at maps
    cases maps
  cases action with
  | delete atom => exact balanced atom (Except.ok.inj done).symm
  | release atom =>
    refine balanced atom ((Except.ok.inj done).symm.trans ?_)
    rw [deleteAtom_eq_releaseAtom]
  | add name => trivial
  | find name => trivial
  | grab atom => trivial

/-- **The runs with good states only** are those in which no delete or release is for an atom whose
balance is one more than a multiple of 2^32, other than one. -/
theorem atoms_good_iff (casemap : CaseMap) (caseless : Caseless casemap) (actions : List AtomAction) :
    Keeps (Session.step casemap) (Good casemap) Session.initial actions ↔
      Meets (Session.step casemap) Careful Session.initial actions := by
  refine keeps_iff_meets (fun _ => Session.Inv casemap) (fun s action _ inv careful => ?_)
    (fun s action _ t inv done good => inv.careful_of_good done good) initial_inv
  obtain ⟨t, done, kept⟩ := inv.step careful
  exact ⟨t, done, kept.good caseless, kept⟩

/-- A name that is added, grabbed and found. -/
theorem atoms_good_iff_grab : Keeps (Session.step id) (Good id) Session.initial
    [.add [0x61], .grab 0xc001, .find [0x61]] :=
  (atoms_good_iff id (fun _ _ _ same => same) _).mpr
    ⟨trivial, fun _ _ => ⟨trivial, fun _ _ => ⟨trivial, fun _ _ => trivial⟩⟩⟩

/-- Adding the name of an atom in use gives one more reference to it. -/
theorem Session.Inv.add_again (inv : s.Inv casemap) (is : s.live atom = some life) :
    (s.afterAdd life.name (s.table.addAtom casemap life.name)).live atom =
      some { life with balance := life.balance + 1 } := by
  obtain ⟨chain, table⟩ := inv.table
  have here := inv.used atom life is
  obtain ⟨i, place, slot⟩ := table.getAtomEntry_iff.mp here.entry
  have entry := table.entry i life.entry slot
  have found := table.findAtomEntry_eq slot (congrArg (folded casemap) here.name)
  have name := here.name
  unfold addAtom
  rw [if_neg (by rw [← name]; exact entry.nonempty),
    if_neg (by rw [← name]; exact not_lt.mpr entry.short),
    if_neg (by rw [← name]; exact not_not.mpr entry.string)]
  simp only [found, entry.atom, ← place]
  show s.added life.name atom atom = _
  unfold Session.added
  rw [if_neg (by omega), is]
  exact update_self ..

/-- The first name of a table, added again and again. -/
theorem adds_balance (n : Nat) :
    ∃ s, runAll (Session.step id) Session.initial
        (List.replicate (n + 1) (.add [0x61])) = .ok s ∧
      s.Inv id ∧ s.live 0xc001 = some ⟨0, [0x61], n + 1⟩ := by
  induction n with
  | zero => exact ⟨_, rfl, initial_inv.add [0x61], by decide +kernel⟩
  | succ n ih =>
    obtain ⟨s, done, inv, is⟩ := ih
    refine ⟨s.afterAdd [0x61] (s.table.addAtom id [0x61]), ?_, inv.add [0x61], inv.add_again is⟩
    rw [List.replicate_succ', runAll_append, done]
    rfl

/-- **The atom that is lost**: a name is added 2^32 + 1 times and deleted once. Its balance is 2^32,
and its atom maps to nothing. -/
theorem atom_lost : ∃ s, runAll (Session.step id) Session.initial
      (List.replicate (2 ^ 32 + 1) (.add [0x61]) ++ [.delete 0xc001]) = .ok s ∧
    s.live 0xc001 = some ⟨0, [0x61], 2 ^ 32⟩ ∧ s.table.getAtomEntry 0xc001 = none := by
  obtain ⟨s, done, inv, is⟩ := adds_balance (2 ^ 32)
  refine ⟨⟨(s.table.deleteAtom 0xc001).1, s.dropped 0xc001⟩, ?_, ?_, ?_⟩
  · rw [runAll_append, done]
    rfl
  · exact dropped_self is (by decide)
  · exact inv.lost is (by decide)

end FreeWindows.Atom
