/-
**The values of a key as a finite map.**

The values array of a key, over any sequence of `set_value`, `delete_value` and `load_value`: it is
strictly sorted by name and fits in its slots (`Tidy`), and it holds what the calls say.

* `storeValue_puts`, `deleteValue_puts`: what one call does to the value of every name;
* `findValue32_iff`: the difference of the lengths in 32-bit arithmetic orders the names in the same
  way;
* `values_refine_map`: after any calls, `get_value` returns what was set last for a name in any case,
  and `enum_value` visits every entry.
-/

import FreeWindows.Registry.Order

namespace FreeWindows.Registry

open Lib List Option Heap

/-! ### Reading values -/

/-- `get_value`: the type, the length, and as much of the data as the reply can take. -/
def Heap.getValue (heap : Heap) (k : Nat) (name : Name) (maxSize : Nat) :
    Except Status (UInt32 × Nat × List UInt8) :=
  if (heap.key k).flags.predef then .error .invalidHandle
  else
    match heap.value k name with
    | some value => .ok (value.type, value.data.length, value.data.take maxSize)
    | none => .error .objectNameNotFound

/-- `KEY_VALUE_INFORMATION_CLASS`. -/
inductive InfoClass
  | keyValueBasic
  | keyValueFull
  | keyValuePartial
  | unknown
deriving DecidableEq, Repr

/-- The reply of `enum_key_value`. -/
structure EnumReply where
  type : UInt32
  total : Nat
  namelen : Nat
  data : List UInt8
deriving DecidableEq, Repr

/-- The bytes of a string. -/
def bytesOfUnits (name : Name) : List UInt8 :=
  name.flatMap fun unit => [UInt8.ofNat unit.toNat, UInt8.ofNat (unit.toNat / 256)]

/-- The total length and the length of the name in a reply. -/
def InfoClass.lengths (value : KeyValue) : InfoClass → Option (Nat × Nat)
  | .keyValueBasic => some (2 * value.name.length, 2 * value.name.length)
  | .keyValueFull => some (2 * value.name.length + value.data.length, 2 * value.name.length)
  | .keyValuePartial => some (value.data.length, 0)
  | .unknown => none

def Heap.enumValue (heap : Heap) (k : Nat) (i : Int) (infoClass : InfoClass) (maxSize : Nat) :
    Except Status EnumReply :=
  if (heap.key k).flags.predef then .error .invalidHandle
  else if i < 0 ∨ ((heap.key k).values.length : Int) - 1 < i then .error .noMoreEntries
  else
    match (heap.key k).values[i.toNat]? with
    | none => .error .noMoreEntries
    | some value =>
      match infoClass.lengths value with
      | none => .error .invalidParameter
      | some (total, namelen) =>
        let maxlen := min total maxSize
        if maxlen > namelen then
          .ok ⟨value.type, total, namelen,
            (bytesOfUnits value.name).take namelen ++ value.data.take (maxlen - namelen)⟩
        else .ok ⟨value.type, total, maxlen, (bytesOfUnits value.name).take maxlen⟩

/-! ### The sorted array -/

/-- The array of values is in order. -/
structure Tidy (heap : Heap) (k : Nat) : Prop where
  ascending : Ascending heap.casemap KeyValue.name (heap.key k).values
  fits : (heap.key k).values.length ≤ (heap.key k).nbValues
  slots : (heap.key k).nbValues = 0 ∨ minValues ≤ (heap.key k).nbValues
  short : ∀ value ∈ (heap.key k).values, value.name.length ≤ maxValueLen

/-- Type and data of the value of a name. -/
def Heap.payload (heap : Heap) (k : Nat) (name : Name) : Option (UInt32 × List UInt8) :=
  (heap.value k name).map fun value => (value.type, value.data)

variable {casemap : CaseMap}

section Array

variable {heap heap' : Heap} {k : Nat} {name : Name}

/-- `find_value` finds the value of a name, if there is one. -/
theorem value_iff (ascending : Ascending heap.casemap KeyValue.name (heap.key k).values)
    {value : KeyValue} : heap.value k name = some value ↔ value ∈ (heap.key k).values ∧
      folded heap.casemap value.name = folded heap.casemap name :=
  findName_iff ascending

variable {back front mid mid' : List KeyValue} {index : Nat} {entry : Name}

/-- **A part of the array is replaced** in which all names are the same up to case. -/
theorem value_of_replace (casemap : heap'.casemap = heap.casemap)
    (before : (heap.key k).values = front ++ mid ++ back)
    (after : (heap'.key k).values = front ++ mid' ++ back)
    (ascending : Ascending heap.casemap KeyValue.name (heap.key k).values)
    (ascending' : Ascending heap.casemap KeyValue.name (heap'.key k).values)
    (old : ∀ value ∈ mid, folded heap.casemap value.name = folded heap.casemap name)
    (new : ∀ value ∈ mid', folded heap.casemap value.name = folded heap.casemap name)
    (others : ∀ value ∈ front ++ back, folded heap.casemap value.name ≠ folded heap.casemap name)
    (other : Name) :
    heap'.value k other = if folded heap.casemap other = folded heap.casemap name then mid'.head?
      else heap.value k other := by
  have found' : ∀ value, heap'.value k other = some value ↔ value ∈ front ++ mid' ++ back ∧
        folded heap.casemap value.name = folded heap.casemap other := fun value => by
    rw [value_iff (casemap ▸ ascending'), after, casemap]
  split
  next same =>
    rw [same] at found'
    cases mid' with
    | nil =>
      refine eq_none_iff_forall_ne_some.mpr fun value found => ?_
      obtain ⟨member, equal⟩ := (found' value).mp found
      rw [append_nil] at member
      exact others value member equal
    | cons value rest =>
      exact (found' value).mpr ⟨by simp, new value mem_cons_self⟩
  next differs =>
    refine ext fun value => ?_
    rw [found', value_iff ascending, before]
    refine and_congr_left fun equal => ?_
    have notOld : value ∉ mid := fun member => differs (equal.symm.trans (old value member))
    have notNew : value ∉ mid' := fun member => differs (equal.symm.trans (new value member))
    simp only [mem_append, notOld, notNew, or_false]

theorem split_at {values : List KeyValue} {value : KeyValue} (place : values[index]? = some value) :
    values = values.take index ++ [value] ++ values.drop (index + 1) := by
  obtain ⟨lt, rfl⟩ := List.getElem?_eq_some_iff.mp place
  rw [append_assoc, singleton_append, getElem_cons_drop lt, take_append_drop]

/-- Around an entry there are only other names. -/
theorem others_of_ascending {value : KeyValue}
    (ascending : Ascending casemap KeyValue.name (front ++ [value] ++ back)) :
    ∀ other ∈ front ++ back, folded casemap other.name ≠ folded casemap value.name := by
  intro other member same
  have nodup : (front ++ [value] ++ back).Nodup := ascending.nodup
  have inside : other ∈ front ++ [value] ++ back := by
    rw [append_assoc, singleton_append, mem_append, mem_cons]
    exact (mem_append.mp member).imp_right .inr
  have equal := ascending.unique inside (by simp) same
  rw [append_assoc, singleton_append, nodup_middle, nodup_cons] at nodup
  exact nodup.1 (equal ▸ member)

theorem Heap.setValues_self (heap : Heap) (k : Nat) (values : List KeyValue) (nbValues : Nat) :
    ((heap.setValues k values nbValues).key k).values = values ∧
      ((heap.setValues k values nbValues).key k).nbValues = nbValues := by
  rw [setValues, modify, set_key, if_pos rfl]
  exact ⟨rfl, rfl⟩

/-- What a call does: the array is still in order, and the value of one name is another one. -/
structure Puts (heap heap' : Heap) (k : Nat) (name : Name)
    (entry : Option (UInt32 × List UInt8)) : Prop where
  casemap : heap'.casemap = heap.casemap
  tidy : Tidy heap' k
  payload : ∀ other, heap'.payload k other =
    if folded heap.casemap other = folded heap.casemap name then entry else heap.payload k other

/-- Another part of the array that is still in order. -/
theorem Tidy.puts (tidy : Tidy heap k) {nbValues : Nat}
    (before : (heap.key k).values = front ++ mid ++ back)
    (ascending : Ascending heap.casemap KeyValue.name (front ++ mid' ++ back))
    (fits : (front ++ mid' ++ back).length ≤ nbValues) (slots : nbValues = 0 ∨ minValues ≤ nbValues)
    (short : ∀ value ∈ mid', value.name.length ≤ maxValueLen)
    (old : ∀ value ∈ mid, folded heap.casemap value.name = folded heap.casemap name)
    (new : ∀ value ∈ mid', folded heap.casemap value.name = folded heap.casemap name)
    (others : ∀ value ∈ front ++ back, folded heap.casemap value.name ≠ folded heap.casemap name) :
    Puts heap (heap.setValues k (front ++ mid' ++ back) nbValues) k name
      (mid'.head?.map fun value => (value.type, value.data)) := by
  obtain ⟨values, slotsOf⟩ := heap.setValues_self k (front ++ mid' ++ back) nbValues
  refine ⟨rfl, ⟨?_, ?_, ?_, fun value member => ?_⟩, fun other => ?_⟩
  · rw [values]
    exact ascending
  · rw [values, slotsOf]
    exact fits
  · rw [slotsOf]
    exact slots
  · rw [values, mem_append, mem_append] at member
    rcases member with (inFront | inMid) | inBack
    · exact tidy.short value (by rw [before]; simp [inFront])
    · exact short value inMid
    · exact tidy.short value (by rw [before]; simp [inBack])
  · have casemap : (heap.setValues k (front ++ mid' ++ back) nbValues).casemap = heap.casemap := rfl
    rw [payload, payload, value_of_replace casemap before values tidy.ascending
      (by rw [values]; exact ascending) old new others]
    split <;> rfl

/-- **Storing a value** whose name is short enough. -/
theorem storeValue_puts (tidy : Tidy heap k) (type : UInt32) (data : List UInt8)
    (short : name.length ≤ maxValueLen) :
    (heap.storeValue k name type data).2 = none ∧
      Puts heap (heap.storeValue k name type data).1 k name (some (type, data)) := by
  unfold storeValue
  dsimp only
  split
  next index found =>
    obtain ⟨old, place, equal⟩ := findName_found found
    have cut := split_at place
    have ascending := cut ▸ tidy.ascending
    have shortOld := tidy.short old (mem_of_getElem? place)
    obtain ⟨lt, at'⟩ := List.getElem?_eq_some_iff.mp place
    have changed : (heap.key k).values.modify index (fun value => { value with type, data }) =
        (heap.key k).values.take index ++ [{ old with type, data }] ++
          (heap.key k).values.drop (index + 1) := by
      rw [modify_eq_take_cons_drop lt, append_assoc, singleton_append, at']
    refine ⟨rfl, ?_⟩
    rw [changed]
    refine tidy.puts cut (ascending.of_names (by simp)) ?_ tidy.slots (by simpa using shortOld)
      (by simpa using equal) (by simpa using equal) ?_
    · rw [← changed, length_modify]
      exact tidy.fits
    · rw [← equal]
      exact others_of_ascending ascending
  next index gap =>
    obtain ⟨bound, smaller, larger⟩ := findName_gap tidy.ascending gap
    have slots := lt_grown (by decide) tidy.fits tidy.slots
    have cut : (heap.key k).values = (heap.key k).values.take index ++ [] ++
        (heap.key k).values.drop index := by rw [append_nil, take_append_drop]
    rw [if_neg (not_lt.mpr short)]
    refine ⟨rfl, ?_⟩
    rw [shiftUp_insert _ bound, ← singleton_append, ← append_assoc]
    refine tidy.puts cut ?_ ?_ (.inr slots.2) (by simpa using short) (by simp) (by simp) ?_
    · rw [append_assoc, singleton_append]
      refine Ascending.insert ?_ smaller larger
      rw [take_append_drop]
      exact tidy.ascending
    · have length : ((heap.key k).values.take index ++ [(⟨name, type, data⟩ : KeyValue)] ++
          (heap.key k).values.drop index).length = (heap.key k).values.length + 1 := by
        simp
        omega
      rw [length]
      exact slots.1
    · intro value member
      rcases mem_append.mp member with inFront | inBack
      · exact (smaller value inFront).ne
      · exact (larger value inBack).ne'

/-- A name that is too long has no value, and none is stored. -/
theorem storeValue_long (tidy : Tidy heap k) (type : UInt32) (data : List UInt8)
    (long : maxValueLen < name.length) :
    heap.storeValue k name type data = (heap, some .nameTooLong) := by
  unfold storeValue
  split
  next index found =>
    obtain ⟨old, place, equal⟩ := findName_found found
    have same := congrArg length equal
    have := tidy.short old (mem_of_getElem? place)
    simp only [folded, length_map] at same
    omega
  next index gap => rw [if_pos long]

/-- **Deleting a value** that is there. -/
theorem removeValue_puts (tidy : Tidy heap k) (found : heap.findValue k name = .found index) :
    Puts heap (heap.setValues k
      ((shiftDown (heap.key k).values index ((heap.key k).values.length - 1)).dropLast)
      (shrunk ((heap.key k).values.length - 1) (heap.key k).nbValues minValues)) k name none := by
  obtain ⟨old, place, equal⟩ := findName_found found
  have cut := split_at place
  have ascending := cut ▸ tidy.ascending
  have lt := (List.getElem?_eq_some_iff.mp place).1
  have used := length_pos_of_mem (mem_of_getElem? place)
  have slots := le_shrunk (show (heap.key k).values.length - 1 + 1 ≤ _ by
    rw [Nat.sub_add_cancel used]; exact tidy.fits) tidy.slots
  have removed : (shiftDown (heap.key k).values index ((heap.key k).values.length - 1)).dropLast =
      (heap.key k).values.take index ++ [] ++ (heap.key k).values.drop (index + 1) := by
    have shifted := shiftDown_remove ((heap.key k).values.take index)
      ((heap.key k).values.drop (index + 1)) old
    rw [← singleton_append, ← append_assoc, ← cut, length_take_of_le (le_of_lt lt)] at shifted
    rw [shifted, append_nil]
  rw [removed]
  refine tidy.puts cut ?_ ?_ (.inr slots.2) (by simp) (by simpa using equal) (by simp) ?_
  · rw [append_nil]
    refine ascending.sublist ?_
    rw [append_assoc]
    exact List.Sublist.append_left (sublist_append_right _ _) _
  · rw [← removed, length_dropLast, length_shiftDown]
    exact slots.1
  · rw [← equal]
    exact others_of_ascending ascending

/-! ### Calls -/

theorem OnlyDirty.value (only : OnlyDirty heap heap') (k : Nat) (name : Name) :
    heap'.value k name = heap.value k name := by
  have values : (heap'.key k).values = (heap.key k).values := congrArg (·.values) (only.settled k)
  unfold Heap.value Heap.findValue
  rw [only.casemap, values]

theorem Puts.onlyDirty {mid : Heap} {entry : Option (UInt32 × List UInt8)}
    (puts : Puts heap mid k name entry) (only : OnlyDirty mid heap') :
    Puts heap heap' k name entry := by
  have values : (heap'.key k).values = (mid.key k).values := congrArg (·.values) (only.settled k)
  have nbValues : (heap'.key k).nbValues = (mid.key k).nbValues :=
    congrArg (·.nbValues) (only.settled k)
  refine ⟨only.casemap.trans puts.casemap, ⟨?_, ?_, ?_, ?_⟩, fun other => ?_⟩
  · rw [only.casemap, values]
    exact puts.tidy.ascending
  · rw [values, nbValues]
    exact puts.tidy.fits
  · rw [nbValues]
    exact puts.tidy.slots
  · rw [values]
    exact puts.tidy.short
  · rw [← puts.payload, Heap.payload, Heap.payload, only.value]

/-- Nothing is changed where the name has that value already. -/
theorem Puts.refl (tidy : Tidy heap k) : Puts heap heap k name (heap.payload k name) := by
  refine ⟨rfl, tidy, fun other => ?_⟩
  split
  next same =>
    have equal : heap.value k other = heap.value k name := ext fun value => by
      rw [value_iff tidy.ascending, value_iff tidy.ascending, same]
    rw [Heap.payload, equal, Heap.payload]
  next => rfl

/-- A key that is no link and no predefined key. -/
structure Plain (heap : Heap) (k : Nat) : Prop where
  predef : (heap.key k).flags.predef = false
  symlink : (heap.key k).flags.symlink = false

section Plain

variable (tidy : Tidy heap k) (plain : Plain heap k)
include tidy plain

theorem setValue_puts (type : UInt32) (data : List UInt8) (short : name.length ≤ maxValueLen) :
    Puts heap (heap.setValue k name type data).1 k name (some (type, data)) := by
  obtain ⟨done, puts⟩ := storeValue_puts tidy type data short
  unfold setValue
  rw [if_neg (by rw [plain.predef]; decide)]
  split
  next same =>
    obtain ⟨old, found, equal⟩ := any_eq_true _ _ |>.mp same
    have there : heap.payload k name = some (type, data) := by
      have ⟨type', _, data'⟩ := of_decide_eq_true equal
      rw [payload, found, map_some, type', data']
    rw [← there]
    exact Puts.refl tidy
  next =>
    rw [if_neg (by rw [plain.symlink]; simp)]
    split
    next heap' status stored =>
      rw [stored] at done
      cases done
    next heap' stored =>
      rw [stored] at puts
      exact puts.onlyDirty (makeDirty_onlyDirty heap' k)

theorem setValue_long (type : UInt32) (data : List UInt8) (long : maxValueLen < name.length) :
    (heap.setValue k name type data).1 = heap := by
  unfold setValue
  rw [if_neg (by rw [plain.predef]; decide), storeValue_long tidy type data long]
  split
  · rfl
  · rw [if_neg (by rw [plain.symlink]; simp)]

theorem deleteValue_puts : Puts heap (heap.deleteValue k name).1 k name none := by
  unfold deleteValue
  rw [if_neg (by rw [plain.predef]; decide)]
  split
  next index gap =>
    have missing : heap.payload k name = none := by rw [payload, value, gap]; rfl
    rw [← missing]
    exact Puts.refl tidy
  next index found =>
    exact (removeValue_puts tidy found).onlyDirty (makeDirty_onlyDirty _ k)

end Plain

/-! ### The comparison in machine arithmetic -/

/-- The comparison as it is computed: `namelen` is an unsigned short and `name->len` an unsigned int,
so the difference is taken modulo `2^32` and read as an int. -/
def compareName32 (casemap : CaseMap) (entry name : Name) : Int :=
  let res := memicmpStrW casemap entry name
  if res ≠ 0 then res
  else Int.bmod ((2 * entry.length % 2 ^ 16 : Nat) - (2 * name.length : Nat)) (2 ^ 32)

/-- `find_value`, with that comparison. -/
def Heap.findValue32 (heap : Heap) (k : Nat) (name : Name) : Place :=
  searchList (fun value => compareName32 heap.casemap value.name name) (heap.key k).values

/-- **Machine arithmetic finds the same value**, for a name of any length that fits in a request, and
the same place for a new one. -/
theorem findValue32_iff (tidy : Tidy heap k) (bound : 2 * name.length < 2 ^ 32) :
    (∀ index, heap.findValue32 k name = .found index ↔ heap.findValue k name = .found index) ∧
      (name.length ≤ maxValueLen → heap.findValue32 k name = heap.findValue k name) := by
  have same : name.length ≤ maxValueLen → heap.findValue32 k name = heap.findValue k name :=
    fun short => searchList_congr fun value member => by
      have entryShort := tidy.short value member
      unfold maxValueLen at short entryShort
      unfold compareName32 compareName
      dsimp only
      split
      · rfl
      · rw [Nat.mod_eq_of_lt (by omega), Int.bmod_eq_of_le (by omega) (by omega)]
        push_cast
        rfl
  refine ⟨fun index => ?_, same⟩
  by_cases short : name.length ≤ maxValueLen
  · rw [same short]
  · refine iff_of_false (fun found => ?_) fun found => ?_
    · obtain ⟨value, place, equal⟩ := searchList_found found
      have entryShort := tidy.short value (mem_of_getElem? place)
      unfold maxValueLen at short entryShort
      unfold compareName32 at equal
      dsimp only at equal
      split at equal
      next differs => exact differs equal
      next =>
        rw [Nat.mod_eq_of_lt (by omega), Int.bmod_def] at equal
        split at equal <;> omega
    · obtain ⟨value, place, equal⟩ := findName_found found
      have length := congrArg length equal
      simp only [folded, length_map] at length
      exact short (length ▸ tidy.short value (mem_of_getElem? place))

end Array

/-! ### Whole histories -/

/-- A call that changes the values of a key. -/
inductive ValueCall
  | setValue (name : Name) (type : UInt32) (data : List UInt8)
  | deleteValue (name : Name)
  | loadValue (name : Name) (type : UInt32) (data : List UInt8)

def ValueCall.run (k : Nat) (heap : Heap) : ValueCall → Heap
  | .setValue name type data => (heap.setValue k name type data).1
  | .deleteValue name => (heap.deleteValue k name).1
  | .loadValue name type data => (heap.storeValue k name type data).1

/-- What the calls, the latest one first, say about a name: what it was set to last, unless it was
deleted since. Names that are too long are never set. -/
def latest (casemap : CaseMap) (name : Name) : List ValueCall → Option (UInt32 × List UInt8)
  | [] => none
  | .setValue other type data :: earlier | .loadValue other type data :: earlier =>
    if folded casemap name = folded casemap other ∧ other.length ≤ maxValueLen then some (type, data)
    else latest casemap name earlier
  | .deleteValue other :: earlier =>
    if folded casemap name = folded casemap other then none else latest casemap name earlier

section History

variable {heap : Heap} {k : Nat}

theorem ValueCall.run_plain (plain : Plain heap k) (call : ValueCall) : Plain (call.run k heap) k := by
  have stored : ∀ values nbValues, Plain (heap.setValues k values nbValues) k := by
    intro values nbValues
    rw [Heap.setValues, Heap.modify]
    exact ⟨by rw [set_key, if_pos rfl]; exact plain.predef,
      by rw [set_key, if_pos rfl]; exact plain.symlink⟩
  have dirty : ∀ heap' : Heap, Plain heap' k → Plain (heap'.makeDirty k) k := fun heap' plain' =>
    have only := heap'.makeDirty_onlyDirty k
    ⟨(congrArg (·.flags.predef) (only.settled k)).trans plain'.predef,
      (congrArg (·.flags.symlink) (only.settled k)).trans plain'.symlink⟩
  have onValues : ∀ heap', OnValues heap k heap' → Plain heap' k := by
    rintro heap' (rfl | ⟨values, nbValues, rfl⟩)
    · exact plain
    · exact dirty _ (stored values nbValues)
  cases call with
  | setValue name type data => exact onValues _ (heap.setValue_onValues k name type data)
  | deleteValue name => exact onValues _ (heap.deleteValue_onValues k name)
  | loadValue name type data =>
    show Plain (heap.storeValue k name type data).1 k
    rcases heap.storeValue_cases k name type data with long | ⟨values, nbValues, done⟩
    · rw [long]
      exact plain
    · rw [done]
      exact stored values nbValues

variable {earlier : List ValueCall}

/-- **One call** keeps the array in order and does what the history says. -/
theorem ValueCall.run_latest (tidy : Tidy heap k) (plain : Plain heap k) (call : ValueCall)
    (history : ∀ name, heap.payload k name = latest heap.casemap name earlier) :
    (call.run k heap).casemap = heap.casemap ∧ Tidy (call.run k heap) k ∧
      ∀ name, (call.run k heap).payload k name = latest heap.casemap name (call :: earlier) := by
  have stored : ∀ (heap' : Heap) (other : Name) (type : UInt32) (data : List UInt8),
      (other.length ≤ maxValueLen → Puts heap heap' k other (some (type, data))) →
      (maxValueLen < other.length → heap' = heap) →
      heap'.casemap = heap.casemap ∧ Tidy heap' k ∧ ∀ name, heap'.payload k name =
        if folded heap.casemap name = folded heap.casemap other ∧ other.length ≤ maxValueLen
        then some (type, data) else latest heap.casemap name earlier := by
    intro heap' other type data puts same
    by_cases short : other.length ≤ maxValueLen
    · refine ⟨(puts short).casemap, (puts short).tidy, fun name => ?_⟩
      simp only [short, and_true, ← history]
      exact (puts short).payload name
    · rw [same (not_le.mp short)]
      refine ⟨rfl, tidy, fun name => ?_⟩
      rw [if_neg fun both => short both.2, history]
  cases call with
  | setValue other type data =>
    exact stored _ other type data (setValue_puts tidy plain type data)
      (setValue_long tidy plain type data)
  | deleteValue other =>
    have puts : Puts heap (heap.deleteValue k other).1 k other none := deleteValue_puts tidy plain
    refine ⟨puts.casemap, puts.tidy, fun name => ?_⟩
    rw [latest, ← history]
    exact puts.payload name
  | loadValue other type data =>
    exact stored _ other type data (fun short => (storeValue_puts tidy type data short).2)
      fun long => congrArg Prod.fst (storeValue_long tidy type data long)

/-- What holds after a sequence of calls. -/
structure Refines (casemap : CaseMap) (heap : Heap) (k : Nat) (calls : List ValueCall) : Prop where
  casemap : heap.casemap = casemap
  tidy : Tidy heap k
  plain : Plain heap k
  history : ∀ name, heap.payload k name = latest heap.casemap name calls

theorem refines_foldl (refines : Refines casemap heap k earlier) (calls : List ValueCall) :
    Refines casemap (calls.foldl (ValueCall.run k) heap) k (calls.reverse ++ earlier) := by
  induction calls generalizing heap earlier with
  | nil => exact refines
  | cons call rest ih =>
    obtain ⟨sameCasemap, tidy, history⟩ := call.run_latest refines.tidy refines.plain refines.history
    rw [reverse_cons, append_assoc, singleton_append]
    refine ih ⟨sameCasemap.trans refines.casemap, tidy, call.run_plain refines.plain, fun name => ?_⟩
    rw [sameCasemap]
    exact history name

/-- `enum_value` returns the whole of an entry, if the reply can take it. -/
theorem enumValue_eq (plain : Plain heap k) {i : Nat} {value : KeyValue}
    (place : (heap.key k).values[i]? = some value) {maxSize : Nat}
    (room : 2 * value.name.length + value.data.length ≤ maxSize) :
    heap.enumValue k i .keyValueFull maxSize =
      .ok ⟨value.type, 2 * value.name.length + value.data.length, 2 * value.name.length,
        bytesOfUnits value.name ++ value.data⟩ := by
  have lt := (List.getElem?_eq_some_iff.mp place).1
  have length : (bytesOfUnits value.name).length = 2 * value.name.length := by
    simp [bytesOfUnits, length_flatMap, Nat.mul_comm]
  unfold enumValue
  rw [if_neg (by rw [plain.predef]; decide), if_neg (by omega), Int.toNat_natCast, place]
  dsimp only [InfoClass.lengths]
  rw [Nat.min_eq_left room]
  split
  next more => rw [take_of_length_le (le_of_eq length), Nat.add_sub_cancel_left,
      take_of_length_le le_rfl]
  next noData =>
    have empty : value.data = [] := length_eq_zero_iff.mp (by omega)
    rw [empty, length_nil, Nat.add_zero, append_nil, take_of_length_le (le_of_eq length)]

/-- **The values array refines a finite map** from names up to case. After any calls on a new key:
the array is strictly increasing in the order of `find_value`, its entries fit in the allocated
slots, `get_value` returns what was set last and finds nothing exactly for the names that were never
set or were deleted since, `enum_value` visits each entry and nothing else, and the search with
machine arithmetic is the same one. -/
theorem values_refine_map (fresh : (heap.key k).values = [] ∧ (heap.key k).nbValues = 0)
    (plain : Plain heap k) (calls : List ValueCall) :
    let after := calls.foldl (ValueCall.run k) heap
    (after.key k).values.Pairwise (fun a b => compareName heap.casemap a.name b.name < 0) ∧
      (after.key k).values.Pairwise (fun a b =>
        folded heap.casemap a.name ≠ folded heap.casemap b.name) ∧
      (after.key k).values.length ≤ (after.key k).nbValues ∧
      (∀ name maxSize, after.getValue k name maxSize =
        match latest heap.casemap name calls.reverse with
        | some (type, data) => .ok (type, data.length, data.take maxSize)
        | none => .error .objectNameNotFound) ∧
      ((∀ (i : Nat) value maxSize, (after.key k).values[i]? = some value →
          2 * value.name.length + value.data.length ≤ maxSize →
          after.enumValue k i .keyValueFull maxSize =
            .ok ⟨value.type, 2 * value.name.length + value.data.length, 2 * value.name.length,
              bytesOfUnits value.name ++ value.data⟩) ∧
        ∀ (i : Int) infoClass maxSize, i < 0 ∨ ((after.key k).values.length : Int) ≤ i →
          after.enumValue k i infoClass maxSize = .error .noMoreEntries) ∧
      ∀ name, 2 * name.length < 2 ^ 32 → (∀ index,
          after.findValue32 k name = .found index ↔ after.findValue k name = .found index) ∧
        (name.length ≤ maxValueLen → after.findValue32 k name = after.findValue k name) := by
  have start : Refines heap.casemap heap k [] := by
    have tidy : Tidy heap k := by
      refine ⟨?_, ?_, .inl fresh.2, ?_⟩ <;> rw [fresh.1]
      · exact List.Pairwise.nil
      · exact Nat.zero_le _
      · exact nofun
    refine ⟨rfl, tidy, plain, fun name => ?_⟩
    have missing : heap.value k name = none :=
      eq_none_iff_forall_ne_some.mpr fun value found => by
        have member := ((value_iff tidy.ascending).mp found).1
        rw [fresh.1] at member
        cases member
    rw [payload, missing, latest]
    rfl
  have refines := refines_foldl start calls
  rw [append_nil] at refines
  intro after
  have ascending := refines.tidy.ascending
  rw [refines.casemap] at ascending
  refine ⟨ascending.imp fun before => (compareName_neg _ _ _).mpr before, ascending.imp ne_of_lt,
    refines.tidy.fits, fun name maxSize => ?_, ⟨fun i value maxSize place room =>
      enumValue_eq refines.plain place room, fun i infoClass maxSize outside => ?_⟩,
    fun name bound => findValue32_iff refines.tidy bound⟩
  · rw [← refines.casemap, ← refines.history, getValue, refines.plain.predef, payload]
    cases value _ k name <;> rfl
  · unfold enumValue
    rw [if_neg (by rw [refines.plain.predef]; decide), if_pos (by omega)]

end History

/-- Letters of the ASCII set in lower case. -/
def asciiLower (unit : WChar) : WChar := if 65 ≤ unit ∧ unit ≤ 90 then unit + 32 else unit

/-- A value is set, another one is loaded and deleted, and the first one is set in another case. -/
def someCalls : List ValueCall :=
  [.setValue (wide "b") 1 [1, 2], .loadValue (wide "a") 4 [0, 0, 0, 0], .deleteValue (wide "A"),
    .setValue (wide "B") 3 [7]]

theorem values_refine_map_someCalls :
    let after := someCalls.foldl (ValueCall.run 0) (Server.initial asciiLower 100).heap
    after.getValue 0 (wide "b") 16 = .ok (3, 1, [7]) ∧
      after.getValue 0 (wide "a") 16 = .error .objectNameNotFound := by
  have map := (@values_refine_map (Server.initial asciiLower 100).heap 0 ⟨rfl, rfl⟩ ⟨rfl, rfl⟩
    someCalls).2.2.2.1
  exact ⟨map (wide "b") 16, map (wide "a") 16⟩

end FreeWindows.Registry
