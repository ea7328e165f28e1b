/-
**An ACL is a list of entries.**

`Represents acl aces`: the block is a header, the entries one behind the other, and free bytes. All loops go
along the entries (`validLoop_eq`, `freeLoop_eq`, `getLoop_eq`, `restLoop_eq`).

* `addAccessAce_spec`: an addition appends an entry, or leaves all bytes as they are;
* `rtlDeleteAce_spec`: one entry goes away;
* `acl_is_list`: **every sequence of additions and removals.**
-/

import FreeWindows.Rtl.Acl.Model

namespace FreeWindows.Rtl.Acl

open Lib List Option AccessAce

/-- The bytes of an ACL in front of the entries. -/
def header (revision size count : Nat) : List UInt8 :=
  le 1 revision ++ [0] ++ le 2 size ++ le 2 count ++ [0, 0]

/-- An entry has its length in its own header. -/
structure Entry (ace : List UInt8) : Prop where
  long : 16 ≤ ace.length
  size : numberAt ace 2 2 = some ace.length

structure Layout (acl : List UInt8) (aces : List (List UInt8)) (revision : Nat) (free : List UInt8) : Prop where
  bytes : acl = header revision acl.length aces.length ++ aces.flatten ++ free
  revision : minAclRevision ≤ revision ∧ revision ≤ maxAclRevision
  small : acl.length ≤ 0xffff
  entries : ∀ ace ∈ aces, Entry ace

/-- The block holds these entries. -/
def Represents (acl : List UInt8) (aces : List (List UInt8)) : Prop :=
  ∃ revision free, Layout acl aces revision free

theorem length_header (revision size count : Nat) : (header revision size count).length = sizeofAcl := by
  simp [header, length_le, sizeofAcl]

/-! ### Fields -/

variable {aces : List (List UInt8)} {ace acl : List UInt8} {index : Nat}

section Fields

variable {revision : Nat} {free : List UInt8}

theorem length_flatten (entries : ∀ ace ∈ aces, Entry ace) :
    16 * aces.length ≤ aces.flatten.length := by
  induction aces with
  | nil => exact Nat.le_refl _
  | cons ace rest ih =>
    have long := (entries ace mem_cons_self).long
    have others := ih fun other member => entries other (mem_cons_of_mem _ member)
    rw [flatten_cons, length_append, length_cons]
    omega

theorem Layout.length (layout : Layout acl aces revision free) :
    acl.length = sizeofAcl + aces.flatten.length + free.length := by
  have bytes := congrArg List.length layout.bytes
  rw [length_append, length_append] at bytes
  exact bytes

theorem Layout.count_lt (layout : Layout acl aces revision free) : aces.length < 65535 := by
  have few := length_flatten layout.entries
  have small := layout.small
  have length := layout.length
  omega

variable {count size : Nat}

theorem aclRevision_header (small : revision < 256) (rest : List UInt8) :
    aclRevision (header revision size count ++ rest) = some revision := by
  have field := @numberAt_mid [] ([0] ++ le 2 size ++ le 2 count ++ [0, 0] ++ rest) 1 revision small
  simpa [header, aclRevision] using field

theorem aclSize_header (small : size < 65536) (rest : List UInt8) :
    aclSize (header revision size count ++ rest) = some size := by
  have field := @numberAt_mid (le 1 revision ++ [0]) (le 2 count ++ [0, 0] ++ rest) 2 size small
  simpa [header, aclSize, length_le] using field

theorem aceCount_header (small : count < 65536) (rest : List UInt8) :
    aceCount (header revision size count ++ rest) = some count := by
  have field := @numberAt_mid (le 1 revision ++ [0] ++ le 2 size) ([0, 0] ++ rest) 2 count small
  simpa [header, aceCount, length_le] using field

theorem Layout.fields (layout : Layout acl aces revision free) :
    aclRevision acl = some revision ∧ aclSize acl = some acl.length ∧ aceCount acl = some aces.length := by
  obtain ⟨-, high⟩ := layout.revision
  have small := layout.small
  have count := layout.count_lt
  have four : maxAclRevision = 4 := rfl
  have first := @aclRevision_header revision aces.length acl.length (by omega) (aces.flatten ++ free)
  have second := @aclSize_header revision aces.length acl.length (by omega) (aces.flatten ++ free)
  have third := @aceCount_header revision aces.length acl.length (by omega) (aces.flatten ++ free)
  rw [← append_assoc, ← layout.bytes] at first second third
  exact ⟨first, second, third⟩

end Fields

/-! ### Loops -/

section Loops

variable {front free : List UInt8}

theorem aceSize_eq {back : List UInt8} (entry : Entry ace) :
    aceSize (front ++ ace ++ back) front.length = some ace.length := by
  have long := entry.long
  rw [aceSize, numberAt, load_inner (by omega)]
  exact entry.size

theorem aceSize_cons {rest : List (List UInt8)} (entries : ∀ other ∈ ace :: rest, Entry other)
    (bytes : acl = front ++ (ace :: rest).flatten ++ free) :
    aceSize acl front.length = some ace.length ∧ (∀ other ∈ rest, Entry other) ∧
      acl = (front ++ ace) ++ rest.flatten ++ free := by
  have here : front ++ (ace :: rest).flatten ++ free = front ++ ace ++ (rest.flatten ++ free) := by simp
  refine ⟨?_, fun other member => entries other (mem_cons_of_mem _ member), ?_⟩
  · rw [bytes, here]
    exact aceSize_eq (entries ace mem_cons_self)
  · rw [bytes]
    simp

section Loops

variable (entries : ∀ ace ∈ aces, Entry ace) (bytes : acl = front ++ aces.flatten ++ free)
include entries bytes

theorem validLoop_eq : validLoop acl acl.length aces.length front.length = some true := by
  induction aces generalizing front with
  | nil =>
    have length := congrArg length bytes
    rw [length_append, length_append] at length
    rw [length_nil, validLoop]
    simp only [some.injEq, decide_eq_true_eq]
    omega
  | cons ace rest ih =>
    obtain ⟨size, others, later⟩ := aceSize_cons entries bytes
    have length := congrArg length bytes
    rw [length_append, length_append] at length
    rw [length_cons, validLoop, if_neg (by omega), size]
    have next := ih others later
    rw [length_append] at next
    exact next

theorem freeLoop_eq :
    freeLoop acl acl.length aces.length front.length = some (some (front.length + aces.flatten.length)) := by
  induction aces generalizing front with
  | nil => rfl
  | cons ace rest ih =>
    obtain ⟨size, others, later⟩ := aceSize_cons entries bytes
    have long := (entries ace mem_cons_self).long
    have length := congrArg length bytes
    rw [length_append, length_append, flatten_cons, length_append] at length
    rw [length_cons, freeLoop, if_neg (by omega), size]
    have next := ih others later
    rw [length_append] at next
    rw [flatten_cons, length_append, ← Nat.add_assoc]
    exact next

theorem getLoop_eq :
    getLoop acl aces.length front.length = some (front.length + aces.flatten.length) := by
  induction aces generalizing front with
  | nil => rfl
  | cons ace rest ih =>
    obtain ⟨size, others, later⟩ := aceSize_cons entries bytes
    rw [length_cons, getLoop, size]
    have next := ih others later
    rw [length_append] at next
    rw [flatten_cons, length_append, ← Nat.add_assoc]
    exact next

theorem restLoop_eq (len : Nat) :
    restLoop acl aces.length front.length len = some (len + aces.flatten.length) := by
  induction aces generalizing front len with
  | nil => rfl
  | cons ace rest ih =>
    obtain ⟨size, others, later⟩ := aceSize_cons entries bytes
    rw [length_cons, restLoop, size]
    have next := ih others later (len + ace.length)
    rw [length_append] at next
    rw [flatten_cons, length_append, ← Nat.add_assoc]
    exact next

end Loops

end Loops

/-! ### Functions -/

section Functions

variable {revision : Nat} {free : List UInt8}

/-- A SID with all of its bytes. -/
def ValidSid (sid : List UInt8) : Prop :=
  rtlValidSid sid = some true ∧ ∃ length, rtlLengthSid sid = some length ∧ length ≤ sid.length

/-- The bytes of a new entry. -/
def AccessAce.bytes (new : AccessAce) : List UInt8 :=
  let length := (rtlLengthSid new.sid).getD 0
  le 1 new.aceType ++ le 1 new.aceFlags ++ le 2 (8 + length) ++ le 4 new.accessMask ++ new.sid.take length

/-- The entry at a position, as long as its header says. -/
def aceAt (acl : List UInt8) (ace : Nat) : Option (List UInt8) := do
  let size ← aceSize acl ace
  load acl ace size

section Entries

variable (layout : Layout acl aces revision free)
include layout

theorem rtlValidAcl_eq : rtlValidAcl acl = some true := by
  obtain ⟨rev, size, count⟩ := layout.fields
  obtain ⟨low, high⟩ := layout.revision
  have loop := validLoop_eq layout.entries layout.bytes
  simp only [rtlValidAcl, rev, size, count, bind_eq_bind, bind_some]
  rw [if_neg (by omega)]
  exact loop

theorem rtlFirstFreeAce_eq :
    rtlFirstFreeAce acl = some (true, some (sizeofAcl + aces.flatten.length)) := by
  obtain ⟨-, size, count⟩ := layout.fields
  have loop := freeLoop_eq layout.entries layout.bytes
  have length := layout.length
  rw [length_header] at loop
  simp only [rtlFirstFreeAce, size, count, bind_eq_bind, bind_some, loop]
  rw [if_pos (by omega)]

theorem rtlGetAce_none (far : aces.length ≤ index) :
    rtlGetAce acl index = some (.error .invalidParameter) := by
  obtain ⟨-, -, count⟩ := layout.fields
  simp only [rtlGetAce, count, bind_eq_bind, bind_some]
  rw [if_pos far]

variable {front back : List (List UInt8)} (split : aces = front ++ ace :: back)
include split

/-- Where the block is cut at an entry. -/
theorem Layout.cut :
    ∃ before, acl = before ++ ace ++ (back.flatten ++ free) ∧
      before = header revision acl.length aces.length ++ front.flatten ∧
      before.length = sizeofAcl + front.flatten.length := by
  refine ⟨_, ?_, rfl, by rw [length_append, length_header]⟩
  have whole : aces.flatten = front.flatten ++ (ace ++ back.flatten) := by
    rw [split, flatten_append, flatten_cons]
  have here := layout.bytes
  rw [whole] at here
  simpa only [append_assoc] using here

theorem Layout.entry : Entry ace :=
  layout.entries ace (split ▸ mem_append_right _ mem_cons_self)

theorem rtlGetAce_eq : rtlGetAce acl front.length = some (.ok (sizeofAcl + front.flatten.length)) := by
  obtain ⟨-, -, count⟩ := layout.fields
  obtain ⟨before, bytes, start, -⟩ := layout.cut split
  have entries : ∀ other ∈ front, Entry other := fun other member =>
    layout.entries other (split ▸ mem_append_left _ member)
  rw [start, append_assoc _ ace] at bytes
  have loop := getLoop_eq entries bytes
  rw [length_header] at loop
  have less : front.length < aces.length := by
    rw [split, length_append, length_cons]
    omega
  simp only [rtlGetAce, count, bind_eq_bind, bind_some]
  rw [if_neg (by omega), loop]
  rfl

theorem Layout.aceSize : aceSize acl (sizeofAcl + front.flatten.length) = some ace.length := by
  obtain ⟨before, bytes, -, start⟩ := layout.cut split
  rw [← start, bytes]
  exact aceSize_eq (layout.entry split)

theorem aceAt_eq : aceAt acl (sizeofAcl + front.flatten.length) = some ace := by
  obtain ⟨before, bytes, -, start⟩ := layout.cut split
  rw [aceAt, layout.aceSize split, ← start]
  show load acl before.length ace.length = some ace
  rw [bytes]
  exact load_mid before ace _

end Entries

theorem store_count (revision size count count' : Nat) (rest : List UInt8) :
    store (header revision size count ++ rest) 4 (le 2 count') = some (header revision size count' ++ rest) := by
  have changed := store_mid (le 1 revision ++ [0] ++ le 2 size) (le 2 count) ([0, 0] ++ rest)
    (show (le 2 count').length = (le 2 count).length by rw [length_le, length_le])
  simpa [header, length_le] using changed

theorem store_revision (revision revision' size count : Nat) (rest : List UInt8) :
    store (header revision size count ++ rest) 0 (le 1 revision') =
      some (header revision' size count ++ rest) := by
  have changed := store_mid [] (le 1 revision) ([0] ++ le 2 size ++ le 2 count ++ [0, 0] ++ rest)
    (show (le 1 revision').length = (le 1 revision).length by rw [length_le, length_le])
  simpa [header] using changed

/-- **One entry goes away.** -/
theorem rtlDeleteAce_spec (layout : Layout acl aces revision free) {front back : List (List UInt8)}
    (split : aces = front ++ ace :: back) :
    ∃ acl' free', rtlDeleteAce acl front.length = some (acl', .success) ∧
      Layout acl' (front ++ back) revision free' := by
  obtain ⟨before, bytes, start, length⟩ := layout.cut split
  obtain ⟨-, -, count⟩ := layout.fields
  have others : ∀ other ∈ back, Entry other := fun other member =>
    layout.entries other (split ▸ mem_append_right _ (mem_cons_of_mem _ member))
  have number : aces.length - (front.length + 1) = back.length := by
    rw [split, length_append, length_cons]
    omega
  have after : acl = (before ++ ace) ++ back.flatten ++ free := by
    rw [bytes]
    simp only [append_assoc]
  have behind : (before ++ ace).length = sizeofAcl + front.flatten.length + ace.length := by
    rw [length_append, length]
  have rest : restLoop acl back.length (sizeofAcl + front.flatten.length + ace.length) 0 =
      some back.flatten.length := by
    have loop := restLoop_eq others after 0
    rw [behind, Nat.zero_add] at loop
    exact loop
  have loaded : load acl (sizeofAcl + front.flatten.length + ace.length) back.flatten.length =
      some back.flatten := by
    rw [← behind, after]
    exact load_mid ..
  -- the entries behind it slide down, over its bytes
  obtain ⟨old, free', pieces, same⟩ : ∃ old free', ace ++ back.flatten = old ++ free' ∧
      back.flatten.length = old.length :=
    ⟨(ace ++ back.flatten).take back.flatten.length, (ace ++ back.flatten).drop back.flatten.length,
      (take_append_drop ..).symm, by rw [length_take, length_append]; omega⟩
  have moved : store acl (sizeofAcl + front.flatten.length) back.flatten =
      some (header revision acl.length aces.length ++ (front.flatten ++ back.flatten ++ (free' ++ free))) := by
    have cut : acl = before ++ old ++ (free' ++ free) := by
      rw [bytes, append_assoc, ← append_assoc ace, pieces]
      simp only [append_assoc]
    have stored := store_mid before old (free' ++ free) same
    rw [← cut, length, start] at stored
    simpa only [append_assoc] using stored
  have total : acl.length = (header revision acl.length (aces.length - 1) ++
      (front.flatten ++ back.flatten ++ (free' ++ free))).length := by
    have whole := congrArg List.length bytes
    have parts := congrArg List.length pieces
    simp only [length_append, length_header] at whole parts ⊢
    omega
  refine ⟨header revision acl.length (aces.length - 1) ++ (front.flatten ++ back.flatten ++ (free' ++ free)),
    free' ++ free, ?_, ?_⟩
  · simp only [rtlDeleteAce, rtlGetAce_eq layout split, layout.aceSize split, count, number, rest, loaded, moved,
      store_count, bind_eq_bind, bind_some]
  · have fewer : aces.length - 1 = (front ++ back).length := by
      rw [split, length_append, length_append, length_cons]
      omega
    refine ⟨?_, layout.revision, total ▸ layout.small, fun other member => ?_⟩
    · rw [← total, fewer, flatten_append]
      simp only [append_assoc]
    · refine layout.entries other (split ▸ ?_)
      obtain member | member := mem_append.mp member
      · exact mem_append_left _ member
      · exact mem_append_right _ (mem_cons_of_mem _ member)

variable {length : Nat} {new : AccessAce}

theorem length_of_validSid {sid : List UInt8} (known : rtlLengthSid sid = some length) :
    8 ≤ length ∧ length < 2000 := by
  unfold rtlLengthSid at known
  cases field : numberAt sid 1 1 with
  | none =>
    rw [field] at known
    nomatch known
  | some count =>
    rw [field] at known
    cases known
    have small : count < 256 := by
      obtain ⟨bytes, loaded, rfl⟩ := map_eq_some_iff.mp field
      have bound := ofLe_lt bytes
      unfold load at loaded
      split at loaded
      · cases loaded
        have one : ((sid.drop 1).take 1).length ≤ 1 := length_take_le ..
        exact Nat.lt_of_lt_of_le bound (Nat.pow_le_pow_right (by decide) one)
      · nomatch loaded
    omega

section Fill

variable (known : rtlLengthSid new.sid = some length)
include known

theorem length_bytes (inside : length ≤ new.sid.length) : new.bytes.length = 8 + length := by
  simp only [bytes, known, getD_some, length_append, length_le, length_take]
  omega

theorem entry_bytes (inside : length ≤ new.sid.length) : Entry new.bytes := by
  obtain ⟨low, high⟩ := length_of_validSid known
  refine ⟨by rw [length_bytes known inside]; omega, ?_⟩
  rw [length_bytes known inside]
  have field := @numberAt_mid (le 1 new.aceType ++ le 1 new.aceFlags)
    (le 4 new.accessMask ++ new.sid.take length) 2
    (8 + length) (by omega)
  simpa [bytes, known, length_le] using field

/-- The stores of the fields of the new entry are one. -/
theorem store_fields {β : Type} (acl : List UInt8) (ace : Nat) (next : List UInt8 → Option β) :
    ((store acl ace (le 1 new.aceType)).bind fun acl =>
      (store acl (ace + 1) (le 1 new.aceFlags)).bind fun acl =>
      (store acl (ace + 2) (le 2 (8 + length))).bind fun acl =>
      (store acl (ace + 4) (le 4 new.accessMask)).bind fun acl =>
      (store acl (ace + 8) (new.sid.take length)).bind next) = (store acl ace new.bytes).bind next := by
  simp only [bytes, known, getD_some]
  rw [← store_append, bind_assoc, ← store_append, bind_assoc, ← store_append, bind_assoc,
    ← store_append, bind_assoc]
  simp only [length_append, length_le]

/-- **The new entry is filled in**, behind the others. -/
theorem fillAce_eq (layout : Layout acl aces revision free) (valid : rtlValidSid new.sid = some true)
    (inside : length ≤ new.sid.length) (low : new.aceRevision ≤ maxAclRevision)
    (room : 8 + length ≤ free.length) :
    ∃ acl' revision' free', fillAce acl (sizeofAcl + aces.flatten.length) length (8 + length) new = some acl' ∧
      Layout acl' (aces ++ [new.bytes]) revision' free' := by
  obtain ⟨first, high⟩ := layout.revision
  have count := layout.count_lt
  have four : maxAclRevision = 4 := rfl
  have copied : ∀ acl dest, rtlCopySid acl dest length new.sid = store acl dest (new.sid.take length) := by
    intro acl dest
    simp only [rtlCopySid, valid, known, bind_eq_bind, bind_some]
    rw [if_neg (by simp), load_eq (by omega)]
    rfl
  have size := length_bytes known inside
  -- the first of the free bytes are those of the new entry
  obtain ⟨slot, free', rfl, same⟩ : ∃ slot free', free = slot ++ free' ∧ new.bytes.length = slot.length :=
    ⟨free.take (8 + length), free.drop (8 + length), (take_append_drop ..).symm,
      by rw [length_take]; omega⟩
  have stored : store acl (sizeofAcl + aces.flatten.length) new.bytes =
      some (header revision acl.length aces.length ++ (aces.flatten ++ new.bytes ++ free')) := by
    have mid := store_mid (header revision acl.length aces.length ++ aces.flatten) slot free' same
    rw [length_append, length_header, append_assoc _ slot, ← layout.bytes] at mid
    simpa only [append_assoc] using mid
  have total : acl.length = (header (max revision new.aceRevision) acl.length (aces.length + 1) ++
      (aces.flatten ++ new.bytes ++ free')).length := by
    have whole := layout.length
    simp only [length_append, length_header] at whole ⊢
    omega
  refine ⟨header (max revision new.aceRevision) acl.length (aces.length + 1) ++
    (aces.flatten ++ new.bytes ++ free'),
    max revision new.aceRevision, free', ?_, ?_⟩
  · simp only [fillAce, copied, bind_eq_bind]
    rw [store_fields known acl _, stored, bind_some, aclRevision_header (by omega), bind_some,
      store_revision, bind_some, aceCount_header (by omega), bind_some, store_count]
  · refine ⟨?_, by omega, total ▸ layout.small, fun other member => ?_⟩
    · rw [← total, length_append, length_singleton, flatten_append]
      simp only [flatten_cons, flatten_nil, append_nil, append_assoc]
    · obtain member | member := mem_append.mp member
      · exact layout.entries other member
      · rw [mem_singleton.mp member]
        exact entry_bytes known inside

end Fill

/-- **An addition**: it appends an entry if there is room, and else leaves all bytes as they are. -/
theorem addAccessAce_spec (layout : Layout acl aces revision free) (valid : ValidSid new.sid) :
    if new.aceRevision ≤ maxAclRevision ∧ new.bytes.length ≤ free.length then
      ∃ acl' revision' free', addAccessAce acl new = some (acl', .success) ∧
        Layout acl' (aces ++ [new.bytes]) revision' free'
    else ∃ status, addAccessAce acl new = some (acl, status) ∧ status ≠ .success := by
  obtain ⟨valid, length, known, inside⟩ := valid
  obtain ⟨rev, size, -⟩ := layout.fields
  have total := layout.length
  have bytes := length_bytes known inside
  have eight : sizeofAceHeader + 4 = 8 := rfl
  simp only [addAccessAce, valid, rev, rtlValidAcl_eq layout, rtlFirstFreeAce_eq layout, known, size,
    bind_eq_bind, bind_some, not_true_eq_false, if_false, eight]
  split_ifs with fits mismatch full full
  · exact absurd fits.1 (by have := layout.revision.2; omega)
  · exact absurd fits.2 (by omega)
  · obtain ⟨acl', revision', free', filled, layout'⟩ := fillAce_eq known layout valid inside fits.1 (by omega)
    refine ⟨acl', revision', free', ?_, layout'⟩
    rw [filled]
    rfl
  · exact ⟨_, rfl, nofun⟩
  · exact ⟨_, rfl, nofun⟩
  · exact absurd ⟨by omega, by omega⟩ fits

theorem rtlCreateAcl_spec {block : List UInt8} {rev : Nat}
    (created : rtlCreateAcl block rev = some (acl, .success)) : ∃ free, Layout acl [] rev free := by
  unfold rtlCreateAcl at created
  dsimp only at created
  split_ifs at created with bad short long
  · nomatch created
  · nomatch created
  · nomatch created
  obtain ⟨front, free, rfl, length⟩ : ∃ front free, block = front ++ free ∧ front.length = sizeofAcl :=
    ⟨block.take sizeofAcl, block.drop sizeofAcl, (take_append_drop ..).symm, by rw [length_take]; omega⟩
  generalize total : (front ++ free).length = size at *
  have cleared : store (front ++ free) 0 (replicate sizeofAcl 0) = some (replicate 8 0 ++ free) :=
    store_mid [] front free (by rw [length_replicate, length])
  have revision : store (replicate 8 0 ++ free) 0 (le 1 rev) = some (le 1 rev ++ replicate 7 0 ++ free) := by
    exact store_mid [] [0] (replicate 7 0 ++ free) (length_le 1 rev)
  have sized : store (le 1 rev ++ replicate 7 0 ++ free) 2 (le 2 size) =
      some (le 1 rev ++ [0] ++ le 2 size ++ replicate 4 0 ++ free) := by
    exact store_mid (le 1 rev ++ [0]) [0, 0] (replicate 4 0 ++ free) (length_le 2 size)
  have counted : store (le 1 rev ++ [0] ++ le 2 size ++ replicate 4 0 ++ free) 4 (le 2 0) =
      some (header rev size 0 ++ free) := by
    exact store_mid (le 1 rev ++ [0] ++ le 2 size) [0, 0] ([0, 0] ++ free) (length_le 2 0)
  rw [cleared, bind_eq_bind, bind_some, revision, bind_some, sized, bind_some,
    counted] at created
  cases created
  have same : (header rev size 0 ++ free).length = size := by
    rw [length_append, length_header, ← total, length_append, length]
  refine ⟨free, ?_, by omega, by omega, nofun⟩
  rw [same, flatten_nil]
  rfl

end Functions

/-! ### Whole runs -/

/-- What an operation with this result does to the list of entries. -/
def specStep (aces : List (List UInt8)) : Action → NtStatus → List (List UInt8)
  | .add new, .success => aces ++ [new.bytes]
  | .delete index, .success => aces.eraseIdx index
  | _, _ => aces

/-- The operations one after the other, on the block and on the list. -/
def run : List UInt8 → List (List UInt8) → List Action → Option (List UInt8 × List (List UInt8))
  | acl, aces, [] => some (acl, aces)
  | acl, aces, action :: rest => do
    let (acl, status) ← step acl action
    run acl (specStep aces action status) rest

/-- The functions that read the block see the list. -/
structure ReadsAs (acl : List UInt8) (aces : List (List UInt8)) : Prop where
  valid : rtlValidAcl acl = some true
  count : aceCount acl = some aces.length
  inside : ∀ index ace, aces[index]? = some ace →
    ∃ pos, rtlGetAce acl index = some (.ok pos) ∧ aceAt acl pos = some ace
  outside : ∀ index, aces.length ≤ index → rtlGetAce acl index = some (.error .invalidParameter)

/-- All SIDs are valid. -/
def Action.Valid : Action → Prop
  | .add new => ValidSid new.sid
  | .delete _ => True

/-- What one more operation does. -/
def StepsAs (acl : List UInt8) (aces : List (List UInt8)) (action : Action) : Prop :=
  ∃ acl' status, step acl action = some (acl', status) ∧ ReadsAs acl' (specStep aces action status) ∧
    (status ≠ .success → acl' = acl) ∧
    ∀ index, action = .delete index → (status = .success ↔ index < aces.length)

theorem split_of_getElem {α : Type} {list : List α} {item : α} (found : list[index]? = some item) :
    ∃ front back, list = front ++ item :: back ∧ front.length = index := by
  obtain ⟨inside, rfl⟩ := List.getElem?_eq_some_iff.mp found
  refine ⟨list.take index, list.drop (index + 1), ?_, by rw [length_take]; omega⟩
  rw [getElem_cons_drop, take_append_drop]

theorem Represents.readsAs (held : Represents acl aces) : ReadsAs acl aces := by
  obtain ⟨revision, free, layout⟩ := held
  refine ⟨rtlValidAcl_eq layout, layout.fields.2.2, fun index ace found => ?_, fun _ => rtlGetAce_none layout⟩
  obtain ⟨front, back, split, rfl⟩ := split_of_getElem found
  exact ⟨_, rtlGetAce_eq layout split, aceAt_eq layout split⟩

/-- **One operation.** -/
theorem step_spec (held : Represents acl aces) {action : Action} (valid : action.Valid) :
    ∃ acl' status, step acl action = some (acl', status) ∧ Represents acl' (specStep aces action status) ∧
      (status ≠ .success → acl' = acl) ∧
      ∀ index, action = .delete index → (status = .success ↔ index < aces.length) := by
  obtain ⟨revision, free, layout⟩ := held
  cases action with
  | add new =>
    have spec := addAccessAce_spec layout valid
    split at spec
    · obtain ⟨acl', revision', free', added, layout'⟩ := spec
      exact ⟨acl', .success, added, ⟨revision', free', layout'⟩, fun failed => absurd rfl failed, nofun⟩
    · obtain ⟨status, failed, different⟩ := spec
      refine ⟨acl, status, failed, ?_, fun _ => rfl, nofun⟩
      have same : specStep aces (.add new) status = aces := by
        cases status <;> first | rfl | exact absurd rfl different
      rw [same]
      exact ⟨revision, free, layout⟩
  | delete index =>
    by_cases inside : index < aces.length
    · obtain ⟨front, back, split, rfl⟩ := split_of_getElem (getElem?_eq_getElem inside)
      obtain ⟨acl', free', deleted, layout'⟩ := rtlDeleteAce_spec layout split
      have erased : specStep aces (.delete front.length) .success = front ++ back := by
        show aces.eraseIdx front.length = front ++ back
        rw [split, eraseIdx_append_of_length_le (Nat.le_refl _), Nat.sub_self, eraseIdx_cons_zero]
      refine ⟨acl', .success, deleted, ⟨revision, free', erased ▸ layout'⟩, fun failed => absurd rfl failed, ?_⟩
      rintro _ ⟨⟩
      exact iff_of_true rfl inside
    · have none := rtlGetAce_none layout (Nat.le_of_not_lt inside)
      refine ⟨acl, .invalidParameter, by simp only [step, rtlDeleteAce, none, bind_eq_bind, bind_some],
        ⟨revision, free, layout⟩, fun _ => rfl, ?_⟩
      rintro _ ⟨⟩
      exact iff_of_false nofun inside

theorem run_spec (held : Represents acl aces) :
    ∀ actions : List Action, (∀ action ∈ actions, action.Valid) →
      ∃ acl' aces', run acl aces actions = some (acl', aces') ∧ Represents acl' aces' := by
  intro actions
  induction actions generalizing acl aces with
  | nil => exact fun _ => ⟨acl, aces, rfl, held⟩
  | cons action rest ih =>
    intro valid
    obtain ⟨acl₁, status, stepped, held₁, -⟩ := step_spec held (valid action mem_cons_self)
    obtain ⟨acl', aces', ran, held'⟩ := ih held₁ fun other member => valid other (mem_cons_of_mem _ member)
    refine ⟨acl', aces', ?_, held'⟩
    rw [run, stepped]
    exact ran

/-- **An ACL behaves as a list of its entries.** After every sequence of additions and removals the block is
valid and reads as the list; one more addition appends an entry or leaves all bytes as they are, and one more
removal takes away the entry with this index, if there is one. -/
theorem acl_is_list {block acl : List UInt8} {rev : Nat}
    (created : rtlCreateAcl block rev = some (acl, .success))
    (actions : List Action) (valid : ∀ action ∈ actions, action.Valid) :
    ∃ acl' aces, run acl [] actions = some (acl', aces) ∧ ReadsAs acl' aces ∧
      ∀ action : Action, action.Valid → StepsAs acl' aces action := by
  obtain ⟨free, layout⟩ := rtlCreateAcl_spec created
  obtain ⟨acl', aces, ran, held⟩ := run_spec ⟨rev, free, layout⟩ actions valid
  refine ⟨acl', aces, ran, held.readsAs, fun action valid => ?_⟩
  obtain ⟨acl'', status, stepped, held', unchanged, deleted⟩ := step_spec held valid
  exact ⟨acl'', status, stepped, held'.readsAs, unchanged, deleted⟩

/-- Everyone, `S-1-1-0`. -/
def worldSid : List UInt8 := [1, 1, 0, 0, 0, 0, 0, 1, 0, 0, 0, 0]

theorem worldSid_valid : ValidSid worldSid := ⟨by decide, 12, by decide, by decide⟩

/-- Two entries in a block of 48 bytes, and then the first goes away. -/
theorem acl_is_list_world :
    rtlCreateAcl (List.replicate 48 0xcc) 2 = some (header 2 48 0 ++ List.replicate 40 0xcc, .success) ∧
    ∃ acl' aces, run (header 2 48 0 ++ List.replicate 40 0xcc) []
        [.add ⟨2, 0, 1, worldSid, 0⟩, .add ⟨2, 0, 2, worldSid, 1⟩, .delete 0] = some (acl', aces) ∧
        ReadsAs acl' aces ∧
      ∀ action : Action, action.Valid → StepsAs acl' aces action := by
  have created : rtlCreateAcl (replicate 48 0xcc) 2 =
      some (header 2 48 0 ++ replicate 40 0xcc, .success) := by decide
  refine ⟨created, acl_is_list created _ ?_⟩
  simp only [mem_cons, not_mem_nil, or_false]
  rintro _ (rfl | rfl | rfl)
  · exact worldSid_valid
  · exact worldSid_valid
  · exact trivial

end FreeWindows.Rtl.Acl
