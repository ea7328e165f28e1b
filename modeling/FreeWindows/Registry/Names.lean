/-
**Names of registry keys and values.**

Names are strings of 16-bit units. The server finds a key or a value by a binary search with
`compareName`: the units that both names have are compared after mapping them to lower case, then
the lengths. So names are in the lexicographic order of their `folded` units (`compareName_neg`),
and two names are the same if and only if they are equal up to case (`compareName_zero`).
-/

import FreeWindows.Lib.Search

namespace FreeWindows.Registry

open Lib List

abbrev WChar := UInt16

abbrev Name := List WChar

/-- What `to_lower` computes from the case mapping table that the server has loaded. -/
abbrev CaseMap := WChar → WChar

/-- `memicmp_strW`, for as many units as both strings have. -/
def memicmpStrW (casemap : CaseMap) : Name → Name → Int
  | a :: str1, b :: str2 =>
    let ret : Int := (casemap a).toNat - (casemap b).toNat
    if ret ≠ 0 then ret else memicmpStrW casemap str1 str2
  | _, _ => 0

/-- The comparison in `find_subkey` and `find_value`; lengths are in bytes. -/
def compareName (casemap : CaseMap) (entry name : Name) : Int :=
  let res := memicmpStrW casemap entry name
  if res ≠ 0 then res else 2 * entry.length - 2 * name.length

/-- The units of a name in lower case. -/
def folded (casemap : CaseMap) (name : Name) : List Nat := name.map fun unit => (casemap unit).toNat

section Order

variable (casemap : CaseMap) (entry name : Name)

theorem compareName_order :
    (compareName casemap entry name < 0 ↔ folded casemap entry < folded casemap name) ∧
      (compareName casemap entry name = 0 ↔ folded casemap entry = folded casemap name) := by
  induction entry generalizing name with
  | nil =>
    cases name with
    | nil => simp [compareName, memicmpStrW, folded]
    | cons b name =>
      simp [compareName, memicmpStrW, folded]
      omega
  | cons a entry ih =>
    cases name with
    | nil =>
      simp [compareName, memicmpStrW, folded]
      omega
    | cons b name =>
      obtain ⟨neg, zero⟩ := ih name
      simp only [folded, compareName] at neg zero
      simp only [compareName, memicmpStrW, length_cons, folded, map_cons, cons_lt_cons_iff, cons.injEq,
        ← neg, ← zero]
      split <;> omega

/-- **The search order** is the lexicographic order of the folded names. -/
theorem compareName_neg :
    compareName casemap entry name < 0 ↔ folded casemap entry < folded casemap name :=
  (compareName_order casemap entry name).1

theorem compareName_zero :
    compareName casemap entry name = 0 ↔ folded casemap entry = folded casemap name :=
  (compareName_order casemap entry name).2

theorem compareName_pos :
    0 < compareName casemap entry name ↔ folded casemap name < folded casemap entry := by
  obtain ⟨neg, zero⟩ := compareName_order casemap entry name
  constructor
  · intro above
    refine lt_of_le_of_ne (not_lt.mp fun below => ?_) fun same => ?_
    · exact absurd (neg.mpr below) (by omega)
    · exact absurd (zero.mpr same.symm) (by omega)
  · intro less
    have notBelow : ¬compareName casemap entry name < 0 := fun below => lt_asymm less (neg.mp below)
    have notEqual : ¬compareName casemap entry name = 0 := fun equal =>
      less.ne (zero.mp equal).symm
    omega

end Order

/-! ### Search by name -/

/-- The loops of `find_subkey` and `find_value`. -/
def findName {α : Type} (casemap : CaseMap) (nameOf : α → Name) (items : List α) (name : Name) :
    Place :=
  searchList (fun item => compareName casemap (nameOf item) name) items

/-- The items are strictly increasing in the search order. -/
def Ascending {α : Type} (casemap : CaseMap) (nameOf : α → Name) (items : List α) : Prop :=
  items.Pairwise fun a b => folded casemap (nameOf a) < folded casemap (nameOf b)

section Find

variable {α : Type} {casemap : CaseMap} {nameOf : α → Name} {items : List α} {name : Name}
  {index : Nat}

theorem findName_found (found : findName casemap nameOf items name = .found index) :
    ∃ item, items[index]? = some item ∧ folded casemap (nameOf item) = folded casemap name := by
  obtain ⟨item, place, equal⟩ := searchList_found found
  exact ⟨item, place, (compareName_zero casemap _ _).mp equal⟩

section Search

variable (ascending : Ascending casemap nameOf items)
include ascending

/-- Where an item of a missing name belongs. -/
theorem findName_gap (missing : findName casemap nameOf items name = .gap index) :
    index ≤ items.length ∧
      (∀ item ∈ items.take index, folded casemap (nameOf item) < folded casemap name) ∧
      ∀ item ∈ items.drop index, folded casemap name < folded casemap (nameOf item) := by
  have rising : items.Pairwise fun a b => 0 ≤ compareName casemap (nameOf a) name →
      0 < compareName casemap (nameOf b) name := by
    refine ascending.imp fun {a b} less notBelow => ?_
    rw [compareName_pos]
    refine lt_of_le_of_lt (not_lt.mp fun below => ?_) less
    exact absurd ((compareName_neg casemap _ _).mpr below) (by omega)
  obtain ⟨bound, smaller, larger⟩ := searchList_gap rising missing
  exact ⟨bound, fun item member => (compareName_neg casemap _ _).mp (smaller item member),
    fun item member => (compareName_pos casemap _ _).mp (larger item member)⟩

theorem Ascending.congr {nameOf' : α → Name} (same : ∀ item ∈ items, nameOf' item = nameOf item) :
    Ascending casemap nameOf' items :=
  ascending.imp_of_mem fun {a b} memberA memberB less => by
    rw [same a memberA, same b memberB]
    exact less

theorem Ascending.of_names {items' : List α} (same : items'.map nameOf = items.map nameOf) :
    Ascending casemap nameOf items' := by
  let less : Name → Name → Prop := fun a b => folded casemap a < folded casemap b
  have names : (items.map nameOf).Pairwise less := pairwise_map.mpr ascending
  rw [← same] at names
  exact (pairwise_map (R := less)).mp names

end Search

/-- An item can be put between the smaller and the larger ones. -/
theorem Ascending.insert {front back : List α} {item : α}
    (ascending : Ascending casemap nameOf (front ++ back))
    (smaller : ∀ other ∈ front, folded casemap (nameOf other) < folded casemap (nameOf item))
    (larger : ∀ other ∈ back, folded casemap (nameOf item) < folded casemap (nameOf other)) :
    Ascending casemap nameOf (front ++ item :: back) := by
  obtain ⟨first, second, cross⟩ := pairwise_append.mp ascending
  refine pairwise_append.mpr ⟨first, pairwise_cons.mpr ⟨larger, second⟩, ?_⟩
  intro a memberA b memberB
  rcases mem_cons.mp memberB with rfl | inBack
  · exact smaller a memberA
  · exact cross a memberA b inBack

variable (ascending : Ascending casemap nameOf items)
include ascending

theorem Ascending.nodup : items.Nodup :=
  ascending.imp fun {_ _} less same => (same ▸ less).false

theorem Ascending.unique {item other : α} (member : item ∈ items) (member' : other ∈ items)
    (same : folded casemap (nameOf item) = folded casemap (nameOf other)) : item = other := by
  have nodup : (items.map fun item => folded casemap (nameOf item)).Nodup :=
    pairwise_map.mpr (ascending.imp ne_of_lt)
  exact inj_on_of_nodup_map nodup member member' same

/-- **The search finds exactly the item of a name**, in any case. -/
theorem findName_iff {item : α} :
    (match findName casemap nameOf items name with
      | .found index => items[index]?
      | .gap _ => none) = some item ↔
      item ∈ items ∧ folded casemap (nameOf item) = folded casemap name := by
  split
  next index found =>
    obtain ⟨other, place, equal⟩ := findName_found found
    rw [place, Option.some_inj]
    refine ⟨fun same => same ▸ ⟨mem_of_getElem? place, equal⟩, fun ⟨member, same⟩ => ?_⟩
    exact ascending.unique (mem_of_getElem? place) member (equal.trans same.symm)
  next index missing =>
    obtain ⟨_, smaller, larger⟩ := findName_gap ascending missing
    refine iff_of_false nofun fun ⟨member, same⟩ => ?_
    rw [← take_append_drop index items, mem_append] at member
    rcases member with inFront | behind
    · exact (smaller item inFront).ne same
    · exact (larger item behind).ne' same

end Find

end FreeWindows.Registry
