/-
**The class of a key in registry files.**

`load_key_option` reads the options that follow the path of a key. The terminating zero is counted when a
class is read, and it is not written apart from the class. So a class grows with every file
(`reload_class`), and it is kept only if there is none (`class_kept_iff`).
-/

import FreeWindows.Registry.ValueText

namespace FreeWindows.Registry

open Lib Heap

/-- `load_key_option`, without the time. -/
def Heap.loadKeyOption (heap : Heap) (k : Nat) (buffer : List UInt8) (info : LoadInfo) :
    Heap × LoadInfo :=
  if (ascii "#class=").isPrefixOf buffer then
    match buffer.drop 7 with
    | [] => (heap, info)
    | c :: p =>
      if c ≠ ch '"' then (heap, info)
      else
        let info := info.getFileTmpSpace (2 * p.length)
        match parseStrW (info.tmplen / 2) p (ch '"') with
        | none => (heap, info)
        | some (units, _) => (heap.setClass k units, info)
  else if (ascii "#link").isPrefixOf buffer then
    (heap.setFlags k fun flags => { flags with symlink := true }, info)
  else (heap, info)

/-! ### The class of a key -/

/-- The options of a key, one after the other. -/
def Heap.loadKeyOptions (heap : Heap) (k : Nat) (options : List (List UInt8)) (info : LoadInfo) :
    Heap × LoadInfo :=
  options.foldl (fun state option => state.1.loadKeyOption k option state.2) (heap, info)

/-- A key without a class, as it is created. -/
def Heap.clearClass (heap : Heap) (k : Nat) : Heap :=
  heap.modify k (fun key => { key with cls := none }) fun _ => ⟨rfl, rfl⟩

/-- The options of a key are saved, and loaded when the key is created again. -/
def Heap.reload (heap : Heap) (modif : Int) (k : Nat) : Heap :=
  ((heap.clearClass k).loadKeyOptions k (keyOptions (heap.key k) modif) ⟨4, []⟩).1

section Class

variable (heap : Heap) (k : Nat)

theorem loadKeyOption_time (modif : Int) (info : LoadInfo) :
    heap.loadKeyOption k (timeOption modif) info = (heap, info) := rfl

/-- **A class is read with the zero that ends it.** -/
theorem loadKeyOption_class (cls : Name) (info : LoadInfo) :
    ∃ info', heap.loadKeyOption k (classOption cls) info = (heap.setClass k (cls ++ [0]), info') := by
  have length := length_le_dumpStrW escapeQuotes cls
  have fits : cls.length <
      (info.getFileTmpSpace (2 * (dumpStrW escapeQuotes cls ++ [ch '"']).length)).tmplen / 2 := by
    rw [LoadInfo.getFileTmpSpace, List.length_append, List.length_singleton]
    dsimp only
    omega
  have parsed : parseStrW _ (dumpStrW escapeQuotes cls ++ [ch '"']) (ch '"') = _ :=
    parseStrW_dump .value [] fits
  have isClass : (ascii "#class=").isPrefixOf (classOption cls) = true := rfl
  have quoted : (classOption cls).drop 7 = ch '"' :: (dumpStrW escapeQuotes cls ++ [ch '"']) := rfl
  have quote : ¬(ch '"' ≠ ch '"') := fun differs => differs rfl
  rw [Heap.loadKeyOption, if_pos isClass, quoted]
  dsimp only
  rw [if_neg quote, parsed]
  exact ⟨_, rfl⟩

theorem loadKeyOption_link (info : LoadInfo) :
    heap.loadKeyOption k (ascii "#link") info =
      (heap.setFlags k fun flags => { flags with symlink := true }, info) := rfl

theorem Heap.setFlags_cls (change : Flags → Flags) :
    ((heap.setFlags k change).key k).cls = (heap.key k).cls := by
  rw [setFlags, modify, set_key, if_pos rfl]

theorem Heap.setClass_cls (cls : Name) : ((heap.setClass k cls).key k).cls = some cls := by
  rw [setClass, modify, set_key, if_pos rfl]

theorem loadKeyOptions_cls {key : Key} (fresh : (heap.key k).cls = none) (modif : Int)
    (info : LoadInfo) :
    (((heap.loadKeyOptions k (keyOptions key modif) info).1).key k).cls = key.cls.map (· ++ [0]) := by
  rw [loadKeyOptions, keyOptions, List.foldl_cons, loadKeyOption_time, List.foldl_append]
  cases named : key.cls with
  | none =>
    cases link : key.flags.symlink with
    | false => simpa [named, link] using fresh
    | true => simpa [named, link, loadKeyOption_link, setFlags_cls] using fresh
  | some cls =>
    obtain ⟨info', loaded⟩ := loadKeyOption_class heap k cls info
    cases link : key.flags.symlink with
    | false => simp [loaded, setClass_cls]
    | true => simp [loaded, loadKeyOption_link, setFlags_cls, setClass_cls]

theorem reload_cls (modif : Int) :
    ((heap.reload modif k).key k).cls = (heap.key k).cls.map (· ++ [0]) :=
  loadKeyOptions_cls _ k (by rw [Heap.clearClass, Heap.modify, Heap.set_key, if_pos rfl]) modif _

/-- **The class grows** by a zero with every file. -/
theorem reload_class (modif : Int) (n : Nat) :
    (((fun heap : Heap => heap.reload modif k)^[n] heap).key k).cls =
      (heap.key k).cls.map (· ++ List.replicate n 0) := by
  induction n with
  | zero => simp
  | succ n ih =>
    rw [Function.iterate_succ_apply', reload_cls, ih, Option.map_map]
    congr 1
    funext cls
    rw [Function.comp_apply, List.append_assoc, List.replicate_succ']

end Class

/-- **A class is kept** by saving and loading once or more only if the key has none. -/
theorem class_kept_iff (heap : Heap) (k : Nat) (modif : Int) (n : Nat) (loaded : 0 < n) :
    (((fun heap : Heap => heap.reload modif k)^[n] heap).key k).cls = (heap.key k).cls ↔
      (heap.key k).cls = none := by
  rw [reload_class]
  cases (heap.key k).cls with
  | none => simp
  | some cls =>
    simpa using loaded.ne'

theorem class_kept_iff_root :
    0 < 2 ∧ ((((fun heap : Heap => heap.reload 0 0)^[2] (Server.initial asciiLower 100).heap).key 0).cls =
      ((Server.initial asciiLower 100).heap.key 0).cls ↔
      ((Server.initial asciiLower 100).heap.key 0).cls = none) :=
  ⟨by decide, class_kept_iff (Server.initial asciiLower 100).heap 0 0 2 (by decide)⟩

/-- A key of the class `c` has the class `c` with a zero after its file was loaded. -/
theorem reload_class_fails :
    let heap := (Server.initial asciiLower 100).heap.setClass 0 [unit 'c']
    (heap.key 0).cls = some [unit 'c'] ∧ ((heap.reload 0 0).key 0).cls = some [unit 'c', 0] := by
  decide +kernel

end FreeWindows.Registry
