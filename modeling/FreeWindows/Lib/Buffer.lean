/-
**Blocks of memory.**

A block is the list of its cells. `load` and `store` are the accesses to a part of it, which are undefined
outside of the block. Where a block is made of parts, an access to one of them leaves the others alone.

* `load_inner`, `load_mid`, `store_mid`: accesses to a part;
* `le`, `ofLe`: numbers as bytes, the lowest first.
-/

import Mathlib

namespace FreeWindows.Lib

open List Option

section Blocks

variable {α : Type}

/-- The cells from a position on. -/
def load (block : List α) (pos count : Nat) : Option (List α) :=
  if pos + count ≤ block.length then some ((block.drop pos).take count) else none

/-- The block with new cells from a position on. -/
def store (block : List α) (pos : Nat) (new : List α) : Option (List α) :=
  if pos + new.length ≤ block.length then some (block.take pos ++ new ++ block.drop (pos + new.length)) else none

theorem load_eq {block : List α} {pos count : Nat} (inside : pos + count ≤ block.length) :
    load block pos count = some ((block.drop pos).take count) := if_pos inside

/-- An access to a part is one to the block. -/
theorem load_inner {front part back : List α} {pos count : Nat} (inside : pos + count ≤ part.length) :
    load (front ++ part ++ back) (front.length + pos) count = load part pos count := by
  have whole : front.length + pos + count ≤ (front ++ part ++ back).length := by
    rw [length_append, length_append]
    omega
  rw [load_eq whole, load_eq inside, append_assoc, ← drop_drop, drop_left, drop_append_of_le_length
    (by omega), take_append_of_le_length (by rw [length_drop]; omega)]

theorem load_mid (front part back : List α) :
    load (front ++ part ++ back) front.length part.length = some part := by
  have inner := @load_inner α front part back 0 part.length (by omega)
  rw [Nat.add_zero] at inner
  rw [inner, load_eq (by omega), drop_zero, take_length]

theorem store_mid (front part back : List α) {new : List α} (same : new.length = part.length) :
    store (front ++ part ++ back) front.length new = some (front ++ new ++ back) := by
  have whole : front.length + new.length ≤ (front ++ part ++ back).length := by
    rw [length_append, length_append]
    omega
  have after : (front ++ part ++ back).drop (front.length + new.length) = back := by
    rw [same, ← length_append, drop_left]
  rw [store, if_pos whole, after, append_assoc front part back, take_left]

theorem store_append (block : List α) (pos : Nat) (first second : List α) :
    ((store block pos first).bind fun block => store block (pos + first.length) second) =
      store block pos (first ++ second) := by
  by_cases inside : pos + (first ++ second).length ≤ block.length
  · obtain ⟨front, part, back, rfl, rfl, same⟩ : ∃ front part back,
        block = front ++ part ++ back ∧ pos = front.length ∧ (first ++ second).length = part.length :=
      ⟨block.take pos, (block.drop pos).take (first ++ second).length,
        block.drop (pos + (first ++ second).length), by
          rw [← drop_drop, append_assoc, take_append_drop, take_append_drop],
        by rw [length_take]; omega, by rw [length_take, length_drop]; omega⟩
    rw [store_mid front part back same]
    have split : front ++ part ++ back =
        front ++ part.take first.length ++ (part.drop first.length ++ back) := by
      rw [append_assoc front (part.take _), ← append_assoc (part.take _), take_append_drop,
        append_assoc]
    rw [length_append] at same
    rw [split, store_mid front _ _ (by rw [length_take]; omega), bind_some, ← length_append,
      ← append_assoc, store_mid (front ++ first) _ back (by rw [length_drop]; omega), append_assoc front]
  · rw [store, store, if_neg inside]
    rw [length_append] at inside
    split_ifs with fits
    · rw [bind_some, store, if_neg]
      simp only [length_append, length_take, length_drop]
      omega
    · rfl

end Blocks

/-! ### Numbers -/

/-- The bytes of a number, the lowest first. -/
def le : (width : Nat) → Nat → List UInt8
  | 0, _ => []
  | width + 1, n => UInt8.ofNat (n % 256) :: le width (n / 256)

def ofLe : List UInt8 → Nat
  | [] => 0
  | byte :: rest => byte.toNat + 256 * ofLe rest

theorem length_le (width n : Nat) : (le width n).length = width := by
  induction width generalizing n with
  | zero => rfl
  | succ width ih => rw [le, length_cons, ih]

theorem ofLe_le {width n : Nat} (small : n < 256 ^ width) : ofLe (le width n) = n := by
  induction width generalizing n with
  | zero =>
    rw [le, ofLe]
    omega
  | succ width ih =>
    have quotient : n / 256 < 256 ^ width := Nat.div_lt_of_lt_mul (by rw [Nat.pow_succ] at small; omega)
    have byte : (UInt8.ofNat (n % 256)).toNat = n % 256 := by
      rw [UInt8.toNat_ofNat']
      omega
    rw [le, ofLe, ih quotient, byte]
    omega

theorem ofLe_lt (bytes : List UInt8) : ofLe bytes < 256 ^ bytes.length := by
  induction bytes with
  | nil => exact Nat.zero_lt_one
  | cons byte rest ih =>
    have small : byte.toNat < 256 := byte.toNat_lt
    rw [ofLe, length_cons, Nat.pow_succ]
    omega

/-- A number in a block. -/
def numberAt (block : List UInt8) (pos width : Nat) : Option Nat := (load block pos width).map ofLe

theorem numberAt_mid (front back : List UInt8) {width n : Nat} (small : n < 256 ^ width) :
    numberAt (front ++ le width n ++ back) front.length width = some n := by
  have mid := load_mid front (le width n) back
  rw [length_le] at mid
  rw [numberAt, mid, map_some, ofLe_le small]

end FreeWindows.Lib
