/-
**Products of decimals** (`dlls/oleaut32/vartype.c`).

A mantissa has three words, the lowest one first. `VARIANT_DI_mul` adds up the rows of the product in six words
and forgets what is carried out of the last word of a row.

* `mulRows_holds`: the sum of the rows, each of them modulo 2^96 (`kept`);
* `varDecMul_iff`: **which products of integers are right in both orders**.
-/

import Mathlib

namespace FreeWindows.Oleaut

open List

/-! ### Words -/

/-- The number in an array of words. -/
def value : List UInt32 → Nat
  | [] => 0
  | word :: words => word.toNat + 2 ^ 32 * value words

/-- The two halves of an `ULARGE_INTEGER`. -/
def halves (ul64 : Nat) : UInt32 × UInt32 := (.ofNat ul64, .ofNat (ul64 / 2 ^ 32))

def variantAdd (ulLeft ulRight high : UInt32) : UInt32 × UInt32 :=
  halves (ulLeft.toNat + ulRight.toNat + high.toNat)

def variantMul (ulLeft ulRight high : UInt32) : UInt32 × UInt32 :=
  halves (ulLeft.toNat * ulRight.toNat + high.toNat)

/-- `VARIANT_int_iszero` -/
def intIszero (p : List UInt32) : Bool := p.all (· = 0)

/-- `VARIANT_int_divbychar` for the divisor 10, with the remainder. -/
def intDivbychar : List UInt32 → List UInt32 × Nat
  | [] => ([], 0)
  | word :: words =>
    let (words, remainder) := intDivbychar words
    let dividend := remainder <<< 32 + word.toNat
    (.ofNat (dividend / 10) :: words, dividend % 10)

/-- The loops that round up: the sum is one of 32 bits, so it is never above `0xFFFFFFFF`. -/
def roundUp : List UInt32 → List UInt32
  | [] => []
  | word :: words =>
    let digit := word + 1
    digit :: if digit.toNat > 0xFFFFFFFF then roundUp words else words

/-- The loop that adds a word and what is carried. -/
def addCarry : List UInt32 → UInt32 → List UInt32
  | [], _ => []
  | word :: words, iRV =>
    let (word, iRV) := variantAdd word 0 iRV
    word :: if iRV = 0 then words else addCarry words iRV

/-- To go on behind the first word. -/
def behind (next : List UInt32 → List UInt32) : List UInt32 → List UInt32
  | [] => []
  | first :: rest => first :: next rest

/-- One row of the product. -/
def mulRow (digit : UInt32) : (running b : List UInt32) → (iOverflowMul : UInt32) → List UInt32
  | running, [], _ => running
  | running, word :: words, iOverflowMul =>
    let (iRV, iOverflowMul) := variantMul word digit iOverflowMul
    behind (fun rest => mulRow digit rest words iOverflowMul) (addCarry running iRV)

/-- The rows for the words of `a`, up to the last one that is not zero. -/
def mulRows (b : List UInt32) : (running a : List UInt32) → List UInt32
  | running, [] => running
  | running, digit :: digits =>
    if intIszero (digit :: digits) then running
    else behind (fun rest => mulRows b rest digits) (mulRow digit running b 0)

/-! ### Decimals -/

inductive Status
  | overflow
deriving DecidableEq, Repr

structure Decimal where
  scale : UInt8
  sign : UInt8
  lo32 : UInt32
  mid32 : UInt32
  hi32 : UInt32
deriving DecidableEq, Repr

def Decimal.words (dec : Decimal) : List UInt32 := [dec.lo32, dec.mid32, dec.hi32]

structure VariantDI where
  bitsnum : List UInt32
  scale : UInt8
  sign : Bool
deriving DecidableEq, Repr

def variantDIFromDec (dec : Decimal) : VariantDI := ⟨dec.words, dec.scale, dec.sign ≠ 0⟩

def variantDecFromDI (di : VariantDI) : Decimal :=
  ⟨di.scale, if di.sign then 0x80 else 0, di.bitsnum.getD 0 0, di.bitsnum.getD 1 0, di.bitsnum.getD 2 0⟩

/-- The loops that divide by 10 as long as there is a scale and the words behind the first `n` are used. -/
def scaleDown (n : Nat) : (scale : Nat) → List UInt32 → (remainder : Nat) → Nat × List UInt32 × Nat
  | 0, running, remainder => (0, running, remainder)
  | scale + 1, running, remainder =>
    if intIszero (running.drop n) then (scale + 1, running, remainder)
    else scaleDown n scale (intDivbychar running).1 (intDivbychar running).2

/-- `VARIANT_DI_mul`, with the flag that it returns. -/
def variantDIMul (a b : VariantDI) : Bool × VariantDI :=
  if intIszero a.bitsnum then (false, ⟨[0, 0, 0], 0, false⟩)
  else
    let (scale, running, remainder) :=
      scaleDown 3 (a.scale + b.scale).toNat (mulRows b.bitsnum (replicate 6 0) a.bitsnum) 0
    let running := if remainder ≥ 5 then roundUp running else running
    (!intIszero (running.drop 3), ⟨running.take 3, .ofNat scale, a.sign ^^ b.sign⟩)

def varDecMul (pDecLeft pDecRight : Decimal) : Except Status Decimal :=
  let (mulresult, di) := variantDIMul (variantDIFromDec pDecLeft) (variantDIFromDec pDecRight)
  if mulresult then .error .overflow
  else if di.scale ≤ 28 then .ok (variantDecFromDI di)
  else
    let (excess, bitsnum, _) := scaleDown 0 (di.scale.toNat - 28) di.bitsnum 0
    .ok (variantDecFromDI (if excess > 0 then ⟨bitsnum, 0, false⟩ else ⟨bitsnum, 28, di.sign⟩))

/-! ### The rows -/

theorem value_halves {n : Nat} (small : n < 2 ^ 64) :
    (halves n).1.toNat + 2 ^ 32 * (halves n).2.toNat = n := by
  simp only [halves, UInt32.toNat_ofNat']
  omega

theorem mod_words (word : UInt32) (n count : Nat) :
    (word.toNat + 2 ^ 32 * n) % 2 ^ (32 * (count + 1)) = word.toNat + 2 ^ 32 * (n % 2 ^ (32 * count)) := by
  rw [Nat.mul_succ, Nat.add_comm (32 * count), Nat.pow_add, Nat.mod_mul, Nat.add_mul_mod_self_left,
    Nat.mod_eq_of_lt word.toNat_lt, Nat.add_mul_div_left _ _ (by decide), Nat.div_eq_of_lt word.toNat_lt,
    Nat.zero_add]

/-- The words have a number, as far as it fits into so many of them. -/
def Hold (words : List UInt32) (count n : Nat) : Prop :=
  words.length = count ∧ value words = n % 2 ^ (32 * count)

theorem hold_value (words : List UInt32) : Hold words words.length (value words) := by
  refine ⟨rfl, ?_⟩
  induction words with
  | nil => rfl
  | cons word words ih => rw [value, length_cons, mod_words, ← ih]

variable {running b a words : List UInt32} {count n more : Nat} {next : List UInt32 → List UInt32}

theorem Hold.cons (word : UInt32) (hold : Hold words count n) :
    Hold (word :: words) (count + 1) (word.toNat + 2 ^ 32 * n) := by
  rw [Hold, value, hold.2, mod_words, length_cons, hold.1]
  exact ⟨rfl, rfl⟩

/-- The words behind the first one go on from the number so far. -/
theorem Hold.behind (hold : Hold words (count + 1) n)
    (goes : ∀ rest : List UInt32, rest.length = count → Hold (next rest) count (value rest + more)) :
    Hold (behind next words) (count + 1) (n + 2 ^ 32 * more) := by
  obtain ⟨length, sofar⟩ := hold
  cases words with
  | nil => nomatch length
  | cons first rest =>
    obtain ⟨length', total⟩ := (goes rest (Nat.succ.inj length)).cons first
    rw [Nat.mul_add, ← Nat.add_assoc, ← value, sofar, Nat.mod_add_mod] at total
    exact ⟨length', total⟩

theorem addCarry_holds (words : List UInt32) (word : UInt32) :
    Hold (addCarry words word) words.length (value words + word.toNat) := by
  induction words generalizing word with
  | nil => exact ⟨rfl, (Nat.mod_one _).symm⟩
  | cons head words ih =>
    have := head.toNat_lt
    have := word.toNat_lt
    have sum := @value_halves (head.toNat + 0 + word.toNat) (by omega)
    rw [addCarry, variantAdd, UInt32.toNat_zero]
    generalize halves (head.toNat + 0 + word.toNat) = out at sum ⊢
    have whole : value (head :: words) + word.toNat = out.1.toNat + 2 ^ 32 * (value words + out.2.toNat) := by
      rw [value]
      omega
    rw [whole]
    refine Hold.cons _ ?_
    split
    · rename_i zero
      rw [zero]
      exact hold_value words
    · exact ih out.2

/-- **One row**: what is carried out of its last word is not added. -/
theorem mulRow_holds (digit overflow : UInt32) (length : running.length = count) (room : b.length ≤ count) :
    Hold (mulRow digit running b overflow) count
      (value running + (digit.toNat * value b + overflow.toNat) % 2 ^ (32 * b.length)) := by
  induction b generalizing running overflow count with
  | nil =>
    rw [length_nil, Nat.mul_zero, Nat.pow_zero, Nat.mod_one]
    exact length ▸ hold_value running
  | cons word b ih =>
    have product : word.toNat * digit.toNat ≤ (2 ^ 32 - 1) * (2 ^ 32 - 1) :=
      Nat.mul_le_mul (Nat.le_pred_of_lt word.toNat_lt) (Nat.le_pred_of_lt digit.toNat_lt)
    have := overflow.toNat_lt
    have sum := @value_halves (word.toNat * digit.toNat + overflow.toNat) (by omega)
    rw [mulRow, variantMul]
    generalize halves (word.toNat * digit.toNat + overflow.toNat) = out at sum ⊢
    have whole : digit.toNat * value (word :: b) + overflow.toNat =
        out.1.toNat + 2 ^ 32 * (digit.toNat * value b + out.2.toNat) := by
      rw [value, Nat.mul_add, Nat.mul_left_comm, Nat.mul_comm digit.toNat word.toNat]
      omega
    rw [whole, length_cons, mod_words, ← Nat.add_assoc]
    cases count with
    | zero => nomatch room
    | succ count =>
      have sofar := length ▸ addCarry_holds running out.1
      exact sofar.behind fun rest same => ih out.2 same (Nat.le_of_succ_le_succ room)

/-- What the rows add up to: each is cut to the words of `b`. -/
def kept (b : List UInt32) : List UInt32 → Nat
  | [] => 0
  | digit :: digits => digit.toNat * value b % 2 ^ (32 * b.length) + 2 ^ 32 * kept b digits

theorem intIszero_iff (words : List UInt32) : intIszero words ↔ value words = 0 := by
  induction words with
  | nil => simp [intIszero, value]
  | cons word words ih =>
    rw [intIszero, all_cons, Bool.and_eq_true, ← intIszero, ih, value, decide_eq_true_iff, ← UInt32.toNat_inj,
      UInt32.toNat_zero]
    omega

theorem kept_le : kept b a ≤ value a * value b := by
  induction a with
  | nil => exact Nat.zero_le _
  | cons digit a ih =>
    rw [kept, value, Nat.add_mul, Nat.mul_assoc]
    exact Nat.add_le_add (Nat.mod_le _ _) (Nat.mul_le_mul_left _ ih)

/-- **The rows of a product.** -/
theorem mulRows_holds (length : running.length = count) (room : b.length + a.length ≤ count) :
    Hold (mulRows b running a) count (value running + kept b a) := by
  induction a generalizing running count with
  | nil => exact length ▸ hold_value running
  | cons digit a ih =>
    rw [mulRows]
    split
    · rename_i zero
      have none := @kept_le b (digit :: a)
      rw [(intIszero_iff _).mp zero, Nat.zero_mul, Nat.le_zero] at none
      rw [none]
      exact length ▸ hold_value running
    · have sofar := mulRow_holds digit 0 length (Nat.le_of_add_right_le room)
      rw [UInt32.toNat_zero, Nat.add_zero (_ * _)] at sofar
      rw [kept, ← Nat.add_assoc]
      cases count with
      | zero => nomatch room
      | succ count => exact sofar.behind fun rest same => ih same (Nat.le_of_succ_le_succ room)

theorem kept_eq (small : value a * value b < 2 ^ (32 * b.length)) : kept b a = value a * value b := by
  induction a with
  | nil => rw [kept, value, Nat.zero_mul]
  | cons digit a ih =>
    rw [value, Nat.add_mul, Nat.mul_assoc] at small ⊢
    rw [kept, Nat.mod_eq_of_lt (by omega), ih (by omega)]

/-! ### Products of integers -/

/-- The value of a decimal of scale 0. -/
def Decimal.toInt (dec : Decimal) : Int := if dec.sign ≠ 0 then -(value dec.words) else value dec.words

/-- What is expected of a product of integers. -/
def Right (product : Int) (out : Except Status Decimal) : Prop :=
  if product.natAbs < 2 ^ 96 then ∃ dec, out = .ok dec ∧ dec.scale = 0 ∧ dec.toInt = product
  else out = .error .overflow

theorem value_lt (a b c : UInt32) : value [a, b, c] < 2 ^ 96 := by
  rw [(hold_value _).2]
  exact Nat.mod_lt _ (Nat.two_pow_pos _)

/-- Without scales the upper three words decide. -/
theorem varDecMul_eq {l r : Decimal} {a b c d e f : UInt32} (left : l.scale = 0) (right : r.scale = 0)
    (nonzero : ¬ intIszero l.words) (total : mulRows r.words (replicate 6 0) l.words = [a, b, c, d, e, f]) :
    varDecMul l r = if intIszero [d, e, f] then
      .ok ⟨0, if (l.sign ≠ 0) ^^ (r.sign ≠ 0) then 0x80 else 0, a, b, c⟩ else .error .overflow := by
  simp only [varDecMul, variantDIMul, variantDIFromDec, left, right, nonzero, total]
  cases above : intIszero [d, e, f] <;> simp [scaleDown, above, variantDecFromDI]

theorem right_varDecMul_iff {l r : Decimal} (left : l.scale = 0) (right : r.scale = 0) :
    Right (l.toInt * r.toInt) (varDecMul l r) ↔
      (l.toInt * r.toInt).natAbs < 2 ^ 96 ∨ 2 ^ 96 ≤ kept r.words l.words := by
  have natAbs : (l.toInt * r.toInt).natAbs = value l.words * value r.words := by
    rw [Int.natAbs_mul, Decimal.toInt, Decimal.toInt]
    split <;> split <;> simp
  have room : value l.words * value r.words < 2 ^ (32 * 6) :=
    show _ < 2 ^ 96 * 2 ^ 96 from Nat.mul_lt_mul'' (value_lt ..) (value_lt ..)
  obtain ⟨length, sum⟩ := @mulRows_holds (replicate 6 0) r.words l.words 6 rfl (Nat.le_refl 6)
  rw [show value (replicate 6 0) = 0 by decide, Nat.zero_add,
    Nat.mod_eq_of_lt (Nat.lt_of_le_of_lt kept_le room)] at sum
  rw [Right, natAbs]
  by_cases zero : intIszero l.words
  · have none := (intIszero_iff _).mp zero
    have out : varDecMul l r = .ok ⟨0, 0, 0, 0, 0⟩ := by
      simp [varDecMul, variantDIMul, variantDIFromDec, zero, variantDecFromDI]
    have null : l.toInt = 0 := by simp [Decimal.toInt, none]
    rw [out, none, Nat.zero_mul, if_pos (by decide), null, Int.zero_mul]
    exact iff_of_true ⟨_, rfl, rfl, rfl⟩ (.inl (by decide))
  match isTotal : mulRows r.words (replicate 6 0) l.words, length with
  | [a, b, c, d, e, f], _ =>
    have low := value_lt a b c
    have total : value [a, b, c] + 2 ^ 96 * value [d, e, f] = kept r.words l.words := by
      rw [← sum, isTotal]
      simp only [value]
      omega
    rw [varDecMul_eq left right zero isTotal]
    by_cases small : value l.words * value r.words < 2 ^ 96
    · rw [kept_eq small] at total
      rw [if_pos small, if_pos ((intIszero_iff _).mpr (by omega))]
      refine iff_of_true ⟨_, rfl, rfl, ?_⟩ (.inl small)
      have exact : value [a, b, c] = value l.words * value r.words := by omega
      simp only [Decimal.toInt]
      by_cases l.sign = 0 <;> by_cases r.sign = 0 <;>
        simp [*, show Decimal.words ⟨_, _, a, b, c⟩ = [a, b, c] from rfl]
    · rw [if_neg small, or_iff_right small, ← total]
      by_cases above : intIszero [d, e, f]
      · rw [if_pos above, (intIszero_iff _).mp above]
        exact iff_of_false nofun (by omega)
      · rw [if_neg above]
        rw [intIszero_iff] at above
        exact iff_of_true rfl (by omega)

/-- **Products of integers** come out right in both orders exactly when they fit, or when neither order loses
    what makes them too large. -/
theorem varDecMul_iff (l r : Decimal) (integers : l.scale = 0 ∧ r.scale = 0) :
    (Right (l.toInt * r.toInt) (varDecMul l r) ∧ Right (l.toInt * r.toInt) (varDecMul r l)) ↔
      (l.toInt * r.toInt).natAbs < 2 ^ 96 ∨ 2 ^ 96 ≤ kept r.words l.words ∧ 2 ^ 96 ≤ kept l.words r.words := by
  rw [right_varDecMul_iff integers.1 integers.2, Int.mul_comm, right_varDecMul_iff integers.2 integers.1,
    or_and_left]

theorem varDecMul_six : Right (2 * -3) (varDecMul ⟨0, 0, 2, 0, 0⟩ ⟨0, 0x80, 3, 0, 0⟩) :=
  ((varDecMul_iff ⟨0, 0, 2, 0, 0⟩ ⟨0, 0x80, 3, 0, 0⟩ (by decide)).mpr (.inl (by decide))).1

/-- Twice `2^95` is 0, but `2^95` times 2 overflows. -/
theorem varDecMul_asymmetric : (varDecMul ⟨0, 0, 2, 0, 0⟩ ⟨0, 0, 0, 0, 0x80000000⟩ = .ok ⟨0, 0, 0, 0, 0⟩) ∧
    varDecMul ⟨0, 0, 0, 0, 0x80000000⟩ ⟨0, 0, 2, 0, 0⟩ = .error .overflow := by
  decide

end FreeWindows.Oleaut
