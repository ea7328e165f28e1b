/-
**File names and masks** (`ntdll/unix/file.c`).

`match_filename_part` compares a name with the mask of a directory search. It goes along both, and calls
itself for every place of the name where the rest of the mask behind a `*` or a `<` may start. If the rest
starts with an ordinary character, the places with another one are left out.

`matchFilenamePart_iff`: with `*`, `?` and ordinary characters this is the usual meaning of a mask (`Glob`).
The search is not case sensitive: `is_case_sensitive` is a constant.
-/

import Mathlib

namespace FreeWindows.File

open List

/-- A UTF-16 unit of a file name. -/
abbrev WChar := UInt16

def unit (c : Char) : WChar := UInt16.ofNat c.toNat

/-- `is_wildcard`. -/
def isWildcard (c : WChar) : Bool :=
  c = unit '*' ∨ c = unit '?' ∨ c = unit '>' ∨ c = unit '<' ∨ c = unit '"'

/-- The character that a mask asks for. -/
def asked (m : WChar) : WChar := if m = unit '"' then unit '.' else m

/-- What the end of a name may leave of a mask. -/
def atEnd (mask : List WChar) : Bool :=
  mask.dropWhile (fun m => m = unit '*' ∨ m = unit '<' ∨ m = unit '"' ∨ m = unit '>') = []

section

variable (towupper : WChar → WChar)

/-- The loop over the candidates of a name up to `after`, for a mask that goes on with `m` and that `part`
matches: `none` when one of them matches, and otherwise whether the name was left one past `after`. -/
def candidates (part : List WChar → Bool) (m : WChar) : (segment after : List WChar) → Option Bool
  | [], _ => some false
  | x :: segment, after =>
    if !isWildcard (asked m) && towupper x ≠ towupper (asked m) then
      -- the inner loop goes on to the next character, and the mask is tried where that loop ends
      if segment = [] then if part after then none else some true
      else candidates part m segment after
    else if part (x :: segment ++ after) then none
    else candidates part m segment after

/-- The loop of a `<`: `none` when the rest of the mask matches, and otherwise the name that is left. -/
def dosStar (part : List WChar → Bool) (mask : List WChar) (hadDot : Bool) (name : List WChar) :
    Option (List WChar) :=
  match _rest : name.dropWhile (· ≠ unit '.') with
  | [] =>
    if hadDot then some name
    else match mask with
      | [] => some []
      | m :: _ => if candidates towupper part m name [] = none then none else some []
  | dot :: after =>
    let next := dosStar part mask true after
    match mask with
    | [] => next
    | m :: _ =>
      if candidates towupper part m (name.takeWhile (· ≠ unit '.') ++ [dot]) after = none then none
      else next
termination_by name.length
decreasing_by
  have shorter : _ ≤ name.length := (dropWhile_suffix (· ≠ unit '.')).length_le
  rwa [_rest] at shorter

/-- `match_filename_part`. -/
def matchFilenamePart : (name mask : List WChar) → Bool
  | [], mask => atEnd mask
  | _ :: _, [] => false
  | x :: name, m :: mask =>
    if m = unit '*' then
      let rest := mask.dropWhile (· = unit '*')
      match rest.head? with
      | none => true
      | some next =>
        match candidates towupper (fun name => matchFilenamePart name rest) next (x :: name) [] with
        | none => true
        | some past => !past && atEnd rest
    else if m = unit '<' then
      match dosStar towupper (fun name => matchFilenamePart name mask) mask false (x :: name) with
      | none => true
      | some name => matchFilenamePart name mask
    else if m = unit '?' then matchFilenamePart name mask
    else if m = unit '>' then
      if x = unit '.' then
        let rest := mask.dropWhile (· = unit '>')
        matchFilenamePart (if rest = [] then name else x :: name) rest
      else matchFilenamePart name mask
    else if towupper (asked m) = towupper x then matchFilenamePart name mask
    else false
termination_by _ mask => mask.length
decreasing_by
  all_goals first
    | exact Nat.lt_succ_self _
    | exact Nat.lt_succ_of_le (dropWhile_suffix _).length_le

/-- What a mask of ordinary characters, `*` and `?` means. -/
def Glob : (mask name : List WChar) → Prop
  | [], name => name = []
  | m :: mask, name =>
    if m = unit '*' then ∃ rest, rest <:+ name ∧ Glob mask rest
    else ∃ x rest, name = x :: rest ∧ (m = unit '?' ∨ towupper m = towupper x) ∧ Glob mask rest

variable {towupper} {mask name : List WChar}

theorem glob_nil_iff : Glob towupper mask [] ↔ ∀ m ∈ mask, m = unit '*' := by
  induction mask with
  | nil => simp [Glob]
  | cons m mask ih => by_cases star : m = unit '*' <;> simp [Glob, star, ih]

theorem glob_cons_iff {m x : WChar} (other : m ≠ unit '*') : Glob towupper (m :: mask) (x :: name) ↔
    (m = unit '?' ∨ towupper m = towupper x) ∧ Glob towupper mask name := by
  simp [Glob, other]

/-- Several stars in a row mean what one of them means. -/
theorem glob_star_iff : Glob towupper (unit '*' :: mask) name ↔
    ∃ rest, rest <:+ name ∧ Glob towupper (mask.dropWhile (· = unit '*')) rest := by
  induction mask generalizing name with
  | nil => rfl
  | cons m mask ih =>
    rw [Glob, if_pos rfl]
    by_cases star : m = unit '*'
    · rw [dropWhile_cons_of_pos (by simpa using star), star]
      constructor
      · rintro ⟨rest, suffix, glob⟩
        obtain ⟨last, shorter, glob⟩ := ih.mp glob
        exact ⟨last, shorter.trans suffix, glob⟩
      · rintro ⟨rest, suffix, glob⟩
        exact ⟨rest, suffix, ih.mpr ⟨rest, suffix_rfl, glob⟩⟩
    · rw [dropWhile_cons_of_neg (by simpa using star)]

/-- The loop over the candidates finds every end of the name that matches, if no character that it skips
starts a match and the mask does not match at the end of the name. -/
theorem candidates_eq_none_iff {part : List WChar → Bool} {m : WChar} (nonempty : part [] = false)
    (agree : ∀ {x rest}, part (x :: rest) = true → isWildcard (asked m) ∨ towupper x = towupper (asked m)) :
    candidates towupper part m name [] = none ↔ ∃ rest, rest <:+ name ∧ part rest = true := by
  induction name with
  | nil => simp [candidates, nonempty]
  | cons x name ih =>
    simp only [suffix_cons_iff, or_and_right, exists_or, exists_eq_left, ← ih]
    rw [candidates, append_nil]
    split
    case isTrue skipped =>
      have other : part (x :: name) = false := by
        by_contra found
        have := agree (by simpa using found)
        grind
      cases name <;> simp [candidates, nonempty, other]
    case isFalse => cases part (x :: name) <;> simp

/-- A mask without the DOS wildcards. -/
def Plain (mask : List WChar) : Prop := ∀ m ∈ mask, m ≠ unit '<' ∧ m ≠ unit '>' ∧ m ≠ unit '"'

theorem atEnd_iff (plain : Plain mask) : atEnd mask = true ↔ ∀ m ∈ mask, m = unit '*' := by
  rw [atEnd, decide_eq_true_iff, dropWhile_eq_nil_iff]
  refine forall₂_congr fun m mem => ?_
  obtain ⟨less, greater, quote⟩ := plain m mem
  simp [less, greater, quote]

/-- The loop of a `*` decides the mask behind it, `m :: mask`, at every end of the name. -/
theorem candidates_iff_glob {m : WChar} (plain : Plain (m :: mask)) (other : m ≠ unit '*')
    (part : ∀ name, matchFilenamePart towupper name (m :: mask) = true ↔ Glob towupper (m :: mask) name) :
    candidates towupper (matchFilenamePart towupper · (m :: mask)) m name [] = none ↔
      ∃ rest, rest <:+ name ∧ Glob towupper (m :: mask) rest := by
  rw [candidates_eq_none_iff]
  · simp only [part]
  · rw [Bool.eq_false_iff, ne_eq, part, glob_nil_iff]
    exact fun stars => other (stars m (.head _))
  · intro x rest found
    have same : asked m = m := if_neg (plain m (.head _)).2.2
    rw [same]
    refine ((glob_cons_iff other).mp ((part _).mp found)).1.imp ?_ Eq.symm
    rintro rfl
    decide

/-- **A mask of ordinary characters, `*` and `?` matches as a glob.** -/
theorem matchFilenamePart_iff (towupper : WChar → WChar) (name mask : List WChar) (plain : Plain mask) :
    matchFilenamePart towupper name mask = true ↔ Glob towupper mask name := by
  induction length : mask.length using Nat.strong_induction_on generalizing name mask with
  | _ n ih =>
  subst length
  cases name with
  | nil => rw [matchFilenamePart, atEnd_iff plain, glob_nil_iff]
  | cons x name =>
  cases mask with
  | nil => simp [matchFilenamePart, Glob]
  | cons m mask =>
    have shorter : ∀ rest, rest <:+ mask → ∀ name,
        matchFilenamePart towupper name rest = true ↔ Glob towupper rest name := fun rest suffix name =>
      ih _ (Nat.lt_succ_of_le suffix.length_le) name rest (fun m mem => plain m (.tail _ (suffix.mem mem))) rfl
    obtain ⟨less, greater, quote⟩ := plain m (.head _)
    rw [matchFilenamePart]
    by_cases star : m = unit '*'
    · rw [if_pos star, star, glob_star_iff]
      have suffix := dropWhile_suffix (· = unit '*') (l := mask)
      have first := head?_dropWhile_not (· = unit '*') mask
      cases rest : mask.dropWhile (· = unit '*') with
      | nil => simp [Glob]
      | cons next rest' =>
        rw [rest] at suffix first
        have plain' : Plain (next :: rest') := fun m mem => plain m (.tail _ (suffix.mem mem))
        have other : next ≠ unit '*' := by simpa using first
        have left : atEnd (next :: rest') = false := by
          rw [Bool.eq_false_iff, ne_eq, atEnd_iff plain']
          exact fun stars => other (stars next (.head _))
        rw [← candidates_iff_glob plain' other (shorter _ suffix)]
        simp only [head?_cons, left]
        cases candidates towupper (matchFilenamePart towupper · (next :: rest')) next (x :: name) [] <;> simp
    · rw [if_neg star, if_neg less, glob_cons_iff star, ← shorter mask suffix_rfl, asked, if_neg quote,
        if_neg greater]
      by_cases any : m = unit '?' <;> simp [any]

/-- `*b` matches `AB`: the star skips the `A`, and the case of the other letter does not count. -/
theorem matchFilenamePart_upper :
    matchFilenamePart (fun c => if 97 ≤ c then c - 32 else c) [unit 'A', unit 'B'] [unit '*', unit 'b'] = true :=
  (matchFilenamePart_iff _ _ _ (by simp [Plain]; decide)).mpr
    ⟨[unit 'B'], ⟨[unit 'A'], rfl⟩, (glob_cons_iff (by decide)).mpr ⟨by decide, rfl⟩⟩

end

end FreeWindows.File
