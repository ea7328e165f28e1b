/-
**The stack in memory.**

The links in memory lead from the header through the entries of the stack (`Inv.chain`), and `Fits` says
what is known about a thread at the place where it is. The sequence number matters to a thread that is about
to pop an entry (`Ready`): as long as the header has not been changed since the thread read the sequence
number, the link that it read is the one of the first entry.
-/

import FreeWindows.Rtl.SList.Model

namespace FreeWindows.Rtl.SList

open Lib Function List

/-! ### Links -/

/-- The links lead from `p` through the entries to `q`. -/
def Path (memory : Nat → Option Nat) : (p : Nat) → List Nat → (q : Nat) → Prop
  | p, [], q => p = q
  | p, entry :: rest, q => p = entry ∧ ∃ link, memory entry = some link ∧ Path memory link rest q

instance Path.decidable (memory : Nat → Option Nat) (q : Nat) :
    (p : Nat) → (entries : List Nat) → Decidable (Path memory p entries q)
  | p, [] => inferInstanceAs (Decidable (p = q))
  | p, entry :: rest =>
    match linked : memory entry with
    | none => isFalse fun path => by
        obtain ⟨-, link, also, -⟩ := path
        rw [linked] at also
        nomatch also
    | some link =>
      haveI := Path.decidable memory q link rest
      decidable_of_iff (p = entry ∧ Path memory link rest q) <| by
        refine and_congr_right fun _ => ⟨fun path => ⟨link, linked, path⟩, ?_⟩
        rintro ⟨other, also, path⟩
        cases linked.symm.trans also
        exact path

section Links

variable {memory memory' : Nat → Option Nat} {p q r : Nat} {entries more : List Nat}
  (path : Path memory p entries q)
include path

theorem Path.congr (same : ∀ entry ∈ entries, memory' entry = memory entry) :
    Path memory' p entries q := by
  induction entries generalizing p with
  | nil => exact path
  | cons entry rest ih =>
    obtain ⟨start, link, linked, later⟩ := path
    refine ⟨start, link, (same entry mem_cons_self).trans linked, ih later fun a member => ?_⟩
    exact same a (mem_cons_of_mem _ member)

theorem Path.append (later : Path memory q more r) : Path memory p (entries ++ more) r := by
  induction entries generalizing p with
  | nil =>
    cases path
    exact later
  | cons entry rest ih =>
    obtain ⟨start, link, linked, middle⟩ := path
    exact ⟨start, link, linked, ih middle⟩

theorem Path.head : p = entries.headD q := by
  cases entries with
  | nil => exact path
  | cons entry rest => exact path.1

end Links

/-! ### The invariant -/

/-- The entries of a thread: those that it pushes, and those that it got. -/
def held : Object.Status Op Outcome → List Nat
  | .idle => []
  | .called op => op.entries
  | .committed _ outcome => outcome.obtained

namespace State

variable {ι : Type} [DecidableEq ι] (s : State ι)

/-- The entries on the list. -/
def stack : List Nat := stackObject.state s.log

def status (t : ι) : Object.Status Op Outcome := stackObject.status t s.log

/-- The program can do with the entry what it likes. -/
def Free (entry : Nat) : Prop := entry ∉ s.stack ∧ ∀ t, entry ∉ held (s.status t)

end State

section Invariant

variable {ι : Type} [DecidableEq ι]

/-- The thread has called the operation, and it has taken effect if it is a pop without a first entry. -/
def Begun (s : State ι) (t : ι) (op : Op) (next : Nat) : Prop :=
  s.status t = if op = .pop ∧ next = 0 then .committed .pop ⟨0, []⟩ else .called op

/-- The sequence number was read when the header had had a number of changes. -/
def Seen (bits : Nat) (s : State ι) (sequence seen : Nat) : Prop :=
  sequence = seen % 2 ^ bits ∧ seen ≤ s.changes

/-- The new header is the right one. -/
def Ready (bits : Nat) (s : State ι) (new old : Header) (seen : Nat) : Op → Prop
  | .push front last => new = pushHeader bits old front last ∧ s.memory last = some old.next
  | .pop => old.next ≠ 0 ∧ (s.changes = seen → s.header = old →
      ∃ next, s.memory old.next = some next ∧ new = popHeader bits old next)
  | .flush => new = flushHeader bits old

def Fits (bits : Nat) (s : State ι) (t : ι) : Pc → Prop
  | .idle => s.status t = .idle
  | .checking => s.status t = .called .flush
  | .reading op _ => s.status t = .called op
  | .readingRest op _ next => Begun s t op next
  | .readingNext op _ _ sequence seen => s.status t = .called op ∧ Seen bits s sequence seen
  | .preparing op _ old seen => Begun s t op old.next ∧ Seen bits s old.sequence seen
  | .exchanging op new old seen =>
    s.status t = .called op ∧ Seen bits s old.sequence seen ∧ Ready bits s new old seen op
  | .returning pointer => ∃ op outcome, s.status t = .committed op outcome ∧ outcome.pointer = pointer ∧
      (op = .flush → Path s.memory pointer outcome.obtained 0)

structure Inv (bits : Nat) (s : State ι) : Prop where
  conforms : stackObject.Conforms s.log
  chain : Path s.memory s.header.next s.stack 0
  nonzero : 0 ∉ s.stack
  nodup : s.stack.Nodup
  depth : s.header.depth = s.stack.length % 2 ^ 16
  sequence : s.header.sequence = s.changes % 2 ^ bits
  apart : ∀ t, ∀ entry ∈ held (s.status t), entry ∉ s.stack
  separate : ∀ t u, ∀ entry ∈ held (s.status t), entry ∈ held (s.status u) → t = u
  pushes : ∀ t front last, s.status t = .called (.push front last) →
    (front ++ [last]).Nodup ∧ 0 ∉ front ++ [last] ∧ Path s.memory (front.headD last) front last
  fits : ∀ t, Fits bits s t (s.pcs t)

variable {bits : Nat} {s s' : State ι} {t u : ι}

/-- The header is as before, with the entries of the stack, or it was changed. -/
def Later (s s' : State ι) : Prop :=
  (s'.changes = s.changes ∧ s'.header = s.header ∧ ∀ entry ∈ s.stack, s'.memory entry = s.memory entry) ∨
    s.changes < s'.changes

omit [DecidableEq ι] in
theorem Seen.later {sequence seen : Nat} (fact : Seen bits s sequence seen) (later : Later s s') :
    Seen bits s' sequence seen := by
  refine ⟨fact.1, Nat.le_trans fact.2 ?_⟩
  obtain ⟨changes, -⟩ | more := later
  · exact Nat.le_of_eq changes.symm
  · exact Nat.le_of_lt more

/-- What is known about a thread stays true when its entries and the stack are left alone. -/
theorem Fits.frame {pc : Pc} (fits : Fits bits s u pc) (inv : Inv bits s) (status : s'.status u = s.status u)
    (memory : ∀ entry ∈ held (s.status u), s'.memory entry = s.memory entry) (later : Later s s') :
    Fits bits s' u pc := by
  cases pc with
  | idle => exact status.trans fits
  | checking => exact status.trans fits
  | reading op new => exact status.trans fits
  | readingRest op new next => exact status.trans fits
  | readingNext op new depth sequence seen => exact ⟨status.trans fits.1, fits.2.later later⟩
  | preparing op new old seen => exact ⟨status.trans fits.1, fits.2.later later⟩
  | exchanging op new old seen =>
    obtain ⟨called, fact, ready⟩ := fits
    refine ⟨status.trans called, fact.later later, ?_⟩
    cases op with
    | push front last =>
      refine ⟨ready.1, (memory last ?_).trans ready.2⟩
      rw [called]
      exact mem_append_right _ (mem_singleton_self _)
    | pop =>
      refine ⟨ready.1, fun unchanged same => ?_⟩
      obtain ⟨changes, header, stack⟩ | more := later
      · obtain ⟨next, linked, new⟩ := ready.2 (changes ▸ unchanged) (header ▸ same)
        refine ⟨next, (stack old.next ?_).trans linked, new⟩
        -- the entry is the first one of the stack
        have chain := inv.chain
        rw [← header, same] at chain
        have first := chain.head
        cases contents : s.stack with
        | nil =>
          rw [contents] at first
          exact absurd first ready.1
        | cons entry rest =>
          rw [contents] at first
          exact first ▸ mem_cons_self ..
      · have := fact.2
        omega
    | flush => exact ready
  | returning pointer =>
    obtain ⟨op, outcome, committed, answer, obtained⟩ := fits
    refine ⟨op, outcome, status.trans committed, answer,
      fun flush => (obtained flush).congr fun entry member => ?_⟩
    refine memory entry ?_
    rw [committed]
    exact member

variable {pc : Pc}

/-- A step of one thread. -/
theorem Inv.step {stack : List Nat} (inv : Inv bits s) (conforms : stackObject.Conforms s'.log)
    (state : s'.stack = stack) (chain : Path s'.memory s'.header.next stack 0) (nonzero : 0 ∉ stack)
    (nodup : stack.Nodup) (depth : s'.header.depth = stack.length % 2 ^ 16)
    (sequence : s'.header.sequence = s'.changes % 2 ^ bits) (pcs : s'.pcs = s.pcs)
    (status : ∀ u, u ≠ t → s'.status u = s.status u)
    (memory : ∀ u, u ≠ t → ∀ entry ∈ held (s.status u), s'.memory entry = s.memory entry) (later : Later s s')
    (listed : ∀ entry ∈ stack, entry ∈ s.stack ∨ entry ∈ held (s.status t))
    (own : ∀ entry ∈ held (s'.status t), entry ∉ stack ∧ ∀ u, u ≠ t → entry ∉ held (s.status u))
    (pushes : ∀ front last, s'.status t = .called (.push front last) →
      (front ++ [last]).Nodup ∧ 0 ∉ front ++ [last] ∧ Path s'.memory (front.headD last) front last)
    (fits : Fits bits s' t pc) : Inv bits (s'.goto t pc) := by
  subst state
  refine ⟨conforms, chain, nonzero, nodup, depth, sequence, ?_, ?_, ?_, ?_⟩
  · intro u entry (member : entry ∈ held (s'.status u))
    by_cases same : u = t
    · exact (own entry (same ▸ member)).1
    · rw [status u same] at member
      intro inside
      obtain before | mine := listed entry inside
      · exact inv.apart u entry member before
      · exact same (inv.separate u t entry member mine)
  · intro u v entry (first : entry ∈ held (s'.status u)) (second : entry ∈ held (s'.status v))
    by_cases one : u = t
    · by_cases two : v = t
      · rw [one, two]
      · rw [status v two] at second
        exact absurd second ((own entry (one ▸ first)).2 v two)
    · rw [status u one] at first
      by_cases two : v = t
      · exact absurd first ((own entry (two ▸ second)).2 u one)
      · rw [status v two] at second
        exact inv.separate u v entry first second
  · intro u front last called
    by_cases same : u = t
    · exact pushes front last (same ▸ called)
    · have before := (status u same).symm.trans called
      obtain ⟨distinct, some, path⟩ := inv.pushes u front last before
      refine ⟨distinct, some, path.congr fun entry member => memory u same entry ?_⟩
      rw [before]
      exact mem_append_left _ member
  · intro u
    show Fits bits s' u (update s'.pcs t pc u)
    by_cases same : u = t
    · rw [same, update_self]
      exact fits
    · rw [update_of_ne same, pcs]
      exact (inv.fits u).frame inv (status u same) (memory u same) later

theorem Inv.own (inv : Inv bits s) (entry : Nat) (member : entry ∈ held (s.status t)) :
    entry ∉ s.stack ∧ ∀ u, u ≠ t → entry ∉ held (s.status u) :=
  ⟨inv.apart t entry member, fun u different also => different (inv.separate u t entry also member)⟩

/-- A step that changes only the place of the thread. -/
theorem Inv.goto (inv : Inv bits s) (fits : Fits bits s t pc) : Inv bits (s.goto t pc) :=
  inv.step inv.conforms rfl inv.chain inv.nonzero inv.nodup inv.depth inv.sequence rfl (fun _ _ => rfl)
    (fun _ _ _ _ => rfl) (.inl ⟨rfl, rfl, fun _ _ => rfl⟩) (fun _ => .inl) inv.own (inv.pushes t) fits

end Invariant

end FreeWindows.Rtl.SList
