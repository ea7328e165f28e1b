/-
**Interlocked singly linked lists.**

An `SLIST_HEADER` has the first entry of a list, the number of entries and a sequence number, which is
incremented with every change. An operation reads the header, prepares another one, and exchanges the two if
the header is still the one that it read; otherwise it starts again.

The header is not read at once: the first entry and the rest are read one after the other, in any order.
`RtlInterlockedPopEntrySList` then reads the link of an entry that may be in use for something else, or be
gone: a page fault there is ignored, and what it would have put into the new header is left as it was.

The sequence number has 48 bits, or 16 bits on a 32-bit system. Not part of the program are the log of an
atomic stack (`Lib.Object`) and the number of changes of the header. An operation takes effect when it
exchanges the header, or when it finds that there is no first entry.
-/

import FreeWindows.Lib.Atomic

namespace FreeWindows.Rtl.SList

open Lib Function

/-- `SLIST_HEADER`. Entries are addresses, and 0 is `NULL`. -/
structure Header where
  next : Nat
  depth : Nat
  sequence : Nat
deriving DecidableEq, Repr

/-- `RtlInterlockedPushListSListEx` pushes several entries that are linked with each other up to the last
one, and `RtlInterlockedPushEntrySList` only the last one. -/
inductive Op
  | push (front : List Nat) (last : Nat)
  | pop
  | flush
deriving DecidableEq, Repr

def Op.entries : Op → List Nat
  | push front last => front ++ [last]
  | _ => []

/-! ### A stack -/

/-- What an operation returns, and the entries that the caller gets. -/
structure Outcome where
  pointer : Nat
  obtained : List Nat
deriving DecidableEq, Repr

/-- The operations on a stack: pushing returns the entry that was the first one. -/
def apply : Op → List Nat → Outcome × List Nat
  | .push front last, stack => (⟨stack.headD 0, []⟩, front ++ last :: stack)
  | .pop, [] => (⟨0, []⟩, [])
  | .pop, entry :: stack => (⟨entry, [entry]⟩, stack)
  | .flush, stack => (⟨stack.headD 0, stack⟩, [])

def stackObject : Object (List Nat) Op Outcome Nat := ⟨[], apply, Outcome.pointer⟩

abbrev Event (ι : Type) := Object.Event ι Op Nat

/-! ### The code -/

section Headers

variable (bits : Nat) (old : Header)

def pushHeader (front : List Nat) (last : Nat) : Header :=
  ⟨front.headD last, (old.depth + (front.length + 1)) % 2 ^ 16, (old.sequence + 1) % 2 ^ bits⟩

def popHeader (next : Nat) : Header := ⟨next, (old.depth + 2 ^ 16 - 1) % 2 ^ 16, (old.sequence + 1) % 2 ^ bits⟩

def flushHeader : Header := ⟨0, 0, (old.sequence + 1) % 2 ^ bits⟩

end Headers

/-- Where a thread is. From the time on when the sequence number is read, `seen` is the number of changes
that the header had by then. -/
inductive Pc
  | idle
  | checking
  | reading (op : Op) (new : Header)
  | readingRest (op : Op) (new : Header) (next : Nat)
  | readingNext (op : Op) (new : Header) (depth sequence seen : Nat)
  | preparing (op : Op) (new old : Header) (seen : Nat)
  | exchanging (op : Op) (new old : Header) (seen : Nat)
  | returning (pointer : Nat)
deriving DecidableEq, Repr

/-- The memory has the links of the entries; it is `none` where there is a page fault. -/
structure State (ι : Type) where
  header : Header
  memory : Nat → Option Nat
  pcs : ι → Pc
  changes : Nat
  log : List (Event ι)

namespace State

variable {ι : Type} [DecidableEq ι] (s : State ι)

def goto (t : ι) (pc : Pc) : State ι := { s with pcs := update s.pcs t pc }

def emit (event : Event ι) : State ι := { s with log := event :: s.log }

/-- The first entry is read. If there is none, then a pop takes effect. -/
def readNext (t : ι) (op : Op) : State ι :=
  if op = .pop ∧ s.header.next = 0 then s.emit (.committed t op) else s

/-- The new header is prepared. -/
def prepare (bits : Nat) (t : ι) (op : Op) (new old : Header) (seen : Nat) : State ι :=
  match op with
  | .push front last =>
    { s with memory := update s.memory last (some old.next) }.goto t
      (.exchanging op (pushHeader bits old front last) old seen)
  | .pop =>
    if old.next = 0 then s.goto t (.returning 0)
    else
      match s.memory old.next with
      | some next => s.goto t (.exchanging op (popHeader bits old next) old seen)
      | none => s.goto t (.exchanging op new old seen)
  | .flush => s.goto t (.exchanging op (flushHeader bits old) old seen)

/-- What a thread does next. -/
def run (bits : Nat) (t : ι) (nextFirst : Bool) : State ι :=
  match s.pcs t with
  | .idle => s
  | .checking =>
    if s.header.next = 0 then (s.emit (.committed t .flush)).goto t (.returning 0)
    else s.goto t (.reading .flush ⟨0, 0, 0⟩)
  | .reading op new =>
    if nextFirst then (s.readNext t op).goto t (.readingRest op new s.header.next)
    else s.goto t (.readingNext op new s.header.depth s.header.sequence s.changes)
  | .readingRest op new next =>
    s.goto t (.preparing op new ⟨next, s.header.depth, s.header.sequence⟩ s.changes)
  | .readingNext op new depth sequence seen =>
    (s.readNext t op).goto t (.preparing op new ⟨s.header.next, depth, sequence⟩ seen)
  | .preparing op new old seen => s.prepare bits t op new old seen
  | .exchanging op new old _ =>
    if s.header = old then
      ({ s with header := new, changes := s.changes + 1 }.emit (.committed t op)).goto t (.returning old.next)
    else s.goto t (.reading op new)
  | .returning pointer => (s.emit (.returned t pointer)).goto t .idle

end State

/-- A thread calls an operation, with whatever is on its stack for the new header, or goes on. The program
can use the memory for something else. -/
inductive Action (ι : Type)
  | call (t : ι) (op : Op) (new : Header)
  | run (t : ι) (nextFirst : Bool)
  | write (entry : Nat) (value : Option Nat)

def State.step {ι : Type} [DecidableEq ι] (bits : Nat) (s : State ι) : Action ι → Except Empty (State ι)
  | .call t op new =>
    if s.pcs t = .idle then
      .ok ((s.emit (.called t op)).goto t (if op = .flush then .checking else .reading op new))
    else .ok s
  | .run t nextFirst => .ok (s.run bits t nextFirst)
  | .write entry value => .ok { s with memory := update s.memory entry value }

/-- `RtlInitializeSListHead`. -/
def initializeSListHead (ι : Type) (memory : Nat → Option Nat) : State ι where
  header := ⟨0, 0, 0⟩
  memory := memory
  pcs := fun _ => .idle
  changes := 0
  log := []

end FreeWindows.Rtl.SList
