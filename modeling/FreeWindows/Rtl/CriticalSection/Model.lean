/-
**Critical sections.**

An `RTL_CRITICAL_SECTION` counts in `LockCount` its owner, as often as it has entered, and the threads that
wait for it, starting with -1. A thread that leaves while others wait hands the section over: it sets
`LockSemaphore` to 1 and wakes up one thread, and the next thread that finds 1 there sets it back to 0 and
is the owner. If `LockSemaphore` is the handle of a semaphore, then its count takes the place of that word.

Threads run interleaved, one access to a field at a time. A wait ends when it times out, and is then made
again.
-/

import FreeWindows.Lib.Bits
import FreeWindows.Rtl.Futex

namespace FreeWindows.Rtl.CriticalSection

open Lib Futex

/-- `RTL_CRITICAL_SECTION`. The semaphore is `LockSemaphore` itself, or the count of the semaphore that it
is a handle of. -/
structure Crit (ι : Type) where
  lockCount : Int
  recursionCount : Int
  owningThread : Option ι
  handle : Bool
  semaphore : Nat
  spinCount : Nat
deriving DecidableEq, Repr

/-- Where a thread is. The first group of places is `RtlEnterCriticalSection`, the second one
`RtlTryEnterCriticalSection`, which the former calls if it is going to spin. -/
inductive Pc (ι : Type)
  | idle
  | entering
  | spinning (count : Nat)
  | spinReading (count : Nat)
  | spinExchanging (count : Nat)
  | incrementing
  | comparing
  | taking
  | waiting (pc : WaitPc)
  | blocked
  | trying (spins : Bool)
  | tryComparing (spins : Bool)
  | tryIncrementing
  | owning
  | starting
  | recursing
  | recursed (old : Int)
  | leaving
  | left (old : Int)
  | testing
  | unnesting
  | clearing
  | decrementing
  | unwaiting
  | waking (pc : WakePc ι)
deriving DecidableEq, Repr

/-- A thread, with the number of times that it has entered and not left. -/
structure Thread (ι : Type) where
  pc : Pc ι
  enters : Nat
deriving DecidableEq, Repr

structure State (ι : Type) where
  crit : Crit ι
  queue : Queue ι Unit
  threads : ι → Thread ι

/-- `RtlRaiseStatus`. -/
inductive Raised
  | semaphoreLimitExceeded
deriving DecidableEq, Repr

namespace State

variable {ι : Type} [DecidableEq ι] (s : State ι)

/-- The step of one thread: the section and the thread after it. -/
def set (t : ι) (crit : Crit ι) (pc : Pc ι) (enters : Nat) : State ι :=
  { s with crit := crit, threads := Function.update s.threads t ⟨pc, enters⟩ }

/-- A thread that waits goes to the semaphore, or to the word (`wait_semaphore`). -/
def waitPc : Pc ι := if s.crit.handle then .blocked else .taking

/-- What a thread does next. -/
def run (t : ι) : Except Raised (State ι) :=
  let crit := s.crit
  let enters := (s.threads t).enters
  match (s.threads t).pc with
  | .idle => .ok s
  | .entering => .ok (s.set t crit (if crit.spinCount ≠ 0 then .trying true else .incrementing) enters)
  | .spinning count =>
    if count = 0 ∨ crit.lockCount > 0 then .ok (s.set t crit .incrementing enters)
    else .ok (s.set t crit (.spinReading count) enters)
  | .spinReading count =>
    if crit.lockCount = -1 then .ok (s.set t crit (.spinExchanging count) enters)
    else .ok (s.set t crit (.spinning (count - 1)) enters)
  | .spinExchanging count =>
    if crit.lockCount = -1 then .ok (s.set t { crit with lockCount := 0 } .owning enters)
    else .ok (s.set t crit (.spinning (count - 1)) enters)
  | .incrementing =>
    let lockCount := int32 (crit.lockCount + 1)
    .ok (s.set t { crit with lockCount := lockCount } (if lockCount = 0 then .owning else .comparing) enters)
  | .comparing =>
    .ok (s.set t crit (if crit.owningThread = some t then .recursing else s.waitPc) enters)
  | .taking =>
    if crit.semaphore = 1 then .ok (s.set t { crit with semaphore := 0 } .owning enters)
    else .ok (s.set t crit (.waiting .locking) enters)
  | .waiting pc =>
    match s.queue.run t (crit.semaphore = 0) (.waits () pc) with
    | (queue, .waits _ pc) => .ok ({ s with queue := queue }.set t crit (.waiting pc) enters)
    | (queue, _) => .ok ({ s with queue := queue }.set t crit .taking enters)
  | .blocked =>
    if 0 < crit.semaphore then .ok (s.set t { crit with semaphore := crit.semaphore - 1 } .owning enters)
    else .ok s
  | .trying spins =>
    if crit.lockCount = -1 then .ok (s.set t { crit with lockCount := 0 } .owning enters)
    else .ok (s.set t crit (.tryComparing spins) enters)
  | .tryComparing spins =>
    if crit.owningThread = some t then .ok (s.set t crit .tryIncrementing enters)
    else .ok (s.set t crit (if spins then .spinning crit.spinCount else .idle) enters)
  | .tryIncrementing =>
    .ok (s.set t { crit with lockCount := int32 (crit.lockCount + 1) } .recursing enters)
  | .owning => .ok (s.set t { crit with owningThread := some t } .starting enters)
  | .starting => .ok (s.set t { crit with recursionCount := 1 } .idle (enters + 1))
  | .recursing => .ok (s.set t crit (.recursed crit.recursionCount) enters)
  | .recursed old => .ok (s.set t { crit with recursionCount := int32 (old + 1) } .idle (enters + 1))
  | .leaving => .ok (s.set t crit (.left crit.recursionCount) enters)
  | .left old =>
    let recursionCount := int32 (old - 1)
    .ok (s.set t { crit with recursionCount := recursionCount }
      (if recursionCount ≠ 0 then .testing else .clearing) (enters - 1))
  | .testing => .ok (s.set t crit (if crit.recursionCount > 0 then .unnesting else .idle) enters)
  | .unnesting => .ok (s.set t { crit with lockCount := int32 (crit.lockCount - 1) } .idle enters)
  | .clearing => .ok (s.set t { crit with owningThread := none } .decrementing enters)
  | .decrementing =>
    let lockCount := int32 (crit.lockCount - 1)
    .ok (s.set t { crit with lockCount := lockCount } (if lockCount ≥ 0 then .unwaiting else .idle) enters)
  | .unwaiting =>
    if crit.handle then
      -- the semaphores of critical sections have the maximal count 1
      if crit.semaphore + 1 > 1 then .error .semaphoreLimitExceeded
      else .ok (s.set t { crit with semaphore := crit.semaphore + 1 } .idle enters)
    else .ok (s.set t { crit with semaphore := 1 } (.waking .locking) enters)
  | .waking pc =>
    match s.queue.run t false (.wakes () false pc) with
    | (queue, .wakes _ _ pc) => .ok ({ s with queue := queue }.set t crit (.waking pc) enters)
    | (queue, _) => .ok ({ s with queue := queue }.set t crit .idle enters)

end State

inductive Action (ι : Type)
  | enter (t : ι)
  | tryEnter (t : ι)
  | leave (t : ι)
  | run (t : ι)
  | timeout (t : ι)

/-- A thread calls one of the functions when it is in none of them, and leaves if it has entered. -/
def State.step {ι : Type} [DecidableEq ι] (s : State ι) : Action ι → Except Raised (State ι)
  | .enter t =>
    if (s.threads t).pc = .idle then .ok (s.set t s.crit .entering (s.threads t).enters) else .ok s
  | .tryEnter t =>
    if (s.threads t).pc = .idle then .ok (s.set t s.crit (.trying false) (s.threads t).enters) else .ok s
  | .leave t =>
    if (s.threads t).pc = .idle ∧ 0 < (s.threads t).enters then
      .ok (s.set t s.crit .leaving (s.threads t).enters)
    else .ok s
  | .run t => s.run t
  | .timeout t =>
    if (s.threads t).pc = .waiting .sleeping then
      .ok (s.set t s.crit (.waiting (.checking true)) (s.threads t).enters)
    else .ok s

/-- `RtlInitializeCriticalSectionEx`, and threads that have not called anything. -/
def initializeCriticalSection (ι : Type) (spinCount : Nat) (handle : Bool) : State ι where
  crit := ⟨-1, 0, none, handle, 0, spinCount⟩
  queue := ⟨none, [], fun _ => false⟩
  threads := fun _ => ⟨.idle, 0⟩

end FreeWindows.Rtl.CriticalSection
