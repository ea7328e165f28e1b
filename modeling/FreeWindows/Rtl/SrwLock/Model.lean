/-
**Slim reader/writer locks.**

An `RTL_SRWLOCK` is one word: the number of its owners, and twice the number of the threads that wait to
have it exclusively, plus one while it is held exclusively. Threads that wait to share the lock sleep on
the whole word, the other ones on the number of owners.

Threads run interleaved, one access to the word at a time. A loop of reading and exchanging the word is
`reading` and `exchanging`; the exchange fails if the word is not the one that was read.
-/

import FreeWindows.Rtl.Futex

namespace FreeWindows.Rtl.SrwLock

open Futex

inductive Mode
  | exclusive
  | shared
deriving DecidableEq, Repr

/-- `struct srw_lock`: a short and an unsigned short. -/
structure Word where
  exclusiveWaiters : Nat
  owners : Nat
deriving DecidableEq, Repr

/-- The addresses that threads sleep on: `u.s` and `&u.s->owners`. -/
inductive Addr
  | word
  | owners
deriving DecidableEq, Repr

def Mode.addr : Mode → Addr
  | exclusive => .owners
  | shared => .word

namespace Word

variable (word : Word)

/-- The lock can be acquired. -/
def grants : Mode → Bool
  | .exclusive => word.owners = 0
  | .shared => word.exclusiveWaiters = 0

/-- `InterlockedExchangeAdd16`. -/
def announce : Word := { word with exclusiveWaiters := (word.exclusiveWaiters + 2) % 2 ^ 16 }

/-- The word that `RtlAcquireSRWLockExclusive` or `RtlAcquireSRWLockShared` puts in place. -/
def acquire : Mode → Word
  | .exclusive => ⟨(word.exclusiveWaiters + 2 ^ 16 - 2) % 2 ^ 16 ||| 1, 1⟩
  | .shared => { word with owners := (word.owners + 1) % 2 ^ 16 }

/-- That of `RtlTryAcquireSRWLockExclusive` and `RtlTryAcquireSRWLockShared`. -/
def tryAcquire : Mode → Word
  | .exclusive => ⟨word.exclusiveWaiters ||| 1, 1⟩
  | .shared => { word with owners := (word.owners + 1) % 2 ^ 16 }

/-- That of `RtlReleaseSRWLockExclusive` and `RtlReleaseSRWLockShared`. -/
def release : Mode → Word
  | .exclusive => ⟨word.exclusiveWaiters / 2 * 2, 0⟩
  | .shared => { word with owners := (word.owners + 2 ^ 16 - 1) % 2 ^ 16 }

/-- What `RtlWaitOnAddress` compares. -/
def same (cmp : Word) : Mode → Bool
  | .exclusive => word.owners = cmp.owners
  | .shared => word = cmp

end Word

/-- Where a thread is. In the second group of places it tries to acquire the lock without waiting. -/
inductive Pc (ι : Type)
  | idle
  | announcing
  | reading (mode : Mode)
  | exchanging (mode : Mode) (old : Word)
  | waiting (mode : Mode) (cmp : Word) (pc : WaitPc)
  | tryReading (mode : Mode)
  | tryExchanging (mode : Mode) (old : Word)
  | releasing (mode : Mode)
  | releaseExchanging (mode : Mode) (old : Word)
  | waking (addr : Addr) (all : Bool) (pc : WakePc ι)
deriving DecidableEq, Repr

/-- A thread, with what it has acquired and not released. -/
structure Thread (ι : Type) where
  pc : Pc ι
  holds : List Mode
deriving DecidableEq, Repr

structure State (ι : Type) where
  word : Word
  queue : Queue ι Addr
  threads : ι → Thread ι

/-- The wake-up after a release, if there is one. -/
def wakeUp {ι : Type} (new : Word) : Mode → Pc ι
  | .exclusive => if new.exclusiveWaiters ≠ 0 then .waking .owners false .locking
    else .waking .word true .locking
  | .shared => if new.owners = 0 then .waking .owners false .locking else .idle

namespace State

variable {ι : Type} [DecidableEq ι] (s : State ι)

/-- The step of one thread: the word and the thread after it. -/
def set (t : ι) (word : Word) (pc : Pc ι) (holds : List Mode) : State ι :=
  { s with word := word, threads := Function.update s.threads t ⟨pc, holds⟩ }

/-- What a thread does next. -/
def run (t : ι) : State ι :=
  let word := s.word
  let holds := (s.threads t).holds
  match (s.threads t).pc with
  | .idle => s
  | .announcing => s.set t word.announce (.reading .exclusive) holds
  | .reading mode => s.set t word (.exchanging mode word) holds
  | .exchanging mode old =>
    if word = old then
      if old.grants mode then s.set t (old.acquire mode) .idle (mode :: holds)
      else s.set t word (.waiting mode old .locking) holds
    else s.set t word (.reading mode) holds
  | .waiting mode cmp pc =>
    match s.queue.run t (word.same cmp mode) (.waits mode.addr pc) with
    | (queue, .waits _ pc) => { s with queue := queue }.set t word (.waiting mode cmp pc) holds
    | (queue, _) => { s with queue := queue }.set t word (.reading mode) holds
  | .tryReading mode => s.set t word (.tryExchanging mode word) holds
  | .tryExchanging mode old =>
    if word = old then
      if old.grants mode then s.set t (old.tryAcquire mode) .idle (mode :: holds)
      else s.set t word .idle holds
    else s.set t word (.tryReading mode) holds
  | .releasing mode => s.set t word (.releaseExchanging mode word) holds
  | .releaseExchanging mode old =>
    if word = old then s.set t (old.release mode) (wakeUp (old.release mode) mode) (holds.erase mode)
    else s.set t word (.releasing mode) holds
  | .waking addr all pc =>
    match s.queue.run t false (.wakes addr all pc) with
    | (queue, .wakes addr all pc) => { s with queue := queue }.set t word (.waking addr all pc) holds
    | (queue, _) => { s with queue := queue }.set t word .idle holds

end State

inductive Action (ι : Type)
  | acquire (t : ι) (mode : Mode)
  | tryAcquire (t : ι) (mode : Mode)
  | release (t : ι) (mode : Mode)
  | run (t : ι)

/-- A thread calls one of the functions when it is in none of them, and releases what it has acquired. -/
def State.step {ι : Type} [DecidableEq ι] (s : State ι) : Action ι → Except Empty (State ι)
  | .acquire t mode =>
    if (s.threads t).pc = .idle then
      .ok (s.set t s.word (if mode = .exclusive then .announcing else .reading .shared)
        (s.threads t).holds)
    else .ok s
  | .tryAcquire t mode =>
    if (s.threads t).pc = .idle then .ok (s.set t s.word (.tryReading mode) (s.threads t).holds)
    else .ok s
  | .release t mode =>
    if (s.threads t).pc = .idle ∧ mode ∈ (s.threads t).holds then
      .ok (s.set t s.word (.releasing mode) (s.threads t).holds)
    else .ok s
  | .run t => .ok (s.run t)

/-- `RtlInitializeSRWLock`, and threads that have not called anything. -/
def initializeSrwLock (ι : Type) : State ι where
  word := ⟨0, 0⟩
  queue := ⟨none, [], fun _ => false⟩
  threads := fun _ => ⟨.idle, []⟩

end FreeWindows.Rtl.SrwLock
