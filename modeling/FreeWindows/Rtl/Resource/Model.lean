/-
**Resources.**

`RTL_RWLOCK`: a lock that many threads can share, or one thread can have exclusively, several times over.
Its fields are only used inside of a critical section. A thread that has to wait does so outside, at one
of two semaphores. The last exclusive release grants the lock to all threads that wait to share it: they
are counted in `iNumberActive` before they run.

Threads run interleaved; what a thread does inside of the critical section is one step. The waits have no
timeout, so they do not fail.
-/

import FreeWindows.Lib.Bits

namespace FreeWindows.Rtl.Resource

open Lib

inductive Mode
  | exclusive
  | shared
deriving DecidableEq, Repr

/-- How an acquisition is attempted: without waiting, with waiting, and again after a wait. -/
inductive Attempt
  | once
  | waiting
  | again
deriving DecidableEq, Repr

def Attempt.fWait : Attempt → Bool
  | once => false
  | _ => true

inductive Op
  | acquire (mode : Mode) (attempt : Attempt)
  | release (mode : Mode)
deriving DecidableEq, Repr

/-- Where a thread is: in front of the critical section, inside, about to leave it in order to return or
to wait, or at a semaphore. -/
inductive Pc
  | idle
  | entering (op : Op)
  | inside (op : Op)
  | leaving
  | parking (mode : Mode)
  | waiting (mode : Mode)
deriving DecidableEq, Repr

/-- A thread, with what it has acquired and not released. -/
structure Thread where
  pc : Pc
  holds : List Mode
deriving DecidableEq, Repr

/-- `RTL_RWLOCK`, with the owner of its critical section and the counts of its semaphores. -/
structure RwLock (ι : Type) where
  numberActive : Int
  exclusiveWaiters : Nat
  sharedWaiters : Nat
  owningThread : Option ι
  rtlCs : Option ι
  exclusiveSemaphore : Nat
  sharedSemaphore : Nat

def uint32 (value : Nat) : Nat := value % 2 ^ 32

/-- `NtReleaseSemaphore`, for a semaphore with the maximal count 65535. -/
def releaseSemaphore (count n : Nat) : Nat := if count + n > 65535 then count else count + n

inductive Outcome
  | acquired
  | refused
  | wait
deriving DecidableEq, Repr

namespace RwLock

variable {ι : Type} [DecidableEq ι] (rwl : RwLock ι)

/-- `RtlAcquireResourceExclusive`, inside of the critical section. -/
def acquireExclusive (t : ι) (attempt : Attempt) : RwLock ι × Outcome :=
  if rwl.numberActive = 0 then
    ({ rwl with numberActive := -1, owningThread := some t }, .acquired)
  else if rwl.numberActive < 0 ∧ rwl.owningThread = some t then
    ({ rwl with numberActive := int32 (rwl.numberActive - 1) }, .acquired)
  else if attempt.fWait then
    ({ rwl with exclusiveWaiters := uint32 (rwl.exclusiveWaiters + 1) }, .wait)
  else (rwl, .refused)

/-- `RtlAcquireResourceShared`, inside of the critical section. -/
def acquireShared (t : ι) (attempt : Attempt) : RwLock ι × Outcome :=
  if rwl.numberActive < 0 then
    if rwl.owningThread = some t then
      ({ rwl with numberActive := int32 (rwl.numberActive - 1) }, .acquired)
    else if attempt.fWait then
      ({ rwl with sharedWaiters := uint32 (rwl.sharedWaiters + 1) }, .wait)
    else (rwl, .refused)
  else if attempt ≠ .again then
    ({ rwl with numberActive := int32 (rwl.numberActive + 1) }, .acquired)
  else (rwl, .acquired)

def acquire (t : ι) : Mode → Attempt → RwLock ι × Outcome
  | .exclusive => rwl.acquireExclusive t
  | .shared => rwl.acquireShared t

/-- One thread that waits for an exclusive lock is woken up. -/
def wakeExclusive : RwLock ι :=
  { rwl with
    exclusiveWaiters := rwl.exclusiveWaiters - 1
    exclusiveSemaphore := releaseSemaphore rwl.exclusiveSemaphore 1 }

/-- `RtlReleaseResource`, inside of the critical section. -/
def release : RwLock ι :=
  if rwl.numberActive > 0 then
    let rwl := { rwl with numberActive := rwl.numberActive - 1 }
    if rwl.numberActive = 0 ∧ rwl.exclusiveWaiters ≠ 0 then rwl.wakeExclusive else rwl
  else if rwl.numberActive < 0 then
    let rwl := { rwl with numberActive := rwl.numberActive + 1 }
    if rwl.numberActive = 0 then
      let rwl := { rwl with owningThread := none }
      if rwl.exclusiveWaiters ≠ 0 then rwl.wakeExclusive
      else if rwl.sharedWaiters ≠ 0 then
        { rwl with
          numberActive := int32 rwl.sharedWaiters
          sharedWaiters := 0
          sharedSemaphore := releaseSemaphore rwl.sharedSemaphore rwl.sharedWaiters }
      else rwl
    else rwl
  else rwl

def semaphore : Mode → Nat
  | .exclusive => rwl.exclusiveSemaphore
  | .shared => rwl.sharedSemaphore

/-- A wait at a semaphore ends. -/
def consume : Mode → RwLock ι
  | .exclusive => { rwl with exclusiveSemaphore := rwl.exclusiveSemaphore - 1 }
  | .shared => { rwl with sharedSemaphore := rwl.sharedSemaphore - 1 }

end RwLock

structure State (ι : Type) where
  rwl : RwLock ι
  threads : ι → Thread

inductive Action (ι : Type)
  | acquire (t : ι) (mode : Mode) (fWait : Bool)
  | release (t : ι) (mode : Mode)
  | run (t : ι)

namespace State

variable {ι : Type} [DecidableEq ι] (s : State ι)

/-- The step of one thread: the lock and the thread after it. -/
def set (t : ι) (rwl : RwLock ι) (thread : Thread) : State ι :=
  ⟨rwl, Function.update s.threads t thread⟩

/-- What a thread does next. -/
def run (t : ι) : State ι :=
  let rwl := s.rwl
  let holds := (s.threads t).holds
  match (s.threads t).pc with
  | .idle => s
  | .entering op =>
    if rwl.rtlCs = none then s.set t { rwl with rtlCs := some t } ⟨.inside op, holds⟩ else s
  | .inside (.acquire mode attempt) =>
    match rwl.acquire t mode attempt with
    | (rwl, .acquired) => s.set t rwl ⟨.leaving, mode :: holds⟩
    | (rwl, .refused) => s.set t rwl ⟨.leaving, holds⟩
    | (rwl, .wait) => s.set t rwl ⟨.parking mode, holds⟩
  | .inside (.release mode) => s.set t rwl.release ⟨.leaving, holds.erase mode⟩
  | .leaving => s.set t { rwl with rtlCs := none } ⟨.idle, holds⟩
  | .parking mode => s.set t { rwl with rtlCs := none } ⟨.waiting mode, holds⟩
  | .waiting mode =>
    if rwl.semaphore mode ≠ 0 then
      s.set t (rwl.consume mode) ⟨.entering (.acquire mode .again), holds⟩
    else s

/-- A thread calls one of the functions when it is in none of them, and releases what it has
acquired. -/
def step : Action ι → Except Empty (State ι)
  | .acquire t mode fWait =>
    if (s.threads t).pc = .idle then
      .ok (s.set t s.rwl
        ⟨.entering (.acquire mode (if fWait then .waiting else .once)), (s.threads t).holds⟩)
    else .ok s
  | .release t mode =>
    if (s.threads t).pc = .idle ∧ mode ∈ (s.threads t).holds then
      .ok (s.set t s.rwl ⟨.entering (.release mode), (s.threads t).holds⟩)
    else .ok s
  | .run t => .ok (s.run t)

end State

theorem set_rwl {ι : Type} [DecidableEq ι] {s : State ι} {t : ι} {rwl : RwLock ι} {thread : Thread} :
    (s.set t rwl thread).rwl = rwl := rfl

/-- `RtlInitializeResource`, and threads that have not called anything. -/
def initializeResource (ι : Type) : State ι where
  rwl := ⟨0, 0, 0, none, none, 0, 0⟩
  threads := fun _ => ⟨.idle, []⟩

end FreeWindows.Rtl.Resource
