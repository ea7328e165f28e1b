/-
**Waits and synchronization objects of the server** (`server/thread.c`, `server/event.c`,
`server/semaphore.c`, `server/mutex.c`).

The part of the server that blocks and wakes threads: the stack of waits of each thread, the wait
queue of each object, and the three objects that clients synchronize on. It follows the source
function by function:

* a failed `assert` is an error, since the server aborts; a request that is refused leaves the
  state alone;
* handles are resolved: a request names objects, and several handles of one object are the same
  name several times;
* `mutex->count` is a 32-bit counter that wraps around, the semaphore counters are guarded;
* APC queues are empty, a thread is suspended by its own count only, and wake-up messages are
  always delivered, so `wake_thread` never returns an error;
* `history` is not in the source: it records what happened, for statements about whole runs.
-/

import FreeWindows.Lib.Run

namespace FreeWindows.Sync

open Function

abbrev ThreadId := Nat
abbrev ObjectId := Nat
abbrev WaitId := Nat

/-- A failed assertion of the server. -/
inductive Assertion where
  /-- `assert( wait )` in `end_wait` and `check_wait`. -/
  | noWait
  /-- `assert( sem->count )` in `semaphore_sync_satisfied`. -/
  | semaphoreCount
  /-- `assert( !mutex->count || (mutex->owner == thread) )` in `do_grab`. -/
  | mutexHeld
  /-- `assert( !mutex->owner )` in `do_grab`. -/
  | mutexOwner
deriving DecidableEq, Repr

/-- What happened, for statements about whole runs. -/
inductive Happening where
  /-- A semaphore was created with this count. -/
  | created (obj : ObjectId) (initial : Nat)
  /-- `satisfied` was called for the thread, and whether the object was signaled for it then. -/
  | satisfied (obj : ObjectId) (thread : ThreadId) (signaled : Bool)
  /-- `release_semaphore` added to the count. -/
  | released (obj : ObjectId) (count : Nat)
  /-- A wait ended with this status. -/
  | woken (thread : ThreadId) (status : Nat)
deriving DecidableEq, Repr

/-- The assertion that failed, and what had happened until then. -/
structure Failure where
  assertion : Assertion
  history : List Happening
deriving DecidableEq, Repr

/-- `event_sync`, `semaphore_sync` and `mutex_sync`. -/
inductive SyncObject where
  | event (manual signaled : Bool)
  | semaphore (count max : Nat)
  | mutex (owner : Option ThreadId) (count : Nat) (abandoned : Bool)
deriving DecidableEq, Repr

/-- The select operations that wait for objects. -/
inductive SelectOp where
  | wait
  | waitAll
deriving DecidableEq, Repr

/-- `struct thread_wait`; `user` is whether the timeout callback is still registered. -/
structure ThreadWait where
  id : WaitId
  select : SelectOp
  objects : List ObjectId
  when_ : Int
  user : Bool
deriving DecidableEq, Repr

/-- `struct thread`: its waits, innermost first, and its suspend count. -/
structure Thread where
  wait : List ThreadWait
  suspend : Nat
deriving DecidableEq, Repr

/-- `struct wait_queue_entry`, as far as it identifies the wait it belongs to. -/
structure QueueEntry where
  thread : ThreadId
  wait : WaitId
deriving DecidableEq, Repr

/-- The state of the server; objects below `nextObject` exist. -/
structure Server where
  objects : ObjectId → SyncObject
  queue : ObjectId → List QueueEntry
  threads : ThreadId → Thread
  mutexList : ThreadId → List ObjectId
  nextObject : ObjectId
  nextWait : WaitId
  currentTime : Int
  monotonicTime : Int
  history : List Happening

def uintSize : Nat := 2 ^ 32
def maximumWaitObjects : Nat := 64
def maximumSuspendCount : Nat := 127
def statusTimeout : Nat := 0x102
def statusAbandonedWait0 : Nat := 0x80
def timeoutInfinite : Int := 0x7fffffffffffffff

/-! ### State updates -/

def Server.setObject (s : Server) (obj : ObjectId) (object : SyncObject) : Server :=
  { s with objects := update s.objects obj object }

def Server.setThread (s : Server) (id : ThreadId) (thread : Thread) : Server :=
  { s with threads := update s.threads id thread }

def Server.setQueue (s : Server) (obj : ObjectId) (queue : List QueueEntry) : Server :=
  { s with queue := update s.queue obj queue }

def Server.setMutexList (s : Server) (id : ThreadId) (mutexes : List ObjectId) : Server :=
  { s with mutexList := update s.mutexList id mutexes }

def Server.record (s : Server) (happening : Happening) : Server :=
  { s with history := s.history ++ [happening] }

/-! ### Object operations -/

/-- `event_sync_signaled`, `semaphore_sync_signaled` and `mutex_sync_signaled`. -/
def SyncObject.signaled (object : SyncObject) (thread : ThreadId) : Bool :=
  match object with
  | .event _ signaled => signaled
  | .semaphore count _ => decide (count > 0)
  | .mutex owner count _ => decide (count = 0) || decide (owner = some thread)

/-- Grab a mutex for a given thread: its new owner and count. -/
def doGrab (owner : Option ThreadId) (count : Nat) (thread : ThreadId) :
    Except Assertion (Option ThreadId × Nat) :=
  if count ≠ 0 ∧ owner ≠ some thread then .error .mutexHeld
  else if count = 0 then
    if owner ≠ none then .error .mutexOwner else .ok (some thread, 1)
  else .ok (owner, (count + 1) % uintSize)

/-- `event_sync_satisfied`, `semaphore_sync_satisfied` and `mutex_sync_satisfied`: the object after
the call. -/
def SyncObject.satisfied (object : SyncObject) (thread : ThreadId) : Except Assertion SyncObject :=
  match object with
  | .event manual signaled =>
    -- reset if it is an auto-reset event
    .ok (.event manual (manual && signaled))
  | .semaphore count max =>
    if count = 0 then .error .semaphoreCount else .ok (.semaphore (count - 1) max)
  | .mutex owner count _ => do
    let (owner, count) ← doGrab owner count thread
    .ok (.mutex owner count false)

/-- Whether the call makes the wait an abandoned one. -/
def SyncObject.isAbandoned : SyncObject → Bool
  | .mutex _ _ abandoned => abandoned
  | _ => false

/-- The mutexes of the thread when it grabs this object: one it did not hold is added. -/
def SyncObject.grabbedList (object : SyncObject) (obj : ObjectId) (mutexes : List ObjectId) :
    List ObjectId :=
  match object with
  | .mutex _ 0 _ => obj :: mutexes
  | _ => mutexes

/-- Tell an object that a wait of the thread is satisfied; returns whether the wait becomes an
abandoned one. -/
def objectSatisfied (s : Server) (obj : ObjectId) (thread : ThreadId) :
    Except Failure (Server × Bool) := do
  let object := s.objects obj
  let after ← (object.satisfied thread).mapError fun assertion => ⟨assertion, s.history⟩
  let s := s.record (.satisfied obj thread (object.signaled thread))
  let s := s.setMutexList thread (object.grabbedList obj (s.mutexList thread))
  .ok (s.setObject obj after, object.isAbandoned)

/-! ### Waiting -/

/-- A suspended thread may not acquire locks. -/
def Thread.isSuspended (thread : Thread) : Bool := decide (thread.suspend ≠ 0)

/-- The deadline of the wait has passed: a negative one counts on the monotonic clock. -/
def Server.expired (s : Server) (wait : ThreadWait) : Bool :=
  (decide (wait.when_ ≥ 0) && decide (wait.when_ ≤ s.currentTime)) ||
    (decide (wait.when_ < 0) && decide (-wait.when_ ≤ s.monotonicTime))

/-- Tell the objects that the wait is satisfied, one after the other. -/
def satisfyAll (s : Server) (thread : ThreadId) :
    List ObjectId → Bool → Except Failure (Server × Bool)
  | [], abandoned => .ok (s, abandoned)
  | obj :: rest, abandoned => do
    let (s, reports) ← objectSatisfied s obj thread
    satisfyAll s thread rest (abandoned || reports)

/-- The objects that a wait which ends with this status consumes. -/
def ThreadWait.consumes (wait : ThreadWait) (status : Nat) : List ObjectId :=
  if status < wait.objects.length then
    match wait.select with
    | .waitAll => wait.objects
    | .wait => (wait.objects[status]?).toList
  else []

/-- Remove the entries of a wait from the queues of its objects. -/
def removeQueues (s : Server) (entry : QueueEntry) (objects : List ObjectId) : Server :=
  { s with queue := fun obj =>
      if obj ∈ objects then (s.queue obj).filter fun other => decide (other ≠ entry) else s.queue obj }

/-- Finish waiting: the innermost wait of the thread ends with the status. -/
def endWait (s : Server) (thread : ThreadId) (status : Nat) : Except Failure (Server × Nat) :=
  match (s.threads thread).wait with
  | [] => .error ⟨.noWait, s.history⟩
  | wait :: rest => do
    let s := s.setThread thread { s.threads thread with wait := rest }
    let (s, abandoned) ← satisfyAll s thread (wait.consumes status) false
    let status := if abandoned then status + statusAbandonedWait0 else status
    let s := removeQueues s ⟨thread, wait.id⟩ wait.objects
    .ok (s.record (.woken thread status), status)

/-- The object condition of a wait: some object signaled, or all of them. The index that the wait
would return. -/
def Server.signaledIndex (s : Server) (thread : ThreadId) (wait : ThreadWait) : Option Nat :=
  match wait.select with
  | .waitAll =>
    if wait.objects.all fun obj => (s.objects obj).signaled thread then some 0 else none
  | .wait => wait.objects.findIdx? fun obj => (s.objects obj).signaled thread

/-- Check if the waiting condition of the innermost wait is satisfied: the status to end it with,
or nothing (`-1`). -/
def checkWait (s : Server) (thread : ThreadId) (wait : ThreadWait) : Option Nat :=
  if (s.threads thread).isSuspended then none
  else
    match s.signaledIndex thread wait with
    | some index => some index
    | none => if s.expired wait then some statusTimeout else none

/-- The loop of `wake_thread`, which ends at most `fuel` waits; returns how many it ended. -/
def wakeThreadLoop (thread : ThreadId) : Nat → Server → Except Failure (Server × Nat)
  | 0, s => .ok (s, 0)
  | fuel + 1, s =>
    match (s.threads thread).wait with
    | [] => .ok (s, 0)
    | wait :: _ =>
      match checkWait s thread wait with
      | none => .ok (s, 0)
      | some status => do
        let (s, _) ← endWait s thread status
        let (s, count) ← wakeThreadLoop thread fuel s
        .ok (s, count + 1)

/-- Attempt to wake up a thread. -/
def wakeThread (s : Server) (thread : ThreadId) : Except Failure (Server × Nat) :=
  wakeThreadLoop thread (s.threads thread).wait.length s

/-- Walk along the queue up to the first thread that wakes up, and say if there was one. -/
def wakeFirst (s : Server) : List QueueEntry → Except Failure (Server × Bool)
  | [] => .ok (s, false)
  | entry :: rest => do
    let (s, count) ← wakeThread s entry.thread
    if count = 0 then wakeFirst s rest else .ok (s, true)

/-- The loop of `wake_up`: after each wake-up it starts again at the head of the queue. At most
`fuel` threads are woken; `max = 0` is no limit. -/
def wakeUpLoop (obj : ObjectId) : Nat → Server → Nat → Except Failure Server
  | 0, s, _ => .ok s
  | fuel + 1, s, max => do
    let (s, woken) ← wakeFirst s (s.queue obj)
    if ¬ woken ∨ max = 1 then .ok s else wakeUpLoop obj fuel s (max - 1)

/-- All the waits of the threads in a queue. -/
def Server.pendingWaits (s : Server) (obj : ObjectId) : Nat :=
  ((s.queue obj).map fun entry => (s.threads entry.thread).wait.length).sum

/-- Attempt to wake threads sleeping on the object wait queue. -/
def wakeUp (s : Server) (obj : ObjectId) (max : Nat) : Except Failure Server :=
  wakeUpLoop obj (s.pendingWaits obj + 1) s max

/-! ### Requests -/

/-- `event_sync_signal`: wake up all waiters if manual reset, a single one otherwise. -/
def eventSyncSignal (s : Server) (obj : ObjectId) (manual signal : Bool) :
    Except Failure Server :=
  let s := s.setObject obj (.event manual signal)
  if signal then wakeUp s obj (if manual then 0 else 1) else .ok s

/-- Release a semaphore. The check is the one of the source, on unsigned 32-bit values. -/
def releaseSemaphore (s : Server) (obj : ObjectId) (old max count : Nat) :
    Except Failure Server :=
  if (old + count) % uintSize < old ∨ (old + count) % uintSize > max then
    -- STATUS_SEMAPHORE_LIMIT_EXCEEDED
    .ok s
  else
    let s := s.record (.released obj count)
    if old ≠ 0 then
      -- there cannot be any thread to wake up if the count is != 0
      .ok (s.setObject obj (.semaphore ((old + count) % uintSize) max))
    else wakeUp (s.setObject obj (.semaphore count max)) obj count

/-- Release a mutex once the recursion count is 0. -/
def doRelease (s : Server) (obj : ObjectId) (owner : Option ThreadId) (old : Nat)
    (abandoned : Bool) (thread : ThreadId) (count : Nat) : Except Failure Server :=
  if old = 0 ∨ owner ≠ some thread then
    -- STATUS_MUTANT_NOT_OWNED
    .ok s
  else if old - count = 0 then
    let s := s.setMutexList thread ((s.mutexList thread).erase obj)
    wakeUp (s.setObject obj (.mutex none 0 abandoned)) obj 0
  else .ok (s.setObject obj (.mutex owner (old - count) abandoned))

def suspendThread (s : Server) (id : ThreadId) : Server :=
  let thread := s.threads id
  if thread.suspend < maximumSuspendCount then
    s.setThread id { thread with suspend := thread.suspend + 1 }
  else s

def resumeThread (s : Server) (id : ThreadId) : Except Failure Server :=
  let thread := s.threads id
  if thread.suspend > 0 then
    let s := s.setThread id { thread with suspend := thread.suspend - 1 }
    if thread.suspend - 1 = 0 then do
      let (s, _) ← wakeThread s id
      .ok s
    else .ok s
  else .ok s

/-- Add an entry of the wait to the queue of each object, in order. -/
def addQueues (s : Server) (entry : QueueEntry) : List ObjectId → Server
  | [] => s
  | obj :: rest => addQueues (s.setQueue obj (s.queue obj ++ [entry])) entry rest

/-- Build the thread wait structure. -/
def waitOn (s : Server) (current : ThreadId) (select : SelectOp) (objects : List ObjectId)
    (when_ : Int) : Server :=
  let wait : ThreadWait := ⟨s.nextWait, select, objects, when_, false⟩
  let thread := s.threads current
  let s := { s with nextWait := s.nextWait + 1 }
  addQueues (s.setThread current { thread with wait := wait :: thread.wait })
    ⟨current, wait.id⟩ objects

/-- Register the timeout of the innermost wait. -/
def armTimeout (s : Server) (current : ThreadId) : Server :=
  let thread := s.threads current
  match thread.wait with
  | [] => s
  | wait :: rest =>
    if wait.when_ ≠ timeoutInfinite then
      s.setThread current { thread with wait := { wait with user := true } :: rest }
    else s

/-- Select on a list of handles. -/
def selectOn (s : Server) (current : ThreadId) (select : SelectOp) (objects : List ObjectId)
    (when_ : Int) : Except Failure Server :=
  if objects.length > maximumWaitObjects then
    -- STATUS_INVALID_PARAMETER
    .ok s
  else if objects.any fun obj => decide (obj ≥ s.nextObject) then
    -- STATUS_INVALID_HANDLE
    .ok s
  else
    let s := waitOn s current select objects when_
    match (s.threads current).wait with
    | [] => .error ⟨.noWait, s.history⟩
    | wait :: _ =>
      match checkWait s current wait with
      | some status => do
        -- condition is already satisfied
        let (s, _) ← endWait s current status
        .ok s
      | none => .ok (armTimeout s current)

/-- The timeout callback of a wait is no longer registered. -/
def disarmTimeout (s : Server) (id : ThreadId) (waitId : WaitId) : Server :=
  let thread := s.threads id
  s.setThread id { thread with
    wait := thread.wait.map fun wait => if wait.id = waitId then { wait with user := false } else wait }

/-- Thread wait timeout, for the wait that the callback was registered for. -/
def threadTimeout (s : Server) (id : ThreadId) (waitId : WaitId) : Except Failure Server :=
  let s := disarmTimeout s id waitId
  match (s.threads id).wait with
  | [] => .ok s
  | wait :: _ =>
    if wait.id ≠ waitId then .ok s  -- not the top-level wait, ignore it
    else if (s.threads id).isSuspended then .ok s  -- suspended, ignore it
    else do
      let (s, _) ← endWait s id statusTimeout
      -- check if other objects have become signaled in the meantime
      let (s, _) ← wakeThread s id
      .ok s

/-- The operations of the `event_op` request. -/
inductive EventOp where
  | pulse
  | set
  | reset
deriving DecidableEq, Repr

/-- The `event_op` request. -/
def eventOp (s : Server) (obj : ObjectId) (manual : Bool) : EventOp → Except Failure Server
  | .pulse => do
    let s ← eventSyncSignal s obj manual true
    eventSyncSignal s obj manual false
  | .set => eventSyncSignal s obj manual true
  | .reset => eventSyncSignal s obj manual false

/-- What the server does next: handle a request of the current thread, run the timeout callback of
a wait, or notice that time has passed. -/
inductive Action where
  | createEvent (manual signaled : Bool)
  | createSemaphore (initial max : Nat)
  | createMutex (current : ThreadId) (owned : Bool)
  | select (current : ThreadId) (op : SelectOp) (objects : List ObjectId) (when_ : Int)
  | eventOp (obj : ObjectId) (op : EventOp)
  | releaseSemaphore (obj : ObjectId) (count : Nat)
  | releaseMutex (current : ThreadId) (obj : ObjectId)
  | suspendThread (id : ThreadId)
  | resumeThread (id : ThreadId)
  | timeout (id : ThreadId) (wait : WaitId)
  | setCurrentTime (current monotonic : Int)
deriving DecidableEq, Repr

/-- A new object, with nobody waiting for it. -/
def Server.addObject (s : Server) (object : SyncObject) : Server :=
  { s with
    objects := update s.objects s.nextObject object
    queue := update s.queue s.nextObject []
    nextObject := s.nextObject + 1 }

def createSemaphore (s : Server) (initial max : Nat) : Server :=
  if max = 0 ∨ initial > max then s  -- STATUS_INVALID_PARAMETER
  else (s.addObject (.semaphore initial max)).record (.created s.nextObject initial)

/-- Create a mutex, which the current thread may grab at once. -/
def createMutex (s : Server) (current : ThreadId) (owned : Bool) : Server :=
  if owned then
    (s.addObject (.mutex (some current) 1 false)).setMutexList current
      (s.nextObject :: s.mutexList current)
  else s.addObject (.mutex none 0 false)

/-- The timeout callback of the wait is due. -/
def Server.timeoutDue (s : Server) (id : ThreadId) (waitId : WaitId) : Bool :=
  (s.threads id).wait.any fun wait =>
    decide (wait.id = waitId) && wait.user && s.expired wait

/-- One action of the server, completely processed. -/
def Server.step (s : Server) : Action → Except Failure Server
  | .createEvent manual signaled => .ok (s.addObject (.event manual signaled))
  | .createSemaphore initial max => .ok (createSemaphore s (initial % uintSize) (max % uintSize))
  | .createMutex current owned => .ok (createMutex s current owned)
  | .select current op objects when_ => selectOn s current op objects when_
  | .eventOp obj op =>
    if obj < s.nextObject then
      match s.objects obj with
      | .event manual _ => eventOp s obj manual op
      | _ => .ok s
    else .ok s
  | .releaseSemaphore obj count =>
    if obj < s.nextObject then
      match s.objects obj with
      | .semaphore old max => releaseSemaphore s obj old max (count % uintSize)
      | _ => .ok s
    else .ok s
  | .releaseMutex current obj =>
    if obj < s.nextObject then
      match s.objects obj with
      | .mutex owner old abandoned => doRelease s obj owner old abandoned current 1
      | _ => .ok s
    else .ok s
  | .suspendThread id => .ok (suspendThread s id)
  | .resumeThread id => resumeThread s id
  | .timeout id waitId => if s.timeoutDue id waitId then threadTimeout s id waitId else .ok s
  | .setCurrentTime current monotonic =>
    .ok { s with currentTime := current, monotonicTime := monotonic }

/-- The server before the first request. -/
def Server.initial : Server where
  objects _ := .event true false
  queue _ := []
  threads _ := ⟨[], 0⟩
  mutexList _ := []
  nextObject := 0
  nextWait := 0
  currentTime := 0
  monotonicTime := 0
  history := []

end FreeWindows.Sync
