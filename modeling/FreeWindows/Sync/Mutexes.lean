/-
**Mutexes, their owners, and threads that terminate** (`server/mutex.c`, `server/thread.c`).

The server of `Sync/Model.lean` with mutexes only, and with what that model leaves out: the select
operation that releases one mutex and waits for another, and `kill_thread`, which ends the waits of
a thread and abandons its mutexes.

A `Machine` keeps a log of what happened to the mutexes. Its entries for waits are read off the
history of the server (`waitsOf`): which objects a wait got, and the status it returned.

* `depth log obj`: how often the owner of a mutex holds it, by the log;
* `Pending log obj`: the mutex was abandoned and nobody has acquired it since.
-/

import FreeWindows.Sync.Ledger

namespace FreeWindows.Sync

open Lib

/-! ### The log -/

/-- What happens to mutexes. -/
inductive MutexEvent where
  /-- A mutex was created, owned by the thread. -/
  | created (obj : ObjectId) (thread : ThreadId)
  /-- A wait of the thread ended with this status and got these objects. -/
  | ended (thread : ThreadId) (objects : List ObjectId) (status : Nat)
  /-- The owner released the mutex once. -/
  | released (obj : ObjectId) (thread : ThreadId)
  /-- The owner terminated. -/
  | abandoned (obj : ObjectId) (thread : ThreadId)
deriving DecidableEq, Repr

/-- The waits that ended, read off the history: the calls of `satisfied` before the end of a wait
are for its objects. -/
def waitsOf (objects : List ObjectId) : List Happening → List MutexEvent
  | [] => []
  | .satisfied obj _ _ :: rest => waitsOf (objects ++ [obj]) rest
  | .woken thread status :: rest => .ended thread objects status :: waitsOf [] rest
  | _ :: rest => waitsOf objects rest

/-- How often the owner holds the mutex after the event. -/
def MutexEvent.depth (obj : ObjectId) (before : Nat) : MutexEvent → Nat
  | .created other _ => if other = obj then 1 else before
  | .ended _ objects _ => before + objects.count obj
  | .released other _ => if other = obj then before - 1 else before
  | .abandoned other _ => if other = obj then 0 else before

/-- How often the owner holds the mutex. -/
def depth (log : List MutexEvent) (obj : ObjectId) : Nat :=
  log.foldl (MutexEvent.depth obj) 0

/-- No recursion count was ever too large for its 32 bits. -/
def Shallow (log : List MutexEvent) : Prop :=
  ∀ front, front <+: log → ∀ obj, depth front obj < uintSize

/-- The owner of the mutex has terminated, and nobody has acquired the mutex since. -/
def Pending (log : List MutexEvent) (obj : ObjectId) : Prop :=
  ∃ before id after, log = before ++ .abandoned obj id :: after ∧
    ∀ thread objects status, .ended thread objects status ∈ after → obj ∉ objects

/-- The status of a wait that succeeded and found a mutex abandoned: `STATUS_ABANDONED_WAIT_0` and
the index. -/
def ReportsAbandoned (status : Nat) : Prop :=
  statusAbandonedWait0 ≤ status ∧ status < statusAbandonedWait0 + maximumWaitObjects

/-! ### Releasing and waiting in one request -/

def statusMutantNotOwned : Nat := 0xc0000046

def statusInvalidHandle : Nat := 0xc0000008

def statusThreadIsTerminating : Nat := 0xc000004b

/-- The thread owns the mutex: `do_release` does not refuse. -/
def Server.owns (s : Server) (thread : ThreadId) (obj : ObjectId) : Bool :=
  match s.objects obj with
  | .mutex owner count _ => decide (count ≠ 0) && decide (owner = some thread)
  | _ => false

/-- The end of `select_on`: end the innermost wait if its condition is met, or keep waiting. -/
def selectWait (s : Server) (current : ThreadId) : Except Failure Server :=
  match (s.threads current).wait with
  | [] => .ok s
  | wait :: _ =>
    match checkWait s current wait with
    | some status => do
      -- condition is already satisfied
      let (s, _) ← endWait s current status
      .ok s
    | none => .ok (armTimeout s current)

/-- The case `SELECT_SIGNAL_AND_WAIT` of `select_on`: the wait is built before the mutex is
released. -/
def signalAndWait (s : Server) (current : ThreadId) (signal wait : ObjectId) (when_ : Int) :
    Except Failure Server :=
  if wait ≥ s.nextObject then
    -- STATUS_INVALID_HANDLE
    .ok s
  else
    let s := waitOn s current .wait [wait] when_
    if signal ≥ s.nextObject then do
      let (s, _) ← endWait s current statusInvalidHandle
      .ok s
    else
      match s.objects signal with
      | .mutex owner old abandoned =>
        if s.owns current signal then do
          let s ← doRelease s signal owner old abandoned current 1
          -- the thread may have woken itself up
          selectWait s current
        else do
          let (s, _) ← endWait s current statusMutantNotOwned
          .ok s
      | _ => selectWait s current

/-! ### Threads that terminate -/

/-- The server, the threads that have terminated, and the log. -/
structure Machine where
  server : Server
  terminated : ThreadId → Bool
  log : List MutexEvent

/-- A failed assertion: one of the waits, with the log up to it, or `assert( mutex->owner == thread )`
in `abandon_mutexes`. -/
inductive Abort where
  | assertion (failure : Assertion) (log : List MutexEvent)
  | abandonOwner
deriving DecidableEq, Repr

/-- The log when an assertion fails, if it was `log` at the history `base`: the wait that was about to
end counts with the objects it has got. -/
def Failure.log (failure : Failure) (base : List Happening) (log : List MutexEvent) :
    List MutexEvent :=
  log ++ waitsOf [] (failure.history.drop base.length ++ [.woken 0 statusTimeout])

/-- The machine with the next state of the server: these events happened, and the waits that the
history has in addition. -/
def Machine.advance (m : Machine) (events : List MutexEvent) (s : Server) : Machine :=
  { m with
    server := s
    log := m.log ++ events ++ waitsOf [] (s.history.drop m.server.history.length) }

/-- The server aborts after these events. -/
def Machine.abort (m : Machine) (events : List MutexEvent) (failure : Failure) : Abort :=
  .assertion failure.assertion (failure.log m.server.history (m.log ++ events))

/-- The loop of `kill_thread` over the waits of the thread. -/
def endWaits (id : ThreadId) : Nat → Server → Except Failure Server
  | 0, s => .ok s
  | fuel + 1, s =>
    match (s.threads id).wait with
    | [] => .ok s
    | _ :: _ => do
      let (s, _) ← endWait s id statusThreadIsTerminating
      endWaits id fuel s

/-- Abandon the mutexes of a thread, at most `fuel` of them. -/
def abandonMutexes (id : ThreadId) : Nat → Machine → Except Abort Machine
  | 0, m => .ok m
  | fuel + 1, m =>
    match m.server.mutexList id with
    | [] => .ok m
    | obj :: _ =>
      match m.server.objects obj with
      | .mutex owner count _ =>
        if owner ≠ some id then .error .abandonOwner
        else do
          let s := m.server.setObject obj (.mutex owner count true)
          let s ← (doRelease s obj owner count true id count).mapError (m.abort [.abandoned obj id])
          abandonMutexes id fuel (m.advance [.abandoned obj id] s)
      | _ => .ok m

/-- Kill a thread on the spot. -/
def Machine.killThread (m : Machine) (id : ThreadId) : Except Abort Machine :=
  if m.terminated id then .ok m  -- already killed
  else do
    let m := { m with terminated := Function.update m.terminated id true }
    let s ← (endWaits id (m.server.threads id).wait.length m.server).mapError (m.abort [])
    let m := m.advance [] s
    abandonMutexes id (m.server.mutexList id).length m

/-! ### The machine -/

/-- What the server does next. -/
inductive MutexAction where
  | createMutex (current : ThreadId) (owned : Bool)
  | select (current : ThreadId) (op : SelectOp) (objects : List ObjectId) (when_ : Int)
  | signalAndWait (current : ThreadId) (signal wait : ObjectId) (when_ : Int)
  | releaseMutex (current : ThreadId) (obj : ObjectId)
  | suspendThread (id : ThreadId)
  | resumeThread (id : ThreadId)
  | timeout (id : ThreadId) (wait : WaitId)
  | setCurrentTime (current monotonic : Int)
  | terminate (id : ThreadId)
deriving DecidableEq, Repr

/-- The thread that has to be alive for the action: the one that sends the request, or the one that
is to be suspended. -/
def MutexAction.thread? : MutexAction → Option ThreadId
  | .createMutex current _ => some current
  | .select current _ _ _ => some current
  | .signalAndWait current _ _ _ => some current
  | .releaseMutex current _ => some current
  | .suspendThread id => some id
  | _ => none

/-- What the server does for an action. -/
def MutexAction.serve (s : Server) : MutexAction → Except Failure Server
  | .createMutex current owned => s.step (.createMutex current owned)
  | .select current op objects when_ => s.step (.select current op objects when_)
  | .signalAndWait current signal wait when_ => Sync.signalAndWait s current signal wait when_
  | .releaseMutex current obj => s.step (.releaseMutex current obj)
  | .suspendThread id => s.step (.suspendThread id)
  | .resumeThread id => s.step (.resumeThread id)
  | .timeout id wait => s.step (.timeout id wait)
  | .setCurrentTime current monotonic => s.step (.setCurrentTime current monotonic)
  | .terminate _ => .ok s

/-- What the action itself does to a mutex, before any wait ends. -/
def MutexAction.events (s : Server) : MutexAction → List MutexEvent
  | .createMutex current true => [.created s.nextObject current]
  | .signalAndWait current signal wait _ =>
    if wait < s.nextObject ∧ s.owns current signal then [.released signal current] else []
  | .releaseMutex current obj => if s.owns current obj then [.released obj current] else []
  | _ => []

/-- One action, completely processed. -/
def Machine.perform (m : Machine) (action : MutexAction) : Except Abort Machine :=
  match action with
  | .terminate id => m.killThread id
  | action => do
    let events := action.events m.server
    let s ← (action.serve m.server).mapError (m.abort events)
    .ok (m.advance events s)

/-- One action; a thread that has terminated sends no requests. -/
def Machine.step (m : Machine) (action : MutexAction) : Except Abort Machine :=
  if (action.thread?.map m.terminated).getD false then .ok m else m.perform action

/-- The machine before the first request. -/
def Machine.initial : Machine where
  server := Server.initial
  terminated _ := false
  log := []

end FreeWindows.Sync
