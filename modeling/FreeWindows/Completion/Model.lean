/-
**Completion ports of the wine server.**

`server/completion.c`: messages are added to the queue of a port. A thread that removes one gets the
first message, or a handle to wait on if there is none; once the wait is satisfied, the message has
been taken out of the queue and is parked with the thread, which fetches it by `get_thread_completion`.
The client's side of this is `NtRemoveIoCompletion`. How waits begin and end is in `server/thread.c`.

There is one port, which stays open, and threads wait on nothing but the wait handles that they were
given for it. A thread has one wait at a time; wake-up messages are always delivered. Memory is always
allocated. `added`, `handed` and `received` are not in the source: they record the messages that were
added, that left the queue for a thread, and that a thread got in a reply.
-/

import FreeWindows.Lib.Run

namespace FreeWindows.Completion

abbrev ThreadId := Nat

/-- A failed assertion of the server. -/
inductive Assertion
  /-- `assert( wait )` in `end_wait` -/
  | noWait
  /-- `assert( msg_entry )` in `completion_wait_satisfied` -/
  | noMessage
deriving DecidableEq, Repr

/-- `struct comp_msg`. -/
structure Message where
  ckey : BitVec 64
  cvalue : BitVec 64
  information : BitVec 64
  status : BitVec 32
deriving DecidableEq, Repr

/-- `struct completion_wait`: the message that is parked with the thread. -/
structure CompletionWait where
  msg : Option Message
deriving DecidableEq, Repr

/-- `struct thread_wait`, for the wait handle of the thread; `user` is whether the timeout callback is
registered. -/
structure ThreadWait where
  interruptible : Bool
  alertable : Bool
  when_ : Int
  user : Bool
deriving DecidableEq, Repr

/-- `struct thread`, with the numbers of its system and user APCs. -/
structure Thread where
  completionWait : Option CompletionWait
  wait : Option ThreadWait
  suspend : Nat
  systemApc : Nat
  userApc : Nat
deriving DecidableEq, Repr

/-- `struct completion`; the wait queue has the threads whose wait objects are in it. -/
structure Port where
  queue : List Message
  waitQueue : List ThreadId
  depth : UInt32
  sync : Bool
deriving DecidableEq, Repr

structure Server where
  port : Port
  threads : ThreadId → Thread
  currentTime : Int
  monotonicTime : Int
  added : List Message
  handed : List (ThreadId × Message)
  received : List (ThreadId × Message)

/-- How a wait ends: the object is signaled, or one of the statuses. -/
inductive WaitStatus
  | object
  | kernelApc
  | userApc
  | timeout
deriving DecidableEq, Repr

def timeoutInfinite : Int := 0x7fffffffffffffff
def maximumSuspendCount : Nat := 127

namespace Server

variable (s : Server)

def setThread (id : ThreadId) (thread : Thread) : Server :=
  { s with threads := Function.update s.threads id thread }

/-! ### Waits -/

/-- `completion_wait_satisfied`: the first message is parked with the thread, instead of one that is
there already. -/
def completionWaitSatisfied (id : ThreadId) : Except Assertion Server :=
  match s.port.queue with
  | [] => .error .noMessage
  | msg :: rest =>
    .ok { s.setThread id { s.threads id with completionWait := some ⟨some msg⟩ } with
      port := { s.port with queue := rest, depth := s.port.depth - 1 }
      handed := s.handed ++ [(id, msg)] }

def endWait (id : ThreadId) (status : WaitStatus) : Except Assertion Server :=
  match (s.threads id).wait with
  | none => .error .noWait
  | some _ =>
    let s := s.setThread id { s.threads id with wait := none }
    if status = .object then s.completionWaitSatisfied id else .ok s

def expired (wait : ThreadWait) : Bool :=
  wait.when_ ≥ 0 ∧ wait.when_ ≤ s.currentTime ∨ wait.when_ < 0 ∧ -wait.when_ ≤ s.monotonicTime

/-- `check_wait`, with `completion_wait_signaled` for the object. -/
def checkWait (id : ThreadId) (wait : ThreadWait) : Option WaitStatus :=
  if wait.interruptible ∧ (s.threads id).systemApc ≠ 0 then some .kernelApc
  -- suspended threads may not acquire locks, but they can run system APCs
  else if (s.threads id).suspend ≠ 0 then none
  else if s.port.depth ≠ 0 then some .object
  else if wait.alertable ∧ (s.threads id).userApc ≠ 0 then some .userApc
  else if s.expired wait then some .timeout
  else none

def wakeThread (id : ThreadId) : Except Assertion Server :=
  match (s.threads id).wait with
  | none => .ok s
  | some wait =>
    match s.checkWait id wait with
    | none => .ok s
    | some status => s.endWait id status

/-- `thread_timeout`, for the wait of the thread. -/
def threadTimeout (id : ThreadId) : Except Assertion Server :=
  match (s.threads id).wait with
  | none => .ok s
  | some wait =>
    if ¬wait.user then .ok s
    else if (s.threads id).suspend ≠ 0 then
      .ok (s.setThread id { s.threads id with wait := some { wait with user := false } })
    else s.endWait id .timeout

/-- What the server answers. -/
inductive Reply
  | message (msg : Message)
  /-- `STATUS_PENDING`, with the wait handle if a message is removed -/
  | pending
  | ended (status : WaitStatus)
  | userApc
  | invalidHandle
  | success
deriving DecidableEq, Repr

/-- `select_on`, on the wait handle of the thread. -/
def selectOn (id : ThreadId) (interruptible alertable : Bool) (when_ : Int) :
    Except Assertion (Server × Reply) :=
  let thread := s.threads id
  match thread.completionWait with
  | none => .ok (s, .invalidHandle)
  | some _ =>
    let wait : ThreadWait := ⟨interruptible, alertable, when_, false⟩
    let waiting := s.setThread id { thread with wait := some wait }
    match waiting.checkWait id wait with
    | some status => do
      -- condition is already satisfied
      let s ← waiting.endWait id status
      return (s, .ended status)
    | none =>
      let wait := { wait with user := decide (when_ ≠ timeoutInfinite) }
      .ok (s.setThread id { thread with wait := some wait }, .pending)

/-! ### The port -/

/-- The loop of `add_completion` over the wait queue, which is left once the queue is empty. -/
def wakeWaiters (s : Server) : List ThreadId → Except Assertion Server
  | [] => .ok { s with port := { s.port with sync := true } }
  | id :: rest => do
    let s ← s.wakeThread id
    if s.port.queue = [] then return s else wakeWaiters s rest

def addCompletion (msg : Message) : Except Assertion Server :=
  wakeWaiters
    { s with
      port := { s.port with queue := s.port.queue ++ [msg], depth := s.port.depth + 1 }
      added := s.added ++ [msg] }
    s.port.waitQueue

/-- The `remove_completion` request. -/
def removeCompletion (id : ThreadId) (alertable : Bool) : Server × Reply :=
  let thread := s.threads id
  if alertable ∧ thread.userApc ≠ 0 ∧ ¬(s.port.queue ≠ [] ∧ thread.completionWait.isSome) then
    (s, .userApc)
  else
    -- the wait object of the thread is moved to the front of the wait queue, or made
    let waitQueue := id :: s.port.waitQueue.erase id
    let s := s.setThread id { thread with
      completionWait := some (thread.completionWait.getD ⟨none⟩) }
    match s.port.queue with
    | [] => ({ s with port := { s.port with waitQueue } }, .pending)
    | msg :: rest =>
      ({ s with
        port := ⟨rest, waitQueue, s.port.depth - 1, s.port.sync && rest ≠ []⟩
        handed := s.handed ++ [(id, msg)] }, .message msg)

/-- The `get_thread_completion` request. -/
def getThreadCompletion (id : ThreadId) : Server × Reply :=
  match (s.threads id).completionWait with
  | none | some ⟨none⟩ => (s, .invalidHandle)
  | some ⟨some msg⟩ =>
    (s.setThread id { s.threads id with completionWait := some ⟨none⟩ }, .message msg)

/-! ### What else happens to threads -/

def suspendThread (id : ThreadId) : Server :=
  let thread := s.threads id
  if thread.suspend < maximumSuspendCount then
    s.setThread id { thread with suspend := thread.suspend + 1 }
  else s

def resumeThread (id : ThreadId) : Except Assertion Server :=
  let thread := s.threads id
  if thread.suspend > 0 then
    let s := s.setThread id { thread with suspend := thread.suspend - 1 }
    if thread.suspend - 1 = 0 then s.wakeThread id else .ok s
  else .ok s

/-- `queue_apc`: the first APC of its kind wakes the thread. -/
def queueApc (id : ThreadId) (system : Bool) : Except Assertion Server :=
  let thread := s.threads id
  if system then
    let s := s.setThread id { thread with systemApc := thread.systemApc + 1 }
    if thread.systemApc = 0 then s.wakeThread id else .ok s
  else
    let s := s.setThread id { thread with userApc := thread.userApc + 1 }
    if thread.userApc = 0 then s.wakeThread id else .ok s

/-- `thread_dequeue_apc`. -/
def dequeueApc (id : ThreadId) (system : Bool) : Server :=
  let thread := s.threads id
  s.setThread id (if system then { thread with systemApc := thread.systemApc - 1 }
    else { thread with userApc := thread.userApc - 1 })

/-- The message of a reply is received. -/
def receive (id : ThreadId) : Server × Reply → Server
  | (s, .message msg) => { s with received := s.received ++ [(id, msg)] }
  | (s, _) => s

end Server

inductive Action
  | add (msg : Message)
  | remove (id : ThreadId) (alertable : Bool)
  | select (id : ThreadId) (interruptible alertable : Bool) (when_ : Int)
  | getThreadCompletion (id : ThreadId)
  | timeout (id : ThreadId)
  | suspend (id : ThreadId)
  | resume (id : ThreadId)
  | queueApc (id : ThreadId) (system : Bool)
  | dequeueApc (id : ThreadId) (system : Bool)
  | setTime (current monotonic : Int)
deriving DecidableEq, Repr

/-- The server after an action. -/
def Server.step (s : Server) : Action → Except Assertion Server
  | .add msg => s.addCompletion msg
  | .remove id alertable => .ok (receive id (s.removeCompletion id alertable))
  | .select id interruptible alertable when_ =>
    (s.selectOn id interruptible alertable when_).map Prod.fst
  | .getThreadCompletion id => .ok (receive id (s.getThreadCompletion id))
  | .timeout id => s.threadTimeout id
  | .suspend id => .ok (s.suspendThread id)
  | .resume id => s.resumeThread id
  | .queueApc id system => s.queueApc id system
  | .dequeueApc id system => .ok (s.dequeueApc id system)
  | .setTime current monotonic => .ok { s with currentTime := current, monotonicTime := monotonic }

/-- The message that is parked with a thread. -/
def Server.parked (s : Server) (id : ThreadId) : Option Message :=
  (s.threads id).completionWait.bind CompletionWait.msg

/-- What a thread does that follows `NtRemoveIoCompletion`: it makes no request while it waits, and
after a satisfied wait it fetches the message before it removes another one or waits again. -/
def Follows (s : Server) : Action → Prop
  | .remove id _ | .select id _ _ _ => (s.threads id).wait = none ∧ s.parked id = none
  | .getThreadCompletion id => (s.threads id).wait = none
  | _ => True

instance (s : Server) (action : Action) : Decidable (Follows s action) := by
  unfold Follows
  split <;> infer_instance

/-- `depth`, which is an `unsigned int`, does not wrap. -/
def Server.Counts (s : Server) : Action → Prop
  | .add _ => s.port.queue.length + 1 < 2 ^ 32
  | _ => True

instance decidableCounts (s : Server) (action : Action) : Decidable (s.Counts action) := by
  unfold Server.Counts
  split <;> infer_instance

/-- A new port, with threads that have not used it. -/
def Server.initial : Server where
  port := ⟨[], [], 0, false⟩
  threads := fun _ => ⟨none, none, 0, 0, 0⟩
  currentTime := 0
  monotonicTime := 0
  added := []
  handed := []
  received := []

end FreeWindows.Completion
