/-
**What an action does to the port and its threads.**

A message leaves the queue for a thread in two ways: in the reply to `remove_completion`, or when a
wait of the thread is satisfied; then it is parked with the thread until the next
`get_thread_completion`. What holds between two requests, whatever the threads do, is `Server.Settled`:
`depth` is the length of the queue, what was handed out and what is in the queue is what was added, and
no thread that could take a message waits while there is one. Threads that follow the protocol keep
`Server.Ledger` as well: each has received what was handed out to it, except for the message parked
with it.

The sync object of the port is set by `add_completion`, if the waiting threads leave a message in the
queue, and reset by the `remove_completion` that takes the last one. A wait that is satisfied takes a
message as well, and does not reset it (`Server.TakesLast`).

`wakeThread_spec` is the one step that waits take, `wakeWaiters_spec` the loop of `add_completion` over
the wait queue, and `step_spec` says what every action carries on.
-/

import FreeWindows.Completion.Model
import FreeWindows.Lib.Ensures

namespace FreeWindows.Completion

open Lib Function List Option Server

/-! ### What holds between requests -/

/-- The messages of a log that are for one thread. -/
def forThread (id : ThreadId) (log : List (ThreadId × Message)) : List Message :=
  (log.filter fun entry => entry.1 = id).map Prod.snd

theorem forThread_self (id : ThreadId) (log : List (ThreadId × Message)) (msg : Message) :
    forThread id (log ++ [(id, msg)]) = forThread id log ++ [msg] := by
  simp [forThread]

theorem forThread_other {id other : ThreadId} (differ : other ≠ id) (log : List (ThreadId × Message))
    (msg : Message) : forThread other (log ++ [(id, msg)]) = forThread other log := by
  simp [forThread, Ne.symm differ]

/-- A thread that waits has a wait object, and this is in the wait queue. -/
structure Thread.Linked (thread : Thread) (id : ThreadId) (waitQueue : List ThreadId) : Prop where
  waits : thread.wait.isSome → thread.completionWait.isSome
  attached : thread.completionWait.isSome → id ∈ waitQueue

structure Server.Linked (s : Server) : Prop where
  depth : s.port.depth.toNat = s.port.queue.length
  order : s.handed.map Prod.snd ++ s.port.queue = s.added
  threads : ∀ id, (s.threads id).Linked id s.port.waitQueue

/-- The thread does not wait for a message that it could have. -/
def Thread.Served (thread : Thread) (queue : List Message) : Prop :=
  thread.wait = none ∨ thread.suspend ≠ 0 ∨ queue = []

structure Server.Settled (s : Server) : Prop where
  linked : s.Linked
  served : ∀ id, (s.threads id).Served s.port.queue

/-- The message that is parked with the thread. -/
def Thread.parked (thread : Thread) : Option Message := thread.completionWait.bind CompletionWait.msg

/-- What the thread has received and the message that is parked with it is what was handed out to it,
and no message is parked while it waits. -/
structure Thread.Delivered (thread : Thread) (received handed : List Message) : Prop where
  delivered : received ++ thread.parked.toList = handed
  room : thread.wait.isSome → thread.parked = none

def Server.Ledger (s : Server) : Prop :=
  ∀ id, (s.threads id).Delivered (forThread id s.received) (forThread id s.handed)

/-- The port is signaled if and only if there is a message. -/
def Server.Signaled (s : Server) : Prop := s.port.sync = true ↔ s.port.queue ≠ []

/-- A wait takes the last message: one that begins, or one of a thread that is resumed. -/
def Server.TakesLast (s : Server) : Action → Prop
  | .select id interruptible _ _ =>
    s.port.queue.length = 1 ∧ (s.threads id).completionWait.isSome ∧ (s.threads id).suspend = 0 ∧
      ¬(interruptible = true ∧ (s.threads id).systemApc ≠ 0)
  | .resume id =>
    s.port.queue.length = 1 ∧ (s.threads id).suspend = 1 ∧
      ∃ wait, (s.threads id).wait = some wait ∧
        ¬(wait.interruptible = true ∧ (s.threads id).systemApc ≠ 0)
  | _ => False

/-- What an action of threads that follow the protocol, if `follows`, and that take the last message
by a wait, if `takes`, carries on. -/
structure Carries (s s' : Server) (follows takes : Prop) : Prop where
  settled : s'.Settled
  ledger : follows → s.Ledger → s'.Ledger
  signaled : s.Signaled → (s'.Signaled ↔ ¬takes)

theorem Carries.congr {s s' : Server} {follows takes takes' : Prop} (carries : Carries s s' follows takes)
    (same : takes ↔ takes') : Carries s s' follows takes' :=
  ⟨carries.settled, carries.ledger, fun signaled => (carries.signaled signaled).trans (not_congr same)⟩

/-- The port without its first message. -/
def Port.taken (port : Port) : Port :=
  { port with queue := port.queue.tail, depth := port.depth - 1 }

section Steps

variable {s s' : Server} {id : ThreadId} {thread : Thread} {msg : Message} {rest : List Message}

theorem Server.Linked.setThread (linked : s.Linked) (here : thread.Linked id s.port.waitQueue) :
    (s.setThread id thread).Linked :=
  ⟨linked.depth, linked.order, (forall_update_iff s.threads fun other thread =>
    thread.Linked other s.port.waitQueue).mpr ⟨here, fun other _ => linked.threads other⟩⟩

theorem setThread_other (s : Server) (thread : Thread) {other : ThreadId} (differ : other ≠ id) :
    (s.setThread id thread).threads other = s.threads other := update_of_ne differ ..

theorem served_setThread {queue : List Message} (here : thread.Served queue) {other : ThreadId}
    (served : other ≠ id → (s.threads other).Served queue) :
    ((s.setThread id thread).threads other).Served queue := by
  change (update s.threads id thread other).Served queue
  rw [update_apply]
  split
  next => exact here
  next differ => exact served differ

/-- A thread changes, and what was received or handed out changes for this thread only. -/
theorem Server.Ledger.update (ledger : s.Ledger) {received handed : List (ThreadId × Message)}
    (here : thread.Delivered (forThread id received) (forThread id handed))
    (others : ∀ other ≠ id, forThread other received = forThread other s.received ∧
      forThread other handed = forThread other s.handed) :
    ∀ other, ((s.setThread id thread).threads other).Delivered (forThread other received)
      (forThread other handed) := by
  refine (forall_update_iff s.threads fun other thread =>
    thread.Delivered (forThread other received) (forThread other handed)).mpr
      ⟨here, fun other differ => ?_⟩
  obtain ⟨sameReceived, sameHanded⟩ := others other differ
  rw [sameReceived, sameHanded]
  exact ledger other

theorem Thread.Delivered.congr {old : Thread} {received handed : List Message}
    (delivered : old.Delivered received handed) (same : thread.parked = old.parked)
    (wait : thread.wait.isSome → old.wait.isSome) : thread.Delivered received handed :=
  ⟨same ▸ delivered.delivered, fun waits => same.trans (delivered.room (wait waits))⟩

theorem Server.Ledger.setThread (ledger : s.Ledger) (same : thread.parked = s.parked id)
    (wait : thread.wait.isSome → (s.threads id).wait.isSome) : (s.setThread id thread).Ledger :=
  ledger.update ((ledger id).congr same wait) fun _ _ => ⟨rfl, rfl⟩

/-- A thread that can no more take a message than before. -/
theorem Thread.Served.carries {old : Thread} {queue : List Message} (served : old.Served queue)
    (wait : thread.wait.isSome → old.wait.isSome) (suspend : thread.suspend = 0 → old.suspend = 0) :
    thread.Served queue := by
  obtain idle | suspended | empty := served
  · refine .inl (not_isSome_iff_eq_none.mp fun isWaiting => ?_)
    have := wait isWaiting
    rw [idle] at this
    cases this
  · exact .inr (.inl fun resumed => suspended (suspend resumed))
  · exact .inr (.inr empty)

theorem Thread.Served.taken (served : thread.Served s.port.queue) (queue : s.port.queue = msg :: rest) :
    thread.Served rest := by
  refine served.imp_right fun blocked => .inl (blocked.resolve_right fun empty => ?_)
  rw [queue] at empty
  cases empty

/-! ### Waits that end -/

variable (linked : s.Linked)
include linked

theorem Server.Linked.depth_eq_zero : s.port.depth = 0 ↔ s.port.queue = [] := by
  rw [← UInt32.toNat_inj, linked.depth, UInt32.toNat_zero, length_eq_zero_iff]

theorem Server.Linked.depth_ne_zero (single : s.port.queue.length = 1) : s.port.depth ≠ 0 := by
  intro empty
  rw [linked.depth_eq_zero.mp empty] at single
  cases single

/-- The first message is handed out. -/
theorem Server.Linked.taken (queue : s.port.queue = msg :: rest) (id : ThreadId) :
    (s.port.depth - 1).toNat = rest.length ∧
      (s.handed ++ [(id, msg)]).map Prod.snd ++ rest = s.added := by
  have depth := linked.depth
  rw [queue, length_cons] at depth
  refine ⟨?_, ?_⟩
  · have positive : (1 : UInt32) ≤ s.port.depth := UInt32.le_iff_toNat_le.mpr (by
      rw [depth]
      exact Nat.le_add_left ..)
    rw [UInt32.toNat_sub_of_le _ _ positive, depth]
    rfl
  · rw [← linked.order, queue, map_append, append_assoc]
    rfl

omit linked in
/-- A wait ends with a message if the thread could have one. -/
theorem checkWait_object_iff {wait : ThreadWait} : s.checkWait id wait = some .object ↔
    ¬(wait.interruptible = true ∧ (s.threads id).systemApc ≠ 0) ∧ (s.threads id).suspend = 0 ∧
      s.port.depth ≠ 0 := by
  unfold checkWait
  split_ifs with apc suspended message alert expired
  · exact iff_of_false nofun fun could => could.1 apc
  · exact iff_of_false nofun fun could => suspended could.2.1
  · exact iff_of_true rfl ⟨apc, not_not.mp suspended, message⟩
  all_goals exact iff_of_false nofun fun could => message could.2.2

/-- A wait that goes on cannot have a message. -/
theorem checkWait_none {wait : ThreadWait} (check : s.checkWait id wait = none) :
    (s.threads id).suspend ≠ 0 ∨ s.port.queue = [] := by
  unfold checkWait at check
  split_ifs at check with apc suspended full
  · exact .inl suspended
  · exact .inr (linked.depth_eq_zero.mp (not_not.mp full))

/-- How the wait of the thread ends, if it is woken. -/
def Server.outcome (s : Server) (id : ThreadId) : Option WaitStatus :=
  (s.threads id).wait.bind (s.checkWait id)

/-- What waking a thread does: it is served then. -/
structure Wakes (s s' : Server) (id : ThreadId) (takes : Prop) [Decidable takes] : Prop where
  linked : s'.Linked
  ledger : s.Ledger → s'.Ledger
  served : ∀ other, (other ≠ id → (s.threads other).Served s.port.queue) →
    (s'.threads other).Served s'.port.queue
  port : s'.port = if takes then s.port.taken else s.port

/-- **A wait ends**: with the first message, which is parked with the thread, or without one. -/
theorem endWait_spec (waits : (s.threads id).wait.isSome) (status : WaitStatus)
    (message : status = .object → s.port.depth ≠ 0) :
    Returns (s.endWait id status) (Wakes s · id (status = .object)) := by
  obtain ⟨wait, isWait⟩ := isSome_iff_exists.mp waits
  have here := linked.threads id
  unfold endWait
  rw [isWait]
  dsimp only
  split
  next object =>
    have nonempty := mt linked.depth_eq_zero.mpr (message object)
    obtain ⟨msg, rest, queue⟩ := exists_cons_of_ne_nil nonempty
    obtain ⟨depth, order⟩ := linked.taken queue id
    have parks : Thread.Linked { s.threads id with completionWait := some ⟨some msg⟩, wait := none } id
        s.port.waitQueue := ⟨nofun, fun _ => here.attached (here.waits waits)⟩
    unfold completionWaitSatisfied
    simp only [Server.setThread, queue, update_self, update_idem]
    refine ⟨⟨depth, order, (linked.setThread parks).threads⟩,
      fun ledger => ledger.update ⟨?_, nofun⟩ fun other differ => ⟨rfl, forThread_other differ ..⟩,
      fun _ served => served_setThread (.inl rfl) fun differ => (served differ).taken queue, ?_⟩
    · obtain ⟨delivered, room⟩ := ledger id
      rw [room waits, toList_none, append_nil] at delivered
      rw [forThread_self, delivered]
      rfl
    · rw [if_pos object, Port.taken, queue, tail_cons]
  next other =>
    exact ⟨linked.setThread ⟨nofun, here.attached⟩, fun ledger => ledger.setThread rfl nofun,
      fun _ => served_setThread (.inl rfl), (if_neg other).symm⟩

/-- **A thread is woken**: it takes the first message if it could have one. -/
theorem wakeThread_spec (id : ThreadId) :
    Returns (s.wakeThread id) (Wakes s · id (s.outcome id = some .object)) := by
  unfold wakeThread Server.outcome
  have stays : (s.threads id).Served s.port.queue → Wakes s s id (none = some WaitStatus.object) :=
    fun served => ⟨linked, fun ledger => ledger, fun other others => by
      by_cases here : other = id
      · exact here ▸ served
      · exact others here, rfl⟩
  cases isWait : (s.threads id).wait with
  | none => exact stays (.inl isWait)
  | some wait =>
    rw [bind_some]
    dsimp only
    cases check : s.checkWait id wait with
    | none => exact stays (.inr (checkWait_none linked check))
    | some status =>
      have message : status = .object → s.port.depth ≠ 0 := fun object =>
        (checkWait_object_iff.mp (object ▸ check)).2.2
      exact (endWait_spec linked (isWait ▸ rfl) status message).mono fun _ wakes =>
        ⟨wakes.linked, wakes.ledger, wakes.served, by simpa only [some_inj] using wakes.port⟩

/-! ### Adding a message -/

/-- **The loop over the wait queue**: all threads in it are served, the port is signaled unless the
messages are gone, and they stay where they are if all threads were served before. -/
theorem wakeWaiters_spec {ids : List ThreadId}
    (others : ∀ id, id ∉ ids → (s.threads id).Served s.port.queue) (message : s.port.queue ≠ []) :
    Returns (s.wakeWaiters ids) fun s' => s'.Settled ∧ (s.Ledger → s'.Ledger) ∧
      (s'.port.queue = [] → s'.port.sync = s.port.sync ∧ ¬∀ id, (s.threads id).Served s.port.queue) ∧
      (s'.port.queue ≠ [] → s'.port.sync = true) := by
  induction ids generalizing s with
  | nil =>
    exact ⟨⟨⟨linked.depth, linked.order, linked.threads⟩, fun id => others id not_mem_nil⟩,
      fun ledger => ledger, fun empty => absurd empty message, fun _ => rfl⟩
  | cons id rest ih =>
    refine ensures_bind (wakeThread_spec linked id) fun mid wakes => ?_
    have sync : mid.port.sync = s.port.sync := by
      rw [wakes.port]
      split <;> rfl
    have stays : (∀ id, (s.threads id).Served s.port.queue) → mid.port.queue ≠ [] := fun all => by
      rw [wakes.port, if_neg]
      · exact message
      intro takes
      obtain ⟨wait, isWait, check⟩ := bind_eq_some_iff.mp takes
      obtain idle | suspended | empty := all id
      · cases idle.symm.trans isWait
      · exact suspended (checkWait_object_iff.mp check).2.1
      · exact message empty
    split
    next empty =>
      exact ⟨⟨wakes.linked, fun _ => .inr (.inr empty)⟩, wakes.ledger,
        fun _ => ⟨sync, fun all => stays all empty⟩, fun left => absurd empty left⟩
    next left =>
      have outside : ∀ other, other ∉ rest → (mid.threads other).Served mid.port.queue :=
        fun other outside => wakes.served other fun differ =>
          others other (not_mem_cons_of_ne_of_not_mem differ outside)
      refine (ih wakes.linked outside left).mono fun _ ⟨settled, ledger, gone, signaled⟩ =>
        ⟨settled, fun before => ledger (wakes.ledger before), fun empty => ?_, signaled⟩
      obtain ⟨same, unserved⟩ := gone empty
      exact ⟨same.trans sync, fun all => unserved fun other => wakes.served other fun _ => all other⟩

end Steps

section Requests

variable {s s' : Server} {id : ThreadId} {thread : Thread} (settled : s.Settled)
include settled

/-- **A message is added**, and the port is signaled if and only if a message stays in the queue. -/
theorem addCompletion_carries {msg : Message} (counts : s.Counts (.add msg)) :
    Returns (s.addCompletion msg) (Carries s · True False) := by
  have linked := settled.linked
  set added : Server := { s with
      port := { s.port with queue := s.port.queue ++ [msg], depth := s.port.depth + 1 }
      added := s.added ++ [msg] }
  have addedLinked : added.Linked := by
    refine ⟨?_, ?_, linked.threads⟩
    · rw [UInt32.toNat_add, linked.depth, length_append]
      exact Nat.mod_eq_of_lt counts
    · exact (append_assoc ..).symm.trans (congrArg (· ++ [msg]) linked.order)
  have others : ∀ id, id ∉ s.port.waitQueue → (s.threads id).Served added.port.queue := by
    refine fun id outside => .inl (eq_none_iff_forall_ne_some.mpr fun wait isWait => ?_)
    have here := linked.threads id
    exact outside (here.attached (here.waits (isWait ▸ rfl)))
  refine (wakeWaiters_spec addedLinked others (by simp [added])).mono
    fun s' ⟨still, ledger, gone, stays⟩ => ⟨still, fun _ => ledger, fun signaled =>
      iff_of_true ⟨fun isSet empty => ?_, stays⟩ not_false⟩
  -- the port was signaled before, so there was a message, and nobody waited for it
  obtain ⟨same, unserved⟩ := gone empty
  have message := signaled.mp (same.symm.trans isSet)
  refine unserved fun id => ?_
  exact (settled.served id).imp_right fun blocked => .inl (blocked.resolve_right message)

/-! ### The other requests -/

omit settled in
/-- The port stays as it is, and no message is taken. -/
theorem Server.Settled.carries {follows : Prop} (still : s'.Settled) (port : s'.port = s.port)
    (ledger : follows → s.Ledger → s'.Ledger) : Carries s s' follows False :=
  ⟨still, ledger, fun signaled => iff_of_true (by rwa [Server.Signaled, port]) not_false⟩

theorem carries_self {follows : Prop} : Carries s s follows False :=
  settled.carries rfl fun _ ledger => ledger

/-- A thread changes, and can no more take a message than before. -/
theorem setThread_carries (same : thread.completionWait = (s.threads id).completionWait)
    (wait : thread.wait.isSome → (s.threads id).wait.isSome)
    (suspend : thread.suspend = 0 → (s.threads id).suspend = 0) :
    Carries s (s.setThread id thread) True False := by
  obtain ⟨waits, attached⟩ := settled.linked.threads id
  refine Settled.carries ⟨settled.linked.setThread ⟨?_, ?_⟩, fun other => ?_⟩ rfl fun _ ledger =>
    ledger.setThread (congrArg (Option.bind · CompletionWait.msg) same) wait
  · rw [same]
    exact fun isWaiting => waits (wait isWaiting)
  · rw [same]
    exact attached
  · exact served_setThread ((settled.served id).carries wait suspend) fun _ => settled.served other

/-- A thread changes and is woken: the port is signaled over an empty queue if it took the last
message. -/
theorem Wakes.carries {follows takes : Prop} [Decidable takes]
    (wakes : Wakes (s.setThread id thread) s' id takes)
    (ledger : follows → s.Ledger → (s.setThread id thread).Ledger)
    (message : takes → s.port.queue ≠ []) :
    Carries s s' follows (s.port.queue.length = 1 ∧ takes) := by
  refine ⟨⟨wakes.linked, fun other => wakes.served other fun differ => ?_⟩,
    fun isFollowing before => wakes.ledger (ledger isFollowing before), fun signaled => ?_⟩
  · rw [setThread_other s thread differ]
    exact settled.served other
  rw [Server.Signaled, wakes.port]
  split
  next taken =>
    obtain ⟨msg, rest, queue⟩ := exists_cons_of_ne_nil (message taken)
    have isSet : s.port.sync = true := signaled.mpr (message taken)
    change (s.port.sync = true ↔ s.port.queue.tail ≠ []) ↔ _
    rw [iff_true_left isSet, and_iff_left taken, queue, tail_cons, length_cons, ne_eq,
      Nat.add_eq_right, length_eq_zero_iff]
  next stays => exact iff_of_true signaled fun takes => stays takes.2

theorem removeCompletion_carries (alertable : Bool) :
    Carries s (receive id (s.removeCompletion id alertable))
      ((s.threads id).wait = none ∧ s.parked id = none) False := by
  have linked := settled.linked
  set thread : Thread := { s.threads id with
    completionWait := some ((s.threads id).completionWait.getD ⟨none⟩) }
  have parked : thread.parked = s.parked id := by
    unfold Server.parked Thread.parked thread
    cases (s.threads id).completionWait <;> rfl
  have threads : ∀ other, ((s.setThread id thread).threads other).Linked other
      (id :: s.port.waitQueue.erase id) := by
    refine (forall_update_iff s.threads fun other thread => thread.Linked other _).mpr
      ⟨⟨fun _ => rfl, fun _ => mem_cons_self⟩, fun other differ => ?_⟩
    have there := linked.threads other
    exact ⟨there.waits, fun isSome =>
      mem_cons_of_mem _ ((mem_erase_of_ne differ).mpr (there.attached isSome))⟩
  have here : thread.Served s.port.queue := settled.served id
  have served : ∀ other, ((s.setThread id thread).threads other).Served s.port.queue := fun other =>
    served_setThread here fun _ => settled.served other
  unfold removeCompletion
  dsimp only
  split
  · exact carries_self settled
  split
  next empty =>
    exact ⟨⟨⟨linked.depth, linked.order, threads⟩, served⟩,
      fun _ ledger => ledger.setThread parked fun isWaiting => isWaiting,
      fun signaled => iff_of_true signaled not_false⟩
  next msg rest queue =>
    have first : s.port.queue = msg :: rest := queue
    obtain ⟨depth, order⟩ := linked.taken first id
    have delivers : s.parked id = none → s.Ledger → thread.Delivered
        (forThread id (s.received ++ [(id, msg)])) (forThread id (s.handed ++ [(id, msg)])) := by
      intro fetched ledger
      have delivered : _ ++ (s.parked id).toList = _ := (ledger id).delivered
      rw [fetched, toList_none, append_nil] at delivered
      rw [forThread_self, forThread_self, delivered]
      refine ⟨?_, fun _ => parked.trans fetched⟩
      rw [parked, fetched]
      exact append_nil _
    refine ⟨⟨⟨depth, order, threads⟩, fun other => (served other).taken first⟩, fun follows ledger =>
      ledger.update (delivers follows.2 ledger) fun other differ =>
        ⟨forThread_other differ .., forThread_other differ ..⟩, fun signaled => iff_of_true ?_ not_false⟩
    have isSet : s.port.sync = true := signaled.mpr (by rw [first]; exact cons_ne_nil _ _)
    change (s.port.sync && decide (rest ≠ [])) = true ↔ rest ≠ []
    rw [isSet, Bool.true_and, decide_eq_true_eq]

theorem getThreadCompletion_carries {follows : Prop} :
    Carries s (receive id (s.getThreadCompletion id)) follows False := by
  unfold getThreadCompletion
  split
  next => exact carries_self settled
  next => exact carries_self settled
  next msg isParked =>
    set thread : Thread := { s.threads id with completionWait := some ⟨none⟩ }
    have attached : thread.Linked id s.port.waitQueue :=
      ⟨fun _ => rfl, fun _ => (settled.linked.threads id).attached (by rw [isParked]; rfl)⟩
    have here : thread.Served s.port.queue := settled.served id
    obtain ⟨depth, order, threads⟩ := settled.linked.setThread attached
    refine Settled.carries ⟨⟨depth, order, threads⟩, fun other =>
      served_setThread here fun _ => settled.served other⟩ rfl fun _ ledger =>
        ledger.update ⟨?_, fun _ => rfl⟩ fun other differ => ⟨forThread_other differ .., rfl⟩
    have delivered := (ledger id).delivered
    rw [Thread.parked, isParked] at delivered
    refine (append_nil _).trans ((forThread_self ..).trans delivered)

/-- **A thread waits**, unless the wait ends at once. -/
theorem selectOn_carries (interruptible alertable : Bool) (when_ : Int) :
    Returns (s.selectOn id interruptible alertable when_) fun out =>
      Carries s out.1 ((s.threads id).wait = none ∧ s.parked id = none)
        (s.TakesLast (.select id interruptible alertable when_)) := by
  unfold selectOn Server.TakesLast
  dsimp only
  cases isObject : (s.threads id).completionWait with
  | none => exact ⟨settled, fun _ ledger => ledger, fun signaled => iff_of_true signaled nofun⟩
  | some object =>
    set wait : ThreadWait := ⟨interruptible, alertable, when_, false⟩
    set thread : ThreadWait → Thread := fun wait =>
      { s.threads id with completionWait := some object, wait := some wait }
    have linked : ∀ wait, (s.setThread id (thread wait)).Linked := fun wait =>
      settled.linked.setThread ⟨fun _ => rfl, fun _ => (settled.linked.threads id).attached (isObject ▸ rfl)⟩
    have ledger : ∀ wait, ((s.threads id).wait = none ∧ s.parked id = none) → s.Ledger →
        (s.setThread id (thread wait)).Ledger := by
      intro wait follows ledger
      have same : (thread wait).parked = s.parked id := by
        rw [Server.parked, isObject]
        rfl
      refine ledger.update ⟨?_, fun _ => same.trans follows.2⟩ fun _ _ => ⟨rfl, rfl⟩
      rw [same]
      exact (ledger id).delivered
    have here : (s.setThread id (thread wait)).threads id = thread wait := update_self ..
    have takes := @checkWait_object_iff (s.setThread id (thread wait)) id wait
    rw [here] at takes
    cases check : (s.setThread id (thread wait)).checkWait id wait with
    | some status =>
      rw [check, some_inj] at takes
      have message : status = .object → s.port.depth ≠ 0 := fun object => (takes.mp object).2.2
      refine ensures_bind (endWait_spec (linked wait) (by rw [here]; rfl) status message) fun _ wakes => ?_
      refine (wakes.carries settled (ledger wait) fun object =>
        mt settled.linked.depth_eq_zero.mpr (message object)).congr ?_
      rw [takes]
      refine and_congr_right fun single => ⟨fun ⟨apc, resumed, _⟩ => ⟨rfl, resumed, apc⟩,
        fun ⟨_, resumed, apc⟩ => ⟨apc, resumed, settled.linked.depth_ne_zero single⟩⟩
    | none =>
      rw [check] at takes
      have blocked := checkWait_none (linked wait) check
      rw [here] at blocked
      have served : ∀ wait, (thread wait).Served s.port.queue := fun _ => .inr blocked
      refine ⟨⟨linked _, fun other => served_setThread (served _) fun _ => settled.served other⟩,
        ledger _, fun signaled => iff_of_true signaled ?_⟩
      rintro ⟨single, -, resumed, apc⟩
      cases takes.mpr ⟨apc, resumed, settled.linked.depth_ne_zero single⟩

/-- A thread changes in a way that does not matter for its wait, and is woken. -/
theorem wakeThread_carries (same : thread.completionWait = (s.threads id).completionWait)
    (wait : thread.wait = (s.threads id).wait) :
    Returns ((s.setThread id thread).wakeThread id) (Carries s · True (s.port.queue.length = 1 ∧
      thread.suspend = 0 ∧ ∃ wait, (s.threads id).wait = some wait ∧
        ¬(wait.interruptible = true ∧ thread.systemApc ≠ 0))) := by
  have linked : (s.setThread id thread).Linked := by
    refine settled.linked.setThread ⟨?_, ?_⟩
    · rw [same, wait]
      exact (settled.linked.threads id).waits
    · rw [same]
      exact (settled.linked.threads id).attached
  have here : (s.setThread id thread).threads id = thread := update_self ..
  have takes : (s.setThread id thread).outcome id = some .object ↔ ∃ wait,
      (s.threads id).wait = some wait ∧ ¬(wait.interruptible = true ∧ thread.systemApc ≠ 0) ∧
        thread.suspend = 0 ∧ s.port.depth ≠ 0 := by
    unfold Server.outcome
    rw [here, wait, bind_eq_some_iff]
    simp only [checkWait_object_iff, here]
    rfl
  refine (wakeThread_spec linked id).mono fun s' wakes =>
    (wakes.carries settled (fun _ ledger => ledger.setThread (congrArg (Option.bind · CompletionWait.msg) same)
      (by rw [wait]; exact fun waits => waits)) fun taken => ?_).congr (and_congr_right fun single => ?_)
  · obtain ⟨_, _, _, _, message⟩ := takes.mp taken
    exact mt settled.linked.depth_eq_zero.mpr message
  · rw [takes]
    constructor
    · rintro ⟨wait, isWait, apc, resumed, -⟩
      exact ⟨resumed, wait, isWait, apc⟩
    · rintro ⟨resumed, wait, isWait, apc⟩
      exact ⟨wait, isWait, apc, resumed, settled.linked.depth_ne_zero single⟩

theorem threadTimeout_carries (id : ThreadId) :
    Returns (s.threadTimeout id) (Carries s · True False) := by
  unfold threadTimeout
  cases isWait : (s.threads id).wait with
  | none => exact carries_self settled
  | some wait =>
    have waits : (s.threads id).wait.isSome := isWait ▸ rfl
    dsimp only
    split_ifs with registered suspended
    · exact setThread_carries settled rfl (fun _ => waits) fun zero => zero
    · exact (endWait_spec settled.linked waits .timeout nofun).mono fun s' wakes =>
        Settled.carries ⟨wakes.linked, fun other => wakes.served other fun _ => settled.served other⟩
          wakes.port fun _ => wakes.ledger
    · exact carries_self settled

theorem resumeThread_carries (id : ThreadId) :
    Returns (s.resumeThread id) (Carries s · True (s.TakesLast (.resume id))) := by
  unfold resumeThread Server.TakesLast
  dsimp only
  split_ifs with suspended last
  · have one : (s.threads id).suspend - 1 = 0 ↔ (s.threads id).suspend = 1 := by omega
    refine Ensures.mono (wakeThread_carries settled (by rfl) (by rfl)) fun s' carries =>
      carries.congr ?_
    rw [one]
  · refine Carries.congr (setThread_carries settled rfl (fun waits => waits) ?_)
      (iff_of_false not_false fun takes => last ?_)
    · exact fun zero => absurd zero last
    · rw [takes.2.1]
  · exact (carries_self settled).congr
      (iff_of_false not_false fun takes => suspended (by rw [takes.2.1]; decide))

/-- An APC wakes no thread that could take a message: such a thread does not wait. -/
theorem wakeThread_apc (same : thread.completionWait = (s.threads id).completionWait)
    (wait : thread.wait = (s.threads id).wait) (suspend : thread.suspend = (s.threads id).suspend) :
    Returns ((s.setThread id thread).wakeThread id) (Carries s · True False) := by
  refine (wakeThread_carries settled same wait).mono fun s' carries =>
    carries.congr (iff_of_false ?_ not_false)
  rintro ⟨single, resumed, wait, isWait, -⟩
  obtain idle | suspended | empty := settled.served id
  · rw [idle] at isWait
    cases isWait
  · exact suspended (suspend ▸ resumed)
  · rw [empty] at single
    cases single

theorem queueApc_carries (id : ThreadId) (system : Bool) :
    Returns (s.queueApc id system) (Carries s · True False) := by
  unfold queueApc
  dsimp only
  split_ifs
  · exact wakeThread_apc settled rfl rfl rfl
  · exact setThread_carries settled rfl (fun waits => waits) fun zero => zero
  · exact wakeThread_apc settled rfl rfl rfl
  · exact setThread_carries settled rfl (fun waits => waits) fun zero => zero

/-- **One action**: it is carried out, and keeps what holds between requests. -/
theorem step_spec {action : Action} (counts : s.Counts action) :
    Returns (s.step action) (Carries s · (Follows s action) (s.TakesLast action)) := by
  cases action with
  | add msg => exact addCompletion_carries settled counts
  | remove id alertable => exact removeCompletion_carries settled alertable
  | select id interruptible alertable when_ =>
    exact ensures_map (selectOn_carries settled interruptible alertable when_)
  | getThreadCompletion id => exact getThreadCompletion_carries settled
  | timeout id => exact threadTimeout_carries settled id
  | suspend id =>
    simp only [step, suspendThread]
    split
    · exact setThread_carries settled rfl (fun waits => waits) (by rintro ⟨⟩)
    · exact carries_self settled
  | resume id => exact resumeThread_carries settled id
  | queueApc id system => exact queueApc_carries settled id system
  | dequeueApc id system =>
    cases system <;> exact setThread_carries settled rfl (fun waits => waits) fun zero => zero
  | setTime current monotonic =>
    have linked := settled.linked
    exact Settled.carries ⟨⟨linked.depth, linked.order, linked.threads⟩, settled.served⟩ rfl
      fun _ ledger => ledger

end Requests

theorem settled_initial : initial.Settled :=
  ⟨⟨rfl, rfl, fun _ => ⟨nofun, nofun⟩⟩, fun _ => .inl rfl⟩

end FreeWindows.Completion
