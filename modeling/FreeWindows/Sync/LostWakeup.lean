/-
**Every action, and when it leaves nobody blocked.**

One lemma for each action of the server: it keeps waits and queues in agreement and leaves nobody
blocked, under the condition `Careful` on the state in which it is taken. From these,
`quiet_of_careful` for whole runs; `quiet_fails` is the run that violates the condition.
-/

import FreeWindows.Sync.Quiet

namespace FreeWindows.Sync

open Lib Function List Server Thread Runs

/-- The invariant of careful runs. -/
def Orderly (s : Server) : Prop := Linked s ∧ Quiet s

/-! ### Updates of single fields -/

section Updates

variable {s s' : Server} {obj : ObjectId} {object : SyncObject}

theorem Linked.setObject (linked : Linked s) (room : object.Room (s.queue obj).length) :
    Linked (s.setObject obj object) := by
  refine ⟨linked.entries, linked.ids, linked.fresh, linked.named, fun other => ?_⟩
  by_cases same : other = obj
  · rw [same, setObject_self]
    exact room
  · rw [setObject_other s same]
    exact linked.room other

/-- An object that is signaled no more than before leaves nobody blocked. -/
theorem Quiet.setObject (quiet : Quiet s)
    (less : ∀ thread, object.signaled thread = true → (s.objects obj).signaled thread = true) :
    Quiet (s.setObject obj object) := by
  intro thread wait waiting met
  refine quiet thread wait waiting (met.mono fun other _ signaled => ?_)
  by_cases same : other = obj
  · rw [same, setObject_self] at signaled
    rw [same]
    exact less thread signaled
  · rwa [setObject_other s same] at signaled

/-- Whatever happens to the object, nobody is left blocked by the others. -/
theorem QuietWithout.setObject (quiet : QuietWithout s obj) :
    QuietWithout (s.setObject obj object) obj := by
  intro thread wait waiting met
  refine quiet thread wait waiting (met.mono fun other _ signaled => ?_)
  obtain ⟨different, signaled⟩ := off_signaled_iff.mp signaled
  rw [setObject_other s different] at signaled
  exact off_signaled_iff.mpr ⟨different, signaled⟩

end Updates

/-! ### New objects -/

variable {s : Server} {id : ThreadId}

theorem Linked.addObject (linked : Linked s) {object : SyncObject} (room : object.Room 0) :
    Linked (s.addObject object) := by
  refine ⟨fun thread wait member obj => ?_, linked.ids, linked.fresh,
    fun thread wait member obj named => ?_, fun obj => ?_⟩
  · by_cases new : obj = s.nextObject
    · have absent : obj ∉ wait.objects := fun named =>
        ne_of_lt (linked.named thread wait member obj named) new
      rw [count_eq_zero.mpr absent]
      exact Nat.zero_le _
    · simp only [Server.addObject, update_of_ne new]
      exact linked.entries thread wait member obj
  · exact Nat.lt_succ_of_lt (linked.named thread wait member obj named)
  · by_cases new : obj = s.nextObject
    · simp only [Server.addObject, new, update_self]
      exact room
    · simp only [Server.addObject, update_of_ne new]
      exact linked.room obj

theorem Orderly.addObject {object : SyncObject} (orderly : Orderly s) (room : object.Room 0) :
    Orderly (s.addObject object) := by
  obtain ⟨linked, quiet⟩ := orderly
  refine ⟨linked.addObject room, ?_⟩
  intro thread wait waiting met
  refine quiet thread wait waiting (met.mono fun obj named signaled => ?_)
  obtain ⟨rest, was⟩ := waiting.2
  have older := linked.named thread wait (mem_of_eq_cons was) obj named
  simpa [Server.addObject, ne_of_lt older] using signaled

/-! ### A new wait -/

section WaitOn

variable {current : ThreadId} {select : SelectOp} {objects : List ObjectId} {when_ : Int}

/-- **A new wait keeps waits and queues in agreement.** -/
theorem Linked.waitOn (linked : Linked s) (named : ∀ obj ∈ objects, obj < s.nextObject)
    (room : ∀ obj, (s.objects obj).Room ((s.queue obj).length + objects.count obj)) :
    Linked (waitOn s current select objects when_) := by
  refine ⟨fun thread wait member obj => ?_, fun thread => ?_, fun thread wait member => ?_,
    fun thread wait member obj inside => ?_, fun obj => ?_⟩
  · rw [waitOn_queue, count_append]
    rcases mem_waitOn member with ⟨rfl, rfl⟩ | old
    · rw [count_replicate_self]
      exact Nat.le_add_left _ _
    · exact le_trans (linked.entries thread wait old obj) (Nat.le_add_right _ _)
  · rw [waitOn_threads]
    by_cases same : thread = current
    · subst same
      rw [update_self, map_cons, nodup_cons]
      refine ⟨fun member => ?_, linked.ids thread⟩
      obtain ⟨wait, old, sameId⟩ := mem_map.mp member
      exact ne_of_lt (linked.fresh thread wait old) sameId
    · rw [update_of_ne same]
      exact linked.ids thread
  · rw [waitOn_nextWait]
    rcases mem_waitOn member with ⟨_, rfl⟩ | old
    · exact Nat.lt_succ_self _
    · exact Nat.lt_succ_of_lt (linked.fresh thread wait old)
  · rw [waitOn_nextObject]
    rcases mem_waitOn member with ⟨_, rfl⟩ | old
    · exact named obj inside
    · exact linked.named thread wait old obj inside
  · rw [waitOn_objects, waitOn_queue, length_append, length_replicate]
    exact room obj

end WaitOn

/-! ### Timeout callbacks -/

variable {wait : ThreadWait} {thread : ThreadId}

/-- Only timeout callbacks were registered or forgotten, and threads suspended or resumed. -/
structure Rearmed (s s' : Server) : Prop where
  objects : s'.objects = s.objects
  queue : s'.queue = s.queue
  wait : ∀ thread, (s'.threads thread).wait.map ThreadWait.bare =
    (s.threads thread).wait.map ThreadWait.bare
  nextObject : s'.nextObject = s.nextObject
  nextWait : s'.nextWait = s.nextWait

section Rearmed

variable {s' : Server} (rearmed : Rearmed s s')
include rearmed

theorem Rearmed.linked (linked : Linked s) : Linked s' := by
  refine ⟨fun thread wait member obj => ?_, fun thread => ?_, fun thread wait member => ?_,
    fun thread wait member obj named => ?_, fun obj => ?_⟩
  · obtain ⟨old, oldMember, same⟩ := exists_bare (rearmed.wait thread) member
    have queued := linked.entries thread old oldMember obj
    rw [rearmed.queue]
    rwa [(bare_eq same).1, (bare_eq same).2.2] at queued
  · have ids : ∀ waits : List ThreadWait, waits.map ThreadWait.id =
        (waits.map ThreadWait.bare).map ThreadWait.id := fun waits => by
      rw [map_map]
      rfl
    rw [ids, rearmed.wait, ← ids]
    exact linked.ids thread
  · obtain ⟨old, oldMember, same⟩ := exists_bare (rearmed.wait thread) member
    rw [rearmed.nextWait, ← (bare_eq same).1]
    exact linked.fresh thread old oldMember
  · obtain ⟨old, oldMember, same⟩ := exists_bare (rearmed.wait thread) member
    rw [rearmed.nextObject]
    rw [← (bare_eq same).2.2] at named
    exact linked.named thread old oldMember obj named
  · rw [rearmed.objects, rearmed.queue]
    exact linked.room obj

theorem Rearmed.quiet (suspend : ∀ thread, (s'.threads thread).suspend = (s.threads thread).suspend)
    (quiet : Quiet s) : Quiet s' := by
  rintro thread wait ⟨awake, rest, was⟩ met
  have waits := rearmed.wait thread
  rw [was, map_cons] at waits
  obtain ⟨old, later, wasOld, same, _⟩ := map_eq_cons_iff.mp waits.symm
  refine quiet thread old ⟨?_, later, wasOld⟩ ?_
  · unfold isSuspended at *
    rw [← suspend]
    exact awake
  · unfold Met at *
    rw [(bare_eq same).2.1, (bare_eq same).2.2, ← rearmed.objects]
    exact met

end Rearmed

theorem setThread_rearmed (thread : Thread)
    (same : thread.wait.map ThreadWait.bare = (s.threads id).wait.map ThreadWait.bare) :
    Rearmed s (s.setThread id thread) :=
  ⟨rfl, rfl, setThread_bare same, rfl, rfl⟩

/-! ### The actions -/

section Actions

variable {s' : Server}

theorem selectOn_orderly {current : ThreadId} {select : SelectOp} {objects : List ObjectId}
    {when_ : Int} (orderly : Orderly s)
    (room : ∀ obj, (s.objects obj).Room ((s.queue obj).length + objects.count obj)) :
    Yields (selectOn s current select objects when_) Orderly := by
  obtain ⟨linked, quiet⟩ := orderly
  unfold selectOn
  split
  · exact ⟨linked, quiet⟩
  split
  · exact ⟨linked, quiet⟩
  rename_i _ known
  have newLinked : Linked (waitOn s current select objects when_) :=
    linked.waitOn (lt_of_known known) room
  simp only [waitOn_wait]
  split
  · refine ensures_bind (endWait_ended waitOn_wait (newLinked.roomFor (mem_of_eq_cons waitOn_wait)))
      fun mid ended => ?_
    -- the new wait is gone again, and every thread waits as it did before
    have threads : mid.1.threads = s.threads := by
      rw [ended.threads, waitOn_threads, update_self, update_idem]
      exact update_eq_self current s.threads
    refine ⟨ended.linked newLinked, fun thread wait waiting met => ?_⟩
    unfold Waiting at waiting
    rw [threads] at waiting
    refine quiet thread wait waiting (met.mono fun obj _ signaled => ?_)
    have before := ended.drained.signaled obj thread signaled
    rwa [waitOn_objects] at before
  · rename_i check
    obtain ⟨waits, armed, same⟩ := armTimeout_eq (waitOn s current select objects when_) current
    have rearmed := setThread_rearmed { (waitOn s current select objects when_).threads current with
      wait := waits } same
    rw [armed]
    refine ⟨rearmed.linked newLinked, rearmed.quiet (observe_update suspend (by rfl)) ?_⟩
    refine quiet_of_settled (fun obj thread signaled => ?_) (fun other (different : other ≠ current) => ?_)
      (fun other wait _ => quiet other wait) fun wait rest was => ?_
    · rwa [waitOn_objects] at signaled
    · rw [waitOn_threads, update_of_ne different]
    · rw [waitOn_wait] at was
      cases was
      exact check

variable {manual : Bool} {obj : ObjectId}

theorem setEvent_orderly {signaled : Bool} (orderly : Orderly s)
    (was : s.objects obj = .event manual signaled)
    (safe : manual = false → signaled = false → ¬ Hazard s obj) :
    Yields (eventSyncSignal s obj manual true) Orderly := by
  obtain ⟨linked, quiet⟩ := orderly
  have newLinked : Linked (s.setObject obj (.event manual true)) := linked.setObject trivial
  cases signaled with
  | true =>
    -- it was signaled already: there is nobody to wake up
    refine wakeUp_keeps newLinked (quiet.setObject fun thread _ => ?_)
      fun woken quiet => woken.quiet fun other wait _ => quiet other wait
    rw [was]
    rfl
  | false =>
    refine wakeUp_signaled newLinked (quiet.without obj).setObject fun limit => ?_
    cases manual with
    | true => exact absurd rfl limit
    | false =>
      rw [setObject_self]
      exact ⟨rfl, le_refl 1, fun hazard => safe rfl rfl hazard⟩

theorem resetEvent_orderly (linked : Linked s) (quiet : QuietWithout s obj) :
    Yields (eventSyncSignal s obj manual false) Orderly := by
  refine ⟨linked.setObject trivial, quiet.setObject.quiet fun thread => ?_⟩
  rw [setObject_self]
  rfl

/-- **Pulsing an event** leaves nobody blocked, since the event is reset again. -/
theorem pulseEvent_orderly (orderly : Orderly s) : Yields (eventOp s obj manual .pulse) Orderly :=
  -- whatever the limit, nobody is left blocked by anything but the event
  ensures_bind (wakeUp_keeps (orderly.1.setObject trivial) (orderly.2.without obj).setObject
    fun woken => woken.quietWithout) fun _ ⟨linked, quiet⟩ => resetEvent_orderly linked quiet

variable {count old : Nat}

theorem releaseSemaphore_orderly {max : Nat} (orderly : Orderly s)
    (was : s.objects obj = .semaphore old max) (safe : old = 0 → ¬ Hazard s obj) :
    Yields (releaseSemaphore s obj old max count) Orderly := by
  obtain ⟨linked, quiet⟩ := orderly
  unfold releaseSemaphore
  split
  · exact ⟨linked, quiet⟩
  · have recorded : ∀ new, Linked ((s.record (.released obj count)).setObject obj
        (.semaphore new max)) := fun new =>
      Linked.setObject ⟨linked.entries, linked.ids, linked.fresh, linked.named, linked.room⟩ trivial
    split
    · -- the semaphore was signaled and still is
      refine ⟨recorded _, Quiet.setObject quiet fun thread _ => ?_⟩
      show (s.objects obj).signaled thread = true
      rw [was]
      simp only [SyncObject.signaled, decide_eq_true_eq]
      omega
    · refine wakeUp_signaled (recorded _) (QuietWithout.setObject (quiet.without obj)) fun _ => ?_
      rw [setObject_self]
      exact ⟨trivial, le_rfl, fun hazard => safe (by omega) hazard⟩

theorem doRelease_orderly {owner : Option ThreadId} {abandoned : Bool} (orderly : Orderly s)
    (was : s.objects obj = .mutex owner old abandoned) :
    Yields (doRelease s obj owner old abandoned thread count) Orderly := by
  obtain ⟨linked, quiet⟩ := orderly
  have room := linked.room obj
  rw [was] at room
  unfold doRelease
  split
  · exact ⟨linked, quiet⟩
  · split
    · have listed : Linked (s.setMutexList thread ((s.mutexList thread).erase obj)) :=
        ⟨linked.entries, linked.ids, linked.fresh, linked.named, linked.room⟩
      refine wakeUp_signaled (listed.setObject ?_) (QuietWithout.setObject (quiet.without obj))
        fun limit => absurd rfl limit
      exact lt_of_le_of_lt (Nat.add_le_add_right (Nat.zero_le old) _) room
    · rename_i remains
      refine ⟨linked.setObject ?_, quiet.setObject fun other signaled => ?_⟩
      · simp only [SyncObject.Room] at *
        omega
      · rw [was]
        simp only [SyncObject.signaled, Bool.or_eq_true, decide_eq_true_eq] at *
        exact signaled.imp_left fun zero => absurd zero remains

theorem suspendThread_orderly (id : ThreadId) (orderly : Orderly s) : Orderly (suspendThread s id) := by
  obtain ⟨linked, quiet⟩ := orderly
  unfold suspendThread
  simp only
  split
  · refine ⟨Rearmed.linked (setThread_rearmed _ (by rfl)) linked, fun thread wait waiting => ?_⟩
    by_cases same : thread = id
    · obtain ⟨awake, _⟩ := waiting
      simp [setThread, same, isSuspended] at awake
    · refine quiet thread wait ?_
      simpa [Waiting, setThread, same] using waiting
  · exact ⟨linked, quiet⟩

theorem resumeThread_orderly (id : ThreadId) (orderly : Orderly s) :
    Yields (resumeThread s id) Orderly := by
  obtain ⟨linked, quiet⟩ := orderly
  unfold resumeThread
  simp only
  split
  · have newLinked : Linked (s.setThread id
        { s.threads id with suspend := (s.threads id).suspend - 1 }) :=
      Rearmed.linked (setThread_rearmed _ (by rfl)) linked
    have others : ∀ thread wait, thread ≠ id → Waiting (s.setThread id
        { s.threads id with suspend := (s.threads id).suspend - 1 }) thread wait →
        ¬ Met s thread wait := fun thread wait different waiting =>
      quiet thread wait (by simpa [Waiting, setThread, different] using waiting)
    split
    · exact ensures_bind (wakeThreadLoop_woken _ newLinked le_rfl) fun _ ensured =>
        ⟨ensured.1.linked, ensured.1.quiet others⟩
    · rename_i suspended
      refine ⟨newLinked, fun thread wait waiting => ?_⟩
      by_cases same : thread = id
      · obtain ⟨awake, _⟩ := waiting
        rw [same] at awake
        simp only [isSuspended, setThread, update_self,
          decide_eq_false_iff_not, not_not] at awake
        exact absurd awake suspended
      · exact others thread wait same waiting
  · exact ⟨linked, quiet⟩

theorem threadTimeout_orderly (id : ThreadId) (waitId : WaitId) (orderly : Orderly s) :
    Yields (threadTimeout s id waitId) Orderly := by
  have rearmed : Rearmed s (disarmTimeout s id waitId) := setThread_rearmed _ (disarmTimeout_bare _ waitId)
  have linked := rearmed.linked orderly.1
  have quiet := rearmed.quiet (observe_update suspend (by rfl)) orderly.2
  unfold threadTimeout
  simp only
  split
  · exact ⟨linked, quiet⟩
  rename_i wait rest was
  split
  · exact ⟨linked, quiet⟩
  split
  · exact ⟨linked, quiet⟩
  refine ensures_bind (endWait_ended was (linked.roomFor (mem_of_eq_cons was))) fun mid ended => ?_
  refine ensures_bind (wakeThreadLoop_woken _ (ended.linked linked) le_rfl) fun last ⟨woken, _⟩ => ?_
  refine ⟨woken.linked, woken.quiet fun other wait different waiting met => ?_⟩
  unfold Waiting at waiting
  rw [ended.others different] at waiting
  exact quiet other wait waiting (met.mono fun obj _ => ended.drained.signaled obj other)

end Actions

/-! ### Runs -/

/-- **The condition on an action**, in the state in which it is taken:

* a wait must not name a mutex whose recursion count the queued waits could make wrap around;
* an auto-reset event that is not signaled must not be set, and a semaphore whose count is zero
  must not be released, while there is a hazard in its queue. -/
def Careful (s : Server) : Action → Prop
  | .select _ _ objects _ =>
    ∀ obj, (s.objects obj).Room ((s.queue obj).length + objects.count obj)
  | .eventOp obj .set => s.objects obj = .event false false → ¬ Hazard s obj
  | .releaseSemaphore obj _ => (∃ max, s.objects obj = .semaphore 0 max) → ¬ Hazard s obj
  | _ => True

/-- **One careful action** leaves nobody blocked. -/
theorem step_orderly {action : Action} (orderly : Orderly s) (careful : Careful s action) :
    Yields (s.step action) Orderly := by
  cases action with
  | createEvent manual signaled => exact orderly.addObject trivial
  | createSemaphore initial max =>
    show Orderly (createSemaphore s _ _)
    unfold createSemaphore
    split
    · exact orderly
    · obtain ⟨linked, quiet⟩ : Orderly (s.addObject (.semaphore (initial % uintSize) (max % uintSize))) :=
        orderly.addObject trivial
      exact ⟨⟨linked.entries, linked.ids, linked.fresh, linked.named, linked.room⟩, quiet⟩
  | createMutex current owned =>
    show Orderly (createMutex s current owned)
    unfold createMutex
    split
    · obtain ⟨linked, quiet⟩ : Orderly (s.addObject (.mutex (some current) 1 false)) :=
        orderly.addObject (by simp [SyncObject.Room, uintSize])
      exact ⟨⟨linked.entries, linked.ids, linked.fresh, linked.named, linked.room⟩, quiet⟩
    · exact orderly.addObject (by simp [SyncObject.Room, uintSize])
  | select current op objects when_ => exact selectOn_orderly orderly careful
  | eventOp obj op =>
    simp only [step]
    split
    · split
      · rename_i manual signaled was
        cases op with
        | set => exact setEvent_orderly orderly was fun auto dark => careful (by rw [was, auto, dark])
        | reset => exact resetEvent_orderly orderly.1 (orderly.2.without obj)
        | pulse => exact pulseEvent_orderly orderly
      · exact orderly
    · exact orderly
  | releaseSemaphore obj count =>
    simp only [step]
    split
    · split
      · rename_i old max was
        exact releaseSemaphore_orderly orderly was fun zero => careful ⟨max, by rw [was, zero]⟩
      · exact orderly
    · exact orderly
  | releaseMutex current obj =>
    simp only [step]
    split
    · split
      · rename_i owner old abandoned was
        exact doRelease_orderly orderly was
      · exact orderly
    · exact orderly
  | suspendThread id => exact suspendThread_orderly id orderly
  | resumeThread id => exact resumeThread_orderly id orderly
  | timeout id wait =>
    simp only [step]
    split
    · exact threadTimeout_orderly id wait orderly
    · exact orderly
  | setCurrentTime current monotonic =>
    exact ⟨⟨orderly.1.entries, orderly.1.ids, orderly.1.fresh, orderly.1.named, orderly.1.room⟩,
      orderly.2⟩

theorem initial_orderly : Orderly initial :=
  ⟨⟨nofun, fun _ => nodup_nil, nofun, nofun, fun _ => trivial⟩, fun _ _ ⟨_, _, was⟩ => nomatch was⟩

/-- **In every careful run nobody is left blocked.** -/
theorem quiet_of_careful (s : Server) (run : Runs Server.step Careful Server.initial s) : Quiet s :=
  (run.invariant Orderly initial_orderly fun _ _ _ orderly careful => (step_orderly orderly careful).post).2

/-- A careful run: a mutex that is handed over to a waiting thread. -/
theorem quiet_of_careful_handover :
    ∃ s, Runs Server.step Careful Server.initial s ∧ (s.threads 2).wait = [] ∧ Quiet s := by
  obtain ⟨s, done, handed⟩ : ∃ s, runAll step (createMutex initial 1 true)
      [.select 2 .wait [0] timeoutInfinite, .releaseMutex 1 0] = .ok s ∧ (s.threads 2).wait = [] :=
    exists_ok_of_check _ (by decide +kernel)
  obtain ⟨mid, select, done⟩ := bind_eq_ok.mp done
  obtain ⟨last, release, done⟩ := bind_eq_ok.mp done
  cases done
  have run : Runs step Careful initial s := by
    refine head (show Careful initial (.createMutex 1 true) from trivial) rfl
      (head ?_ select (head (show Careful mid (.releaseMutex 1 0) from trivial) release (refl s)))
    intro obj
    by_cases first : obj = 0
    · subst first
      simp [createMutex, initial, addObject, setMutexList, SyncObject.Room, uintSize]
    · simp [createMutex, initial, addObject, setMutexList, SyncObject.Room, first]
  exact ⟨s, run, handed, quiet_of_careful s run⟩

/-- Two auto-reset events. Thread 1 waits for both of them until time 10, thread 2 for the first
one. At time 20, before the timeout callback of thread 1 has run, the first event is set. -/
def lostWakeup : List Action :=
  [.createEvent false false, .createEvent false false, .select 1 .waitAll [0, 1] 10,
    .select 2 .wait [0] timeoutInfinite, .setCurrentTime 20 20, .eventOp 0 .set]

/-- **The server does leave a thread blocked.** The wake-up goes to thread 1, whose wait has
expired; thread 2 stays blocked although its event is signaled. -/
theorem quiet_fails :
    ∃ s, runAll Server.step Server.initial lostWakeup = .ok s ∧
      Runs Server.step (fun _ _ => True) Server.initial s ∧ ¬ Quiet s := by
  obtain ⟨s, done, blocked, signaled⟩ : ∃ s, runAll step initial lostWakeup = .ok s ∧
      s.threads 2 = ⟨[⟨1, .wait, [0], timeoutInfinite, false⟩], 0⟩ ∧ s.objects 0 = .event false true :=
    exists_ok_of_check _ (by decide +kernel)
  refine ⟨s, done, runs_of_runAll done, fun quiet => ?_⟩
  refine quiet 2 ⟨1, .wait, [0], timeoutInfinite, false⟩ ?_ ?_
  · rw [Waiting, blocked]
    exact ⟨rfl, [], rfl⟩
  · refine ⟨0, mem_singleton_self 0, ?_⟩
    rw [signaled]
    rfl

end FreeWindows.Sync
