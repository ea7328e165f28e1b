/-
**Mutexes along whole runs.**

Every action of the machine first changes mutexes directly (`Begins`: a mutex is created, released
or abandoned, or a wait is built) and then ends waits (`Leads`). `Machine.Inv` is kept by both, so
that `mutexes_sound` holds in every state of every run, as long as no recursion count has been too
large for its 32 bits: the server does not abort; the count of a mutex is positive exactly if it has
an owner, which is the one thread whose list contains it; only the owner can release it; a thread that
terminates frees its mutexes; and the waits that report an abandoned mutex are those that are the first
to acquire one whose owner has terminated.
-/

import FreeWindows.Sync.Owners

namespace FreeWindows.Sync

open Lib Function List SyncObject Server MutexAction

/-! ### Changes outside the objects -/

variable {s s' t : Server} {actor : Option ThreadId} {count : Nat} {flag : Bool} {m : Machine}

/-- Timeout callbacks are registered or forgotten, and nothing else: every wait is for the objects of an
old one, and no thread without a wait gets one. -/
theorem Shaped.leads_of_waits (shaped : Shaped s) (objects : s'.objects = s.objects)
    (mutexList : s'.mutexList = s.mutexList) (nextObject : s'.nextObject = s.nextObject)
    (history : s'.history = s.history)
    (waits : ∀ thread, ((s'.threads thread).wait.map ThreadWait.bare) =
      (s.threads thread).wait.map ThreadWait.bare) : Leads s s' [] := by
  refine ⟨shaped.rewait objects mutexList nextObject fun thread wait member => ?_,
    fun thread none => ⟨by rw [mutexList], ?_⟩, ⟨[], by rw [history, append_nil], fun _ => rfl⟩,
    fun log follows => ?_⟩
  · obtain ⟨old, inside, same⟩ := exists_bare (waits thread) member
    rw [← (bare_eq same).2.2]
    exact ⟨shaped.small thread old inside, shaped.named thread old inside⟩
  · have empty := waits thread
    rw [none] at empty
    exact map_eq_nil_iff.mp empty
  · rw [append_nil]
    exact follows.congr objects

/-! ### What happens before waits end -/

/-- **What an action does before any wait ends**; a thread without a wait, other than the one that
acts, gets neither a wait nor a mutex. -/
structure Begins (s t : Server) (actor : Option ThreadId) (events : List MutexEvent) : Prop where
  shaped : Shaped t
  history : t.history = s.history
  idle : ∀ id, actor ≠ some id → (s.threads id).wait = [] →
    t.mutexList id = s.mutexList id ∧ (t.threads id).wait = []
  follows : ∀ log, Follows s log → Follows t (log ++ events)

/-- The action leads from `s` to `s'`. -/
def Acts (s s' : Server) (actor : Option ThreadId) (events : List MutexEvent) : Prop :=
  ∃ t later, Begins s t actor events ∧ Leads t s' later

theorem Shaped.begins (shaped : Shaped s) (actor : Option ThreadId) : Begins s s actor [] :=
  ⟨shaped, rfl, fun _ _ none => ⟨rfl, none⟩, fun log follows => by simpa using follows⟩

variable {events log later : List MutexEvent} {obj : ObjectId} {base : List Happening}

theorem Begins.placed (begins : Begins s t actor events) (follows : Follows s log) :
    Placed s.history (log ++ events) t :=
  begins.history ▸ begins.shaped.placed (begins.follows log follows)

theorem Begins.acts (begins : Begins s t actor events) : Acts s t actor events :=
  ⟨t, [], begins, begins.shaped.leads⟩

theorem Begins.append {u : Server} {one two : List MutexEvent} (first : Begins s t actor one)
    (second : Begins t u actor two) :
    Begins s u actor (one ++ two) where
  shaped := second.shaped
  history := second.history.trans first.history
  idle id different none := by
    obtain ⟨same, none⟩ := first.idle id different none
    obtain ⟨same', none'⟩ := second.idle id different none
    exact ⟨same'.trans same, none'⟩
  follows log follows := by
    rw [← append_assoc]
    exact second.follows _ (first.follows log follows)

/-- An event that is no wait says nothing about reports. -/
theorem Follows.concat {event : MutexEvent} (follows : Follows s log)
    (direct : ∀ thread objects status, event ≠ .ended thread objects status)
    (tracks : Tracks s (depth log) (Pending log) →
      Tracks t (depth (log ++ [event])) (Pending (log ++ [event]))) : Follows t (log ++ [event]) := by
  intro shallow
  obtain ⟨before, reported⟩ := follows shallow.of_append
  exact ⟨tracks before, reported_concat reported fun thread objects status same =>
    absurd same (direct thread objects status)⟩

section Begins

variable {thread : ThreadId}

/-! ### Creating a mutex -/

/-- There is nothing where the next object goes. -/
theorem Shaped.fresh (shaped : Shaped s) : (s.objects s.nextObject).isMutex = false := by
  have none := (shaped.kinds s.nextObject).not.mp (Nat.lt_irrefl _)
  simpa using none

theorem SyncObject.plain {object : SyncObject} (other : object.isMutex = false) :
    object.owner? = none ∧ object.count = 0 ∧ object.isAbandoned = false := by
  cases object with
  | event manual lit => exact ⟨rfl, rfl, rfl⟩
  | semaphore count max => exact ⟨rfl, rfl, rfl⟩
  | mutex owner count abandoned => cases other

theorem createMutex_eq (s : Server) (current : ThreadId) (owned : Bool) : createMutex s current owned =
    (s.addObject (.mutex (if owned then some current else none) owned.toNat false)).setMutexList current
      (if owned then s.nextObject :: s.mutexList current else s.mutexList current) := by
  cases owned with
  | false => simp [createMutex, addObject, setMutexList]
  | true => rfl

theorem Shaped.createMutex (shaped : Shaped s) (current : ThreadId) (owned : Bool) :
    Shaped (createMutex s current owned) := by
  have noOwner := (plain shaped.fresh).1
  have listed := shaped.listed current s.nextObject
  rw [noOwner] at listed
  rw [createMutex_eq]
  refine shaped.replace rfl rfl rfl rfl (Nat.lt_succ_self _)
    (fun _ different => Nat.lt_succ_iff_lt_or_eq.trans (or_iff_left different)) (by simp [noOwner]) ?_ ?_
    (fun other different => by split <;> simp [different]) ?_
  all_goals cases owned
  all_goals simp [owner?, listed, shaped.nodup current]

theorem createMutex_begins (shaped : Shaped s) (current : ThreadId) (owned : Bool) :
    Begins s (createMutex s current owned) (some current)
      ((MutexAction.createMutex current owned).events s) := by
  obtain ⟨noOwner, noCount, noFlag⟩ := plain shaped.fresh
  refine ⟨shaped.createMutex current owned, by rw [createMutex_eq]; rfl, fun id different none => ?_,
    fun log follows => ?_⟩
  · rw [createMutex_eq]
    exact ⟨update_of_ne (fun same => different (by rw [same])) .., none⟩
  · cases owned with
    | false =>
      show Follows _ (log ++ [])
      intro shallow
      rw [append_nil] at shallow ⊢
      obtain ⟨tracks, reported⟩ := follows shallow
      refine ⟨tracks.replace (show _ = update _ s.nextObject _ from rfl) ?_ ?_ ?_
        fun _ _ => ⟨rfl, Iff.rfl⟩, reported⟩
      · rw [← tracks.counts, noCount]
        rfl
      · simp [SyncObject.count, SyncObject.owner?]
      · rw [← tracks.flags, noFlag]
        rfl
    | true =>
      refine follows.concat (fun _ _ _ same => by cases same) fun tracks =>
        tracks.replace (show _ = update _ s.nextObject _ from rfl) ?_ ?_ ?_ fun other different => ⟨?_, ?_⟩
      · simp [SyncObject.count, MutexEvent.depth]
      · simp [SyncObject.count, SyncObject.owner?]
      · rw [pending_concat, ← tracks.flags, noFlag]
        simp [isAbandoned]
      · simp [MutexEvent.depth, Ne.symm different]
      · simp [pending_concat]

/-! ### Building a wait -/

theorem waitOn_begins (shaped : Shaped s) (current : ThreadId) (select : SelectOp)
    {objects : List ObjectId} (when_ : Int)
    (small : objects.length ≤ maximumWaitObjects) (named : ∀ obj ∈ objects, obj < s.nextObject) :
    Begins s (waitOn s current select objects when_) (some current) [] := by
  have lists : (waitOn s current select objects when_).mutexList = s.mutexList :=
    (addQueues_rest _ _ _).2.2.2.2.2
  refine ⟨shaped.rewait waitOn_objects lists waitOn_nextObject fun id wait member => ?_, waitOn_history,
    fun id different none => ⟨by rw [lists], ?_⟩, fun log follows => ?_⟩
  · rcases mem_waitOn member with ⟨_, rfl⟩ | old
    · exact ⟨small, named⟩
    · exact ⟨shaped.small id wait old, shaped.named id wait old⟩
  · rw [waitOn_threads, update_of_ne fun same => different (by rw [same])]
    exact none
  · rw [append_nil]
    exact follows.congr waitOn_objects

theorem selectWait_leads (placed : Placed base log s) (current : ThreadId) :
    Ensures (Overflows base log) (selectWait s current) fun s' => ∃ events, Leads s s' events := by
  unfold selectWait
  split
  · exact ⟨[], placed.shaped.leads⟩
  · rename_i wait rest was
    split
    · rename_i status check
      exact ensures_bind (endWait_checked placed was check) fun _ done => done
    · obtain ⟨waits, armed, same⟩ := armTimeout_eq s current
      exact ⟨[], armed ▸ placed.shaped.leads_of_waits rfl rfl rfl rfl (setThread_bare same)⟩

/-- A wait that was just built can be checked. -/
theorem selectOn_eq (s : Server) (current : ThreadId) (select : SelectOp) (objects : List ObjectId)
    (when_ : Int) : selectOn s current select objects when_ =
      if objects.length > maximumWaitObjects then .ok s
      else if objects.any fun obj => decide (obj ≥ s.nextObject) then .ok s
      else selectWait (waitOn s current select objects when_) current := by
  unfold selectOn selectWait
  cases check : checkWait (waitOn s current select objects when_) current
      ⟨s.nextWait, select, objects, when_, false⟩ with
  | none => simp only [waitOn_wait, check]
  | some status => simp only [waitOn_wait, check]

theorem selectOn_acts (shaped : Shaped s) (follows : Follows s log) (current : ThreadId)
    (select : SelectOp) (objects : List ObjectId) (when_ : Int) :
    Ensures (Overflows s.history (log ++ [])) (selectOn s current select objects when_) fun s' =>
      Acts s s' (some current) [] := by
  rw [selectOn_eq]
  split
  · exact (shaped.begins _).acts
  · rename_i small
    split
    · exact (shaped.begins _).acts
    · rename_i named
      have begins := waitOn_begins shaped current select when_ (Nat.le_of_not_gt small) (lt_of_known named)
      exact (selectWait_leads (begins.placed follows) current).mono fun s' ⟨later, leads⟩ =>
        ⟨_, later, begins, leads⟩

/-! ### Releasing a mutex -/

/-- The server after the owner has released the mutex, before any thread wakes up: it holds it
`left` times more. -/
def Server.lower (s : Server) (obj : ObjectId) (thread : ThreadId) (left : Nat) (flag : Bool) :
    Server :=
  (s.setMutexList thread (if left = 0 then (s.mutexList thread).erase obj else s.mutexList thread)).setObject
    obj (.mutex (if left = 0 then none else some thread) left flag)

theorem Shaped.lower (shaped : Shaped s) (mutex : (s.objects obj).isMutex = true)
    (owner : (s.objects obj).owner? = some thread) (left : Nat) (flag : Bool) :
    Shaped (s.lower obj thread left flag) := by
  have listed := shaped.listed thread obj
  rw [owner] at listed
  refine shaped.replace rfl rfl rfl rfl ((shaped.kinds obj).mpr mutex) (fun _ _ => Iff.rfl) (by simp [owner]) ?_
    ?_ (fun other different => ?_) ?_
  all_goals by_cases zero : left = 0
  · simp [owner?, zero]
  · simp [owner?, zero]
  · simp [owner?, zero, (shaped.nodup thread).not_mem_erase]
  · simp [owner?, zero, listed]
  · simp [zero, mem_erase_of_ne different]
  · simp [zero]
  · simp [zero, (shaped.nodup thread).erase obj]
  · simp [zero, shaped.nodup thread]

variable {left : Nat} {owner : Option ThreadId}

theorem Tracks.lower {depths depths' : ObjectId → Nat} {pendings pendings' : ObjectId → Prop}
    (tracks : Tracks s depths pendings) (count : depths' obj = left)
    (pending : pendings' obj ↔ flag = true)
    (others : ∀ other, other ≠ obj → depths' other = depths other ∧ (pendings' other ↔ pendings other)) :
    Tracks (s.lower obj thread left flag) depths' pendings' := by
  refine tracks.replace rfl count.symm ?_ pending.symm others
  by_cases zero : left = 0
  · simp [SyncObject.count, SyncObject.owner?, zero]
  · simp [SyncObject.count, SyncObject.owner?, zero, Nat.pos_of_ne_zero zero]

variable {old : Nat}

/-- The owner lets go of the mutex, by a release or because it dies. -/
theorem lower_begins {event : MutexEvent} (shaped : Shaped s)
    (was : s.objects obj = .mutex (some thread) old flag) (left : Nat) (flag' : Bool)
    (direct : ∀ thread objects status, event ≠ .ended thread objects status)
    (tracks : ∀ log, Tracks s (depth log) (Pending log) →
      Tracks (s.lower obj thread left flag') (depth (log ++ [event])) (Pending (log ++ [event]))) :
    Begins s (s.lower obj thread left flag') (some thread) [event] := by
  refine ⟨shaped.lower (by rw [was]; rfl) (by rw [was]; rfl) _ _, rfl, fun id different none => ⟨?_, none⟩,
    fun log follows => follows.concat direct (tracks log)⟩
  exact update_of_ne (fun same => different (by rw [same])) ..

theorem release_begins (shaped : Shaped s) (was : s.objects obj = .mutex (some thread) old flag) :
    Begins s (s.lower obj thread (old - 1) flag) (some thread) [.released obj thread] := by
  refine lower_begins shaped was _ _ (fun _ _ _ same => nomatch same) fun log tracks => ?_
  have count := tracks.counts obj
  have pending := tracks.flags obj
  rw [was] at count pending
  refine tracks.lower ?_ ?_ fun other different => ⟨?_, ?_⟩
  · simp [MutexEvent.depth, ← count, SyncObject.count]
  · rw [pending_concat, ← pending]
    simp [isAbandoned]
  · simp [MutexEvent.depth, Ne.symm different]
  · simp [pending_concat]

theorem abandon_begins (shaped : Shaped s) (was : s.objects obj = .mutex (some thread) old flag) :
    Begins s (s.lower obj thread 0 true) (some thread) [.abandoned obj thread] := by
  refine lower_begins shaped was _ _ (fun _ _ _ same => nomatch same) fun log tracks => ?_
  refine tracks.lower ?_ ?_ fun other different => ⟨?_, ?_⟩
  · simp [MutexEvent.depth]
  · simp [pending_concat]
  · simp [MutexEvent.depth, Ne.symm different]
  · simp [pending_concat, Ne.symm different]

/-- What the release does before threads wake up, and that they do. -/
theorem doRelease_leads (held : old ≠ 0)
    (placed : Placed base log (s.lower obj thread (old - count) flag)) :
    Ensures (Overflows base log) (doRelease s obj (some thread) old flag thread count) fun s' =>
      ∃ later, Leads (s.lower obj thread (old - count) flag) s' later := by
  unfold doRelease
  rw [if_neg (by simp [held])]
  unfold lower at placed ⊢
  by_cases free : old - count = 0
  · simp only [free, if_true] at placed ⊢
    exact ((leads_rule base log).wakeUp placed obj 0).mono fun _ done => done.1
  · simp only [if_neg free, setMutexList, update_eq_self] at placed ⊢
    exact ⟨[], placed.shaped.leads⟩

theorem owns_iff (was : s.objects obj = .mutex owner old flag) :
    s.owns thread obj = true ↔ old ≠ 0 ∧ owner = some thread := by
  unfold owns
  rw [was]
  simp

theorem isMutex_of_owns (owns : s.owns thread obj = true) : (s.objects obj).isMutex = true := by
  unfold Server.owns at owns
  split at owns
  · rename_i was
    rw [was]
    rfl
  · cases owns

end Begins

theorem serve_refused {current : ThreadId} (refused : ¬ s.owns current obj = true) :
    (releaseMutex current obj).serve s = .ok s := by
  show s.step (.releaseMutex current obj) = .ok s
  unfold step
  simp only
  split
  · split
    · rename_i was
      exact if_pos (by rw [owns_iff was] at refused; tauto)
    · rfl
  · rfl

/-! ### The actions -/

section Actions

theorem resumeThread_leads (placed : Placed base log s) (id : ThreadId) :
    Ensures (Overflows base log) (resumeThread s id) fun s' => ∃ events, Leads s s' events := by
  have resumed : ∀ suspend, Leads s (s.setThread id { s.threads id with suspend := suspend }) [] :=
    fun suspend => placed.shaped.leads_of_waits rfl rfl rfl rfl (setThread_bare rfl)
  unfold resumeThread
  simp only
  split
  · split
    · exact ensures_bind ((leads_rule base log).wakeThread ((resumed _).placed placed) id)
        fun _ ⟨⟨later, leads⟩, _⟩ => ⟨_, (resumed _).append leads⟩
    · exact ⟨[], resumed _⟩
  · exact ⟨[], placed.shaped.leads⟩

theorem threadTimeout_leads (placed : Placed base log s) (id : ThreadId) (waitId : WaitId) :
    Ensures (Overflows base log) (threadTimeout s id waitId) fun s' => ∃ events, Leads s s' events := by
  have disarmed : Leads s (disarmTimeout s id waitId) [] :=
    placed.shaped.leads_of_waits rfl rfl rfl rfl (setThread_bare (disarmTimeout_bare _ waitId))
  unfold threadTimeout
  simp only
  split
  · exact ⟨[], disarmed⟩
  · rename_i wait rest was
    split
    · exact ⟨[], disarmed⟩
    · split
      · exact ⟨[], disarmed⟩
      · have placed := disarmed.placed placed
        refine ensures_bind (endWait_failed placed was (Nat.le_refl _))
          fun result ⟨⟨events, ended⟩, _⟩ => ?_
        exact ensures_bind ((leads_rule base log).wakeThread (ended.placed placed) id)
          fun _ ⟨⟨later, woken⟩, _⟩ => ⟨_, disarmed.append (ended.append woken)⟩

variable (shaped : Shaped s) (follows : Follows s log)
include shaped follows

theorem releaseMutex_acts (current : ThreadId) (obj : ObjectId) :
    Ensures (Overflows s.history (log ++ (releaseMutex current obj).events s))
      ((releaseMutex current obj).serve s) fun s' =>
        Acts s s' (some current) ((releaseMutex current obj).events s) := by
  by_cases owns : s.owns current obj = true
  · have mutex := isMutex_of_owns owns
    obtain ⟨owner, old, flag, was⟩ := isMutex_iff.mp mutex
    simp only [serve, events, step, if_pos owns, if_pos ((shaped.kinds obj).mpr mutex), was]
    obtain ⟨held, rfl⟩ := (owns_iff was).mp owns
    have begins := release_begins shaped was
    refine (doRelease_leads held (begins.placed follows)).mono ?_
    rintro s' ⟨later, leads⟩
    exact ⟨_, later, begins, leads⟩
  · rw [serve_refused owns]
    simp only [events, if_neg owns]
    exact (shaped.begins _).acts

theorem signalAndWait_acts (current : ThreadId) (signal wait : ObjectId) (when_ : Int) :
    Ensures (Overflows s.history
        (log ++ (MutexAction.signalAndWait current signal wait when_).events s))
      (signalAndWait s current signal wait when_) fun s' =>
        Acts s s' (some current) ((MutexAction.signalAndWait current signal wait when_).events s) := by
  simp only [events]
  unfold signalAndWait
  by_cases outside : wait ≥ s.nextObject
  · rw [if_pos outside, if_neg fun both => absurd both.1 (Nat.not_lt.mpr outside)]
    exact (shaped.begins _).acts
  · have inside := Nat.not_le.mp outside
    rw [if_neg outside]
    have built := @waitOn_begins s shaped current .wait [wait] when_ (Nat.one_le_two_pow (n := 6))
      (by simpa using inside)
    have was := @waitOn_wait s current .wait [wait] when_
    have owns_eq : (waitOn s current .wait [wait] when_).owns current signal = s.owns current signal := by
      unfold owns
      rw [waitOn_objects]
    rw [← owns_eq]
    simp only [inside, true_and]
    generalize waitOn s current .wait [wait] when_ = w at built was
    have failed : ∀ status, statusTimeout ≤ status → Ensures (Overflows s.history (log ++ []))
        (endWait w current status) fun result => Acts s result.1 (some current) [] := fun status le =>
      (endWait_failed (built.placed follows) was le).mono fun _ ⟨⟨later, leads⟩, _⟩ =>
        ⟨w, later, built, leads⟩
    by_cases outside : signal ≥ w.nextObject
    · simp only [if_pos outside, if_neg fun owns => Nat.not_lt.mpr outside
        ((built.shaped.kinds signal).mpr (isMutex_of_owns owns))]
      exact ensures_bind (failed _ (by decide)) fun _ done => done
    · obtain ⟨owner, old, flag, mutex⟩ := isMutex_iff.mp
        ((built.shaped.kinds _).mp (Nat.not_le.mp outside))
      simp only [if_neg outside, mutex]
      by_cases owns : w.owns current signal = true
      · simp only [if_pos owns]
        obtain ⟨held, rfl⟩ := (owns_iff mutex).mp owns
        have begins := built.append (release_begins built.shaped mutex)
        have placed := begins.placed follows
        refine ensures_bind (doRelease_leads held placed) fun mid ⟨later, leads⟩ => ?_
        exact (selectWait_leads (leads.placed placed) current).mono fun s' ⟨last, woken⟩ =>
          ⟨_, _, begins, leads.append woken⟩
      · simp only [if_neg owns]
        exact ensures_bind (failed _ (by decide)) fun _ done => done

/-- Whatever only ends waits is an action that changes no mutex itself. -/
theorem Shaped.acts (actor : Option ThreadId) {x : Except Failure Server}
    (leads : Placed s.history (log ++ []) s →
      Ensures (Overflows s.history (log ++ [])) x fun s' => ∃ events, Leads s s' events) :
    Ensures (Overflows s.history (log ++ [])) x fun s' => Acts s s' actor [] :=
  (leads ((shaped.begins actor).placed follows)).mono fun _ ⟨later, leads⟩ =>
    ⟨s, later, shaped.begins actor, leads⟩

/-- **Every action** changes mutexes as its events tell, and then ends waits. -/
theorem MutexAction.serve_acts (action : MutexAction) :
    Ensures (Overflows s.history (log ++ action.events s)) (action.serve s) fun s' =>
      Acts s s' action.thread? (action.events s) := by
  cases action with
  | createMutex current owned => exact (createMutex_begins shaped current owned).acts
  | select current op objects when_ => exact selectOn_acts shaped follows current op objects when_
  | signalAndWait current signal wait when_ =>
    exact signalAndWait_acts shaped follows current signal wait when_
  | releaseMutex current obj => exact releaseMutex_acts shaped follows current obj
  | suspendThread id =>
    refine shaped.acts follows (some id) fun _ => ⟨[], ?_⟩
    unfold Sync.suspendThread
    simp only
    split
    · exact shaped.leads_of_waits rfl rfl rfl rfl (setThread_bare rfl)
    · exact shaped.leads
  | resumeThread id => exact shaped.acts follows none fun placed => resumeThread_leads placed id
  | timeout id wait =>
    refine shaped.acts follows none fun placed => ?_
    simp only [serve]
    unfold step
    simp only
    split
    · exact threadTimeout_leads placed id wait
    · exact ⟨[], shaped.leads⟩
  | setCurrentTime current monotonic =>
    exact shaped.acts follows none fun _ =>
      ⟨[], shaped.leads_of_waits rfl rfl rfl rfl fun _ => rfl⟩
  | terminate id => exact shaped.acts follows none fun _ => ⟨[], shaped.leads⟩

end Actions

/-! ### Threads that terminate -/

/-- **The invariant of the machine.** A thread that has terminated waits for nothing and owns no
mutex; `dying` is one that is still about to lose its own. -/
structure Machine.Inv (m : Machine) (dying : Option ThreadId) : Prop where
  shaped : Shaped m.server
  follows : Follows m.server m.log
  dead : ∀ id, m.terminated id = true → dying ≠ some id →
    (m.server.threads id).wait = [] ∧ (Shallow m.log → m.server.mutexList id = [])

theorem advance_log (m : Machine) (events : List MutexEvent) (history : t.history = m.server.history)
    (leads : Leads t s' later) : (m.advance events s').log = m.log ++ events ++ later := by
  obtain ⟨calls, grown, reads⟩ := leads.history
  have read := reads []
  rw [append_nil, waitsOf, append_nil] at read
  show m.log ++ events ++ waitsOf [] (s'.history.drop m.server.history.length) = _
  rw [grown, history, drop_left, read]

/-- **The machine advances**: an action of a thread that is alive, or of the one that dies. -/
theorem Machine.Inv.advance {dying : Option ThreadId} (inv : m.Inv dying)
    (begins : Begins m.server t actor events) (leads : Leads t s' later)
    (alive : ∀ id, actor = some id → m.terminated id = true → dying = some id) :
    (m.advance events s').Inv dying := by
  have log := advance_log m events begins.history leads
  refine ⟨leads.shaped, ?_, fun id gone other => ?_⟩
  · rw [log]
    exact leads.follows _ (begins.follows _ inv.follows)
  · obtain ⟨none, lost⟩ := inv.dead id gone other
    obtain ⟨same, none⟩ := begins.idle id (fun acts => other (alive id acts gone)) none
    obtain ⟨same', none'⟩ := leads.idle id none
    refine ⟨none', fun shallow => ?_⟩
    rw [log, append_assoc] at shallow
    exact (same'.trans same).trans (lost shallow.of_append)

/-- **The server aborts because a recursion count was too large**, and fails the assertion on the owner
of a mutex then. -/
def WrappedAbort : Abort → Prop
  | .assertion failure log => failure = .mutexOwner ∧ ¬ Shallow log
  | .abandonOwner => False

theorem ensures_abort {α : Type} {x : Except Failure α} {post : α → Prop}
    (ensures : Ensures (Overflows m.server.history (m.log ++ events)) x post) :
    Ensures WrappedAbort (x.mapError (m.abort events)) post :=
  ensures.mapError fun _ => id

theorem endWaits_leads (id : ThreadId) (placed : Placed base log s) (fuel : Nat)
    (enough : (s.threads id).wait.length ≤ fuel) :
    Ensures (Overflows base log) (endWaits id fuel s) fun s' =>
      (∃ events, Leads s s' events) ∧ (s'.threads id).wait = [] ∧ s'.mutexList = s.mutexList := by
  induction fuel generalizing s with
  | zero => exact ⟨⟨[], placed.shaped.leads⟩, length_eq_zero_iff.mp (Nat.le_zero.mp enough), rfl⟩
  | succ fuel ih =>
    rw [endWaits]
    split
    · rename_i idle
      exact ⟨⟨[], placed.shaped.leads⟩, idle, rfl⟩
    · rename_i wait rest was
      refine ensures_bind (endWait_failed placed was (by decide))
        fun result ⟨⟨_, ended⟩, left, lists⟩ => ?_
      rw [was, length_cons] at enough
      exact (ih (ended.placed placed) (by rw [left]; omega)).mono fun s' ⟨⟨_, later⟩, idle, lists'⟩ =>
        ⟨⟨_, ended.append later⟩, idle, lists'.trans lists⟩

/-- A thread that dies no longer waits. -/
structure Machine.Dying (m : Machine) (id : ThreadId) : Prop where
  inv : m.Inv (some id)
  idle : (m.server.threads id).wait = []

section Abandon

variable {id : ThreadId}

/-- Marking a mutex whose count has wrapped around to zero, which cannot be released any more. -/
theorem marked_begins (shaped : Shaped s) (was : s.objects obj = .mutex (some id) 0 flag) :
    Begins s (s.setObject obj (.mutex (some id) 0 true)) (some id) [.abandoned obj id] := by
  refine ⟨shaped.replace rfl (update_eq_self id _).symm rfl rfl ((shaped.kinds obj).mpr (by rw [was]; rfl))
    (fun _ _ => Iff.rfl) (by simp [was, owner?]) (by simp [owner?]) ?_ (fun _ _ => Iff.rfl) (shaped.nodup id),
    rfl, fun _ _ idle => ⟨rfl, idle⟩, fun log follows shallow => ?_⟩
  · exact (shaped.listed id obj).trans (by rw [was]; rfl)
  · have wrapped := (follows shallow.of_append).1.owners obj
    rw [was] at wrapped
    simp [SyncObject.count, SyncObject.owner?] at wrapped

/-- **One round of `abandon_mutexes`.** -/
theorem abandon_acts (shaped : Shaped s) (follows : Follows s log)
    (was : s.objects obj = .mutex (some id) count flag) :
    Ensures (Overflows s.history (log ++ [.abandoned obj id]))
        (doRelease (s.setObject obj (.mutex (some id) count true)) obj (some id) count true id count)
      fun s' => ∃ t later, Begins s t (some id) [.abandoned obj id] ∧ Leads t s' later ∧
        t.threads = s.threads ∧
        (count ≠ 0 → t.mutexList id = (s.mutexList id).erase obj) := by
  by_cases held : count = 0
  · subst held
    have begins := marked_begins shaped was
    exact ⟨_, [], begins, begins.shaped.leads, rfl, fun positive => absurd rfl positive⟩
  · have begins := abandon_begins shaped was
    have same : (s.setObject obj (.mutex (some id) count true)).lower obj id (count - count) true =
        s.lower obj id 0 true := by
      simp [lower, setObject, setMutexList]
    have leads := doRelease_leads held (same ▸ begins.placed follows)
    rw [same] at leads
    refine leads.mono ?_
    rintro s' ⟨later, leads⟩
    exact ⟨_, later, begins, leads, rfl, fun _ => update_self ..⟩

theorem Shaped.owned (shaped : Shaped s) (member : obj ∈ s.mutexList id) :
    ∃ count flag, s.objects obj = .mutex (some id) count flag := by
  have owner := (shaped.listed id obj).mp member
  cases was : s.objects obj with
  | event manual lit => simp [was, owner?] at owner
  | semaphore count max => simp [was, owner?] at owner
  | mutex other count flag =>
    obtain rfl : other = some id := by simpa [was, owner?] using owner
    exact ⟨count, flag, rfl⟩

end Abandon

/-- **The loop of `abandon_mutexes`**: every mutex of the thread is abandoned. -/
theorem abandonMutexes_ensures (id : ThreadId) (fuel : Nat) (dying : m.Dying id) :
    Ensures WrappedAbort (abandonMutexes id fuel m) fun m' =>
      m'.Dying id ∧ m'.terminated = m.terminated ∧ ∃ new, m'.log = m.log ++ new ∧
        (Shallow m'.log → (m.server.mutexList id).length ≤ fuel →
          m'.server.mutexList id = [] ∧ ∀ obj ∈ m.server.mutexList id, .abandoned obj id ∈ new) := by
  induction fuel generalizing m with
  | zero =>
    refine ⟨dying, rfl, [], by simp, fun _ enough => ?_⟩
    have empty := length_eq_zero_iff.mp (Nat.le_zero.mp enough)
    exact ⟨empty, by simp [empty]⟩
  | succ fuel ih =>
    rw [abandonMutexes]
    split
    · rename_i empty
      exact ⟨dying, rfl, [], by simp, fun _ _ => ⟨empty, by simp [empty]⟩⟩
    · rename_i obj rest was
      obtain ⟨count, flag, mutex⟩ := dying.inv.shaped.owned
        (mem_of_eq_cons was)
      rw [mutex]
      simp only [ne_eq, not_true_eq_false, if_false]
      refine ensures_bind (ensures_abort (abandon_acts dying.inv.shaped dying.inv.follows mutex))
        fun s' ⟨t, later, begins, leads, threads, list⟩ => ?_
      have log := advance_log m [.abandoned obj id] begins.history leads
      have idle := leads.idle id (by rw [threads]; exact dying.idle)
      refine (ih ⟨dying.inv.advance begins leads fun _ acts _ => acts, idle.2⟩).mono
        fun final ⟨finalDying, terminated, new, grown, lost⟩ => ?_
      refine ⟨finalDying, terminated, [.abandoned obj id] ++ later ++ new, ?_, fun shallow enough => ?_⟩
      · rw [grown, log]
        simp
      · have held : count ≠ 0 := by
          rw [grown, log, append_assoc, append_assoc] at shallow
          have positive := (dying.inv.follows shallow.of_append).1.owners obj
          rw [mutex] at positive
          exact Nat.ne_of_gt (positive.mpr (nomatch ·))
        have remains : (m.advance [.abandoned obj id] s').server.mutexList id = rest := by
          show s'.mutexList id = rest
          rw [idle.1, list held, was, erase_cons_head]
        rw [was, length_cons] at enough
        obtain ⟨none, all⟩ := lost shallow (by rw [remains]; omega)
        refine ⟨none, fun other member => ?_⟩
        rw [was] at member
        rcases mem_cons.mp member with rfl | inside
        · simp
        · rw [remains] at all
          exact mem_append_right _ (all other inside)

/-- **`kill_thread`**: the thread has terminated, and every mutex it owned was abandoned. -/
theorem killThread_ensures (inv : m.Inv none) (id : ThreadId) :
    Ensures WrappedAbort (m.killThread id) fun m' =>
      m'.Inv none ∧ m'.terminated id = true ∧ ∃ new, m'.log = m.log ++ new ∧
        (Shallow m'.log → ∀ obj ∈ m.server.mutexList id, .abandoned obj id ∈ new) := by
  unfold Machine.killThread
  split
  · rename_i gone
    refine ⟨inv, gone, [], by simp, fun shallow obj member => ?_⟩
    rw [(inv.dead id gone (nomatch ·)).2 shallow] at member
    cases member
  · refine ensures_bind (ensures_abort (endWaits_leads id ((inv.shaped.begins none).placed inv.follows)
      _ (Nat.le_refl _)))
      fun s ⟨⟨events, leads⟩, idle, lists⟩ => ?_
    have marked : ({ m with terminated := update m.terminated id true } : Machine).Inv (some id) := by
      refine ⟨inv.shaped, inv.follows, fun other gone different => ?_⟩
      have alive : update m.terminated id true other = m.terminated other :=
        update_of_ne (fun same => different (by rw [same])) ..
      exact inv.dead other (alive ▸ gone) (nomatch ·)
    have dying := marked.advance (inv.shaped.begins none) leads (fun _ acts => nomatch acts)
    have log := advance_log { m with terminated := update m.terminated id true } [] rfl leads
    refine (abandonMutexes_ensures id _ ⟨dying, idle⟩).mono
      fun m' ⟨last, terminated, new, grown, lost⟩ => ?_
    have dead : m'.terminated id = true := by
      rw [terminated]
      exact update_self ..
    refine ⟨⟨last.inv.shaped, last.inv.follows, fun other gone _ => ?_⟩, dead, events ++ new, ?_,
      fun shallow obj member => ?_⟩
    · by_cases same : other = id
      · subst same
        exact ⟨last.idle, fun shallow => (lost shallow (Nat.le_refl _)).1⟩
      · exact last.inv.dead other gone fun dies => same (Option.some.inj dies).symm
    · rw [grown, log]
      simp
    · refine mem_append_right _ ((lost shallow (Nat.le_refl _)).2 obj ?_)
      show obj ∈ s.mutexList id
      rwa [lists]

/-! ### Whole runs -/

theorem initial_inv : Machine.initial.Inv none where
  shaped := by
    refine ⟨fun obj => ?_, fun _ _ member => ?_, fun _ _ member => ?_, fun _ obj => ?_, fun _ => ?_⟩
    · simp [Machine.initial, initial, isMutex]
    · cases member
    · cases member
    · simp [Machine.initial, initial, owner?]
    · exact nodup_nil
  follows _ := by
    refine ⟨⟨fun obj => rfl, fun obj => ?_, fun obj => ?_⟩, fun front _ _ _ _ same => ?_⟩
    · simp [Machine.initial, initial, SyncObject.owner?, SyncObject.count]
    · refine iff_of_false (by rintro ⟨⟩) ?_
      rintro ⟨_, _, _, same, _⟩
      exact absurd same.symm (by simp [Machine.initial])
    · exact absurd same.symm (by simp [Machine.initial])
  dead _ gone := by cases gone

/-- **One action keeps the invariant.** -/
theorem Machine.step_inv (inv : m.Inv none) (action : MutexAction) :
    Ensures WrappedAbort (m.step action) fun m' => m'.Inv none := by
  unfold Machine.step
  split
  · exact inv
  · rename_i alive
    unfold Machine.perform
    split
    · exact (killThread_ensures inv _).mono fun _ done => done.1
    · refine ensures_bind (ensures_abort (action.serve_acts inv.shaped inv.follows))
        fun s ⟨t, later, begins, leads⟩ => ?_
      exact inv.advance begins leads fun id acts gone => absurd gone (by rwa [acts] at alive)

/-- **What the source promises about mutexes.** -/
structure MutexesSound (m : Machine) : Prop where
  /-- The count is positive exactly if there is an owner, and the owner is the only thread whose
  list contains the mutex. -/
  owned : ∀ obj owner count flag, m.server.objects obj = .mutex owner count flag →
    (0 < count ↔ ∃ id, owner = some id) ∧ ∀ id, obj ∈ m.server.mutexList id ↔ owner = some id
  /-- The count is that of the log: acquisitions, less the releases of the owner. -/
  counted : ∀ obj owner count flag, m.server.objects obj = .mutex owner count flag →
    count = depth m.log obj
  /-- A release by any other thread changes nothing. -/
  refused : ∀ current obj owner count flag, m.server.objects obj = .mutex owner count flag →
    owner ≠ some current → m.step (.releaseMutex current obj) = .ok m
  /-- A thread that terminates abandons each of its mutexes, and owns none any more. -/
  freed : ∀ id, Ensures WrappedAbort (m.step (.terminate id)) fun m' => Shallow m'.log →
    (∃ new, m'.log = m.log ++ new ∧ ∀ obj ∈ m.server.mutexList id, .abandoned obj id ∈ new) ∧
      ∀ obj count flag, m'.server.objects obj ≠ .mutex (some id) count flag
  /-- A wait reports an abandoned mutex exactly if it is the first to acquire one since its owner
  terminated. -/
  reported : ∀ front thread objects status back,
    m.log = front ++ .ended thread objects status :: back →
      (ReportsAbandoned status ↔ ∃ obj ∈ objects, Pending front obj)

theorem releaseMutex_refused {current : ThreadId} (refused : ¬ m.server.owns current obj = true) :
    m.step (.releaseMutex current obj) = .ok m := by
  unfold Machine.step
  split
  · rfl
  · unfold Machine.perform
    simp only [serve_refused refused, events, if_neg refused]
    exact congrArg Except.ok (by simp [Machine.advance, waitsOf] : m.advance [] m.server = m)

theorem Machine.Inv.sound (inv : m.Inv none) (shallow : Shallow m.log) : MutexesSound m := by
  obtain ⟨tracks, reported⟩ := inv.follows shallow
  refine ⟨fun obj owner count flag was => ⟨?_, fun id => ?_⟩, fun obj owner count flag was => ?_,
    fun current obj owner count flag was other => releaseMutex_refused fun owns => ?_,
    fun id => (killThread_ensures inv id).mono fun m' ⟨after, gone, new, grown, abandoned⟩ later => ?_,
    reported⟩
  · have owners := tracks.owners obj
    rw [was] at owners
    exact owners.trans Option.ne_none_iff_exists'
  · have listed := inv.shaped.listed id obj
    rwa [was] at listed
  · have counts := tracks.counts obj
    rwa [was] at counts
  · exact other ((owns_iff was).mp owns).2
  · refine ⟨⟨new, grown, abandoned later⟩, fun obj count flag was => ?_⟩
    have member := (after.shaped.listed id obj).mpr (by rw [was]; rfl)
    rw [(after.dead id gone (nomatch ·)).2 later] at member
    cases member

/-- **Mutexes along every run** of creations, waits, releases and terminations: as long as no
recursion count has been too large for its 32 bits, the server does not abort and they are sound. -/
theorem mutexes_sound (actions : List MutexAction) :
    Ensures WrappedAbort (runAll Machine.step Machine.initial actions) fun m =>
      Shallow m.log → MutexesSound m :=
  (ensures_runAll (fun _ action inv => Machine.step_inv inv action) initial_inv actions).mono
    fun _ inv => inv.sound

/-- How often an event acquires a mutex, at most. -/
def MutexEvent.grabs : MutexEvent → Nat
  | .created _ _ => 1
  | .ended _ objects _ => objects.length
  | _ => 0

theorem foldl_depth_le (obj : ObjectId) (start : Nat) :
    log.foldl (MutexEvent.depth obj) start ≤ start + (log.map MutexEvent.grabs).sum := by
  induction log generalizing start with
  | nil => exact Nat.le_refl _
  | cons event log ih =>
    have here : event.depth obj start ≤ start + event.grabs := by
      cases event with
      | ended thread objects status => exact Nat.add_le_add_left count_le_length _
      | _ => simp only [MutexEvent.depth, MutexEvent.grabs]; split <;> omega
    rw [foldl_cons, map_cons, sum_cons]
    have := ih (event.depth obj start)
    omega

/-- A run with few acquisitions has small recursion counts. -/
theorem shallow_of_grabs (few : (log.map MutexEvent.grabs).sum < uintSize) : Shallow log := by
  rintro front ⟨back, rfl⟩ obj
  have := @foldl_depth_le front obj 0
  rw [map_append, sum_append] at few
  unfold depth
  omega

/-- Thread 1 dies with a mutex that thread 2 waits for; thread 2 gets it, and is told; then thread 3
gets it after a release, and is not. -/
def handedOver : List MutexAction :=
  [.createMutex 1 true, .select 2 .wait [0] timeoutInfinite, .terminate 1, .releaseMutex 2 0,
    .select 3 .wait [0] timeoutInfinite]

theorem mutexes_sound_handedOver : ∃ m, runAll Machine.step Machine.initial handedOver = .ok m ∧
    m.log = [.created 0 1, .abandoned 0 1, .ended 2 [0] 0x80, .released 0 2, .ended 3 [0] 0] ∧
    MutexesSound m := by
  obtain ⟨m, done, log⟩ := exists_ok_of_check (x := runAll Machine.step Machine.initial handedOver)
    (·.log = [.created 0 1, .abandoned 0 1, .ended 2 [0] 0x80, .released 0 2, .ended 3 [0] 0])
    (by decide +kernel)
  refine ⟨m, done, log, (mutexes_sound handedOver).post done ?_⟩
  rw [log]
  exact shallow_of_grabs (by decide)

end FreeWindows.Sync
