/-
**State updates of the server.**

What each of the small updates does to the fields that the proofs read: objects, the wait queues
and the threads when a new wait is built (`waitOn_objects`, `waitOn_threads`, `waitOn_queue`), and the
waits when timeout callbacks are registered or forgotten (`armTimeout_eq`, `disarmTimeout_bare`).
-/

import FreeWindows.Lib.Ensures
import FreeWindows.Sync.Model

namespace FreeWindows.Sync

open Lib Function List ThreadWait Server

theorem mem_of_eq_cons {α : Type} {list rest : List α} {first : α} (was : list = first :: rest) :
    first ∈ list := by
  rw [was]
  exact mem_cons_self

/-- The check of `select_on` for objects that do not exist. -/
theorem lt_of_known {s : Server} {objects : List ObjectId}
    (known : ¬(objects.any fun obj => decide (obj ≥ s.nextObject)) = true) :
    ∀ obj ∈ objects, obj < s.nextObject := by
  intro obj member
  by_contra unknown
  exact known (any_eq_true.mpr ⟨obj, member, decide_eq_true (Nat.le_of_not_lt unknown)⟩)

/-- What `check_wait` says: the objects are signaled, or the deadline has passed. -/
theorem checkWait_cases {s : Server} {thread : ThreadId} {wait : ThreadWait} {status : Nat}
    (check : checkWait s thread wait = some status) :
    (s.threads thread).isSuspended = false ∧ (s.signaledIndex thread wait = some status ∨
      s.signaledIndex thread wait = none ∧ s.expired wait = true ∧ status = statusTimeout) := by
  unfold checkWait at check
  split at check
  · cases check
  · rename_i awake
    refine ⟨eq_false_of_ne_true awake, ?_⟩
    split at check
    · rename_i found
      exact .inl (found.trans check)
    · rename_i none
      split at check
      · rename_i expired
        exact .inr ⟨none, expired, (Option.some.inj check).symm⟩
      · cases check

theorem setObject_self (s : Server) (obj : ObjectId) (object : SyncObject) :
    (s.setObject obj object).objects obj = object := by
  simp [setObject]

theorem setObject_other (s : Server) {obj other : ObjectId} (different : other ≠ obj)
    (object : SyncObject) : (s.setObject obj object).objects other = s.objects other := by
  simp [setObject, different]

/-- A wait after the innermost one was taken away is one of the old ones. -/
theorem mem_of_pop {s : Server} {thread other : ThreadId} {wait later : ThreadWait}
    {rest : List ThreadWait} (was : (s.threads thread).wait = wait :: rest) (member : later ∈
      (update s.threads thread { s.threads thread with wait := rest } other).wait) :
    later ∈ (s.threads other).wait := by
  by_cases same : other = thread
  · subst same
    rw [update_self] at member
    rw [was]
    exact mem_cons_of_mem _ member
  · rwa [update_of_ne same] at member

theorem addQueues_queue (s : Server) (entry : QueueEntry) (objects : List ObjectId)
    (obj : ObjectId) : (addQueues s entry objects).queue obj =
      s.queue obj ++ List.replicate (objects.count obj) entry := by
  induction objects generalizing s with
  | nil => simp [addQueues]
  | cons first rest ih =>
    rw [addQueues, ih]
    by_cases same : obj = first
    · subst same
      simp [setQueue, replicate_succ]
    · rw [count_cons_of_ne (Ne.symm same)]
      simp [setQueue, same]

theorem addQueues_rest (s : Server) (entry : QueueEntry) (objects : List ObjectId) :
    (addQueues s entry objects).objects = s.objects ∧
      (addQueues s entry objects).threads = s.threads ∧
      (addQueues s entry objects).nextObject = s.nextObject ∧
      (addQueues s entry objects).nextWait = s.nextWait ∧
      (addQueues s entry objects).history = s.history ∧
      (addQueues s entry objects).mutexList = s.mutexList := by
  induction objects generalizing s with
  | nil => exact ⟨rfl, rfl, rfl, rfl, rfl, rfl⟩
  | cons first rest ih => exact ih _

section WaitOn

variable {s : Server} {current : ThreadId} {select : SelectOp} {objects : List ObjectId}
  {when_ : Int}

theorem waitOn_objects : (waitOn s current select objects when_).objects = s.objects :=
  (addQueues_rest _ _ _).1

theorem waitOn_threads : (waitOn s current select objects when_).threads =
    update s.threads current { s.threads current with
      wait := ⟨s.nextWait, select, objects, when_, false⟩ :: (s.threads current).wait } :=
  (addQueues_rest _ _ _).2.1

theorem waitOn_queue (obj : ObjectId) : (waitOn s current select objects when_).queue obj =
    s.queue obj ++ List.replicate (objects.count obj) ⟨current, s.nextWait⟩ :=
  addQueues_queue _ _ _ _

theorem waitOn_nextObject :
    (waitOn s current select objects when_).nextObject = s.nextObject :=
  (addQueues_rest _ _ _).2.2.1

theorem waitOn_nextWait : (waitOn s current select objects when_).nextWait = s.nextWait + 1 :=
  (addQueues_rest _ _ _).2.2.2.1

theorem waitOn_history : (waitOn s current select objects when_).history = s.history :=
  (addQueues_rest _ _ _).2.2.2.2.1

theorem waitOn_wait : ((waitOn s current select objects when_).threads current).wait =
    ⟨s.nextWait, select, objects, when_, false⟩ :: (s.threads current).wait := by
  rw [waitOn_threads, update_self]

/-- A wait after the call is the new one or an old one. -/
theorem mem_waitOn {thread : ThreadId} {wait : ThreadWait}
    (member : wait ∈ ((waitOn s current select objects when_).threads thread).wait) :
    (thread = current ∧ wait = ⟨s.nextWait, select, objects, when_, false⟩) ∨
      wait ∈ (s.threads thread).wait := by
  rw [waitOn_threads] at member
  by_cases same : thread = current
  · subst same
    rw [update_self] at member
    exact (mem_cons.mp member).imp (fun new => ⟨rfl, new⟩) id
  · rw [update_of_ne same] at member
    exact .inr member

end WaitOn

/-! ### Timeout callbacks -/

/-- The wait without its timeout callback. -/
def ThreadWait.bare (wait : ThreadWait) : ThreadWait := { wait with user := false }

section Bare

variable {s : Server} {id : ThreadId} {thread : Thread} {wait old : ThreadWait} {waits olds : List ThreadWait}

theorem bare_eq (same : old.bare = wait.bare) :
    old.id = wait.id ∧ old.select = wait.select ∧ old.objects = wait.objects :=
  ⟨(mk.inj same).1, (mk.inj same).2.1, (mk.inj same).2.2.1⟩

theorem exists_bare (same : waits.map bare = olds.map bare)
    (member : wait ∈ waits) : ∃ old ∈ olds, old.bare = wait.bare :=
  mem_map.mp (same ▸ mem_map_of_mem member)

theorem setThread_bare (same : thread.wait.map bare = (s.threads id).wait.map bare)
    (other : ThreadId) : ((s.setThread id thread).threads other).wait.map bare =
      (s.threads other).wait.map bare :=
  observe_update (fun thread : Thread => thread.wait.map bare) same other

theorem armTimeout_eq (s : Server) (current : ThreadId) : ∃ waits,
    armTimeout s current = s.setThread current { s.threads current with wait := waits } ∧
      waits.map bare = (s.threads current).wait.map bare := by
  have same : s = s.setThread current (s.threads current) := by rw [setThread, update_eq_self]
  unfold armTimeout
  dsimp only
  split
  · exact ⟨_, same, rfl⟩
  · next wait rest was =>
    split
    · exact ⟨_, rfl, by rw [was]; rfl⟩
    · exact ⟨_, same, rfl⟩

theorem disarmTimeout_bare (waits : List ThreadWait) (waitId : WaitId) :
    (waits.map fun wait => if wait.id = waitId then { wait with user := false } else wait).map
      bare = waits.map bare := by
  rw [map_map]
  refine map_congr_left fun wait _ => ?_
  rw [comp_apply]
  split <;> rfl

end Bare

end FreeWindows.Sync
