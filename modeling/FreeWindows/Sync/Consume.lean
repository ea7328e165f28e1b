/-
**What a satisfied wait does to its objects.**

Each call of `satisfied` takes something away from an object. `Uses s s' objects` says what a
sequence of such calls can do, and everything else that it leaves alone:

* for no thread is anything signaled that was not signaled before (unless the recursion count of a
  mutex wraps around);
* the amount that an auto-reset event or a semaphore offers drops by the number of calls;
* the recursion count of a mutex grows by at most the number of calls.

`endWait_ended` states the same for `end_wait`, with the wait and its queue entries gone.
-/

import FreeWindows.Sync.Updates

namespace FreeWindows.Sync

open Lib Function List SyncObject Server

/-! ### One object -/

/-- How many waits the object can still satisfy, for the objects that waits use up. -/
def SyncObject.amount : SyncObject → Nat
  | .event false true => 1
  | .semaphore count _ => count
  | _ => 0

/-- The recursion count, if the object is a mutex, can grow by `n` without wrapping around. -/
def SyncObject.Room (object : SyncObject) (n : Nat) : Prop :=
  match object with
  | .mutex _ count _ => count + n < uintSize
  | _ => True

variable {object : SyncObject} {thread : ThreadId} {s s' : Server} {m n : Nat} {obj : ObjectId}

theorem SyncObject.Room.mono (room : object.Room n) (le : m ≤ n) : object.Room m := by
  cases object with
  | event manual signaled => exact trivial
  | semaphore count max => exact trivial
  | mutex owner count abandoned =>
    simp only [SyncObject.Room] at *
    omega

/-- Waits use the object up: an auto-reset event or a semaphore. -/
def SyncObject.Consumable : SyncObject → Prop
  | .event manual _ => manual = false
  | .semaphore _ _ => True
  | .mutex _ _ _ => False

theorem SyncObject.Consumable.signaled_iff (consumable : object.Consumable) (thread : ThreadId) :
    object.signaled thread = true ↔ 0 < object.amount := by
  cases object with
  | event manual signaled =>
    cases consumable
    cases signaled <;> simp [signaled, amount]
  | semaphore count max => simp [signaled, amount]
  | mutex owner count abandoned => exact consumable.elim

/-- What one or more calls of `satisfied` can do to an object. -/
structure Uses1 (object after : SyncObject) (calls : Nat) : Prop where
  signaled : ∀ thread, after.signaled thread = true → object.signaled thread = true
  amount : after.amount ≤ object.amount - calls
  room : ∀ n, object.Room (calls + n) → after.Room n
  consumable : object.Consumable → after.Consumable

theorem uses1_refl (object : SyncObject) : Uses1 object object 0 :=
  ⟨fun _ h => h, Nat.le_refl _, fun _ room => room.mono (Nat.le_add_left _ _), fun h => h⟩

theorem Uses1.trans {first second third : SyncObject} (one : Uses1 first second m)
    (two : Uses1 second third n) : Uses1 first third (m + n) := by
  refine ⟨fun thread h => one.signaled thread (two.signaled thread h), ?_, fun k room => ?_,
    fun h => two.consumable (one.consumable h)⟩
  · have := one.amount
    have := two.amount
    omega
  · exact two.room k (one.room (n + k) (by rwa [Nat.add_assoc] at room))

theorem doGrab_yields (owner : Option ThreadId) (count : Nat) (thread : ThreadId) :
    Yields (doGrab owner count thread) fun grabbed => grabbed.1 = some thread ∧
      (count = 0 ∧ owner = none ∧ grabbed.2 = 1 ∨
        count ≠ 0 ∧ owner = some thread ∧ grabbed.2 = (count + 1) % uintSize) := by
  unfold doGrab
  split_ifs with other zero owned
  · exact trivial
  · exact trivial
  · exact ⟨rfl, .inl ⟨zero, not_not.mp owned, rfl⟩⟩
  · have mine : owner = some thread := by
      by_contra differs
      exact other ⟨zero, differs⟩
    exact ⟨mine, .inr ⟨zero, mine, rfl⟩⟩

/-- **One call of `satisfied`**, with room in the recursion count. -/
theorem SyncObject.satisfied_uses (thread : ThreadId) (room : object.Room 1) :
    Yields (object.satisfied thread) fun after => Uses1 object after 1 := by
  cases object with
  | event manual signaled =>
    refine ⟨fun _ h => ?_, ?_, fun _ room => room, fun h => h⟩
    · exact (Bool.and_eq_true _ _ ▸ h).2
    · cases manual <;> cases signaled <;> simp [amount]
  | semaphore count max =>
    simp only [satisfied]
    split
    · exact trivial
    · refine ⟨fun _ h => ?_, ?_, fun _ room => room, fun h => h⟩
      · simp only [signaled, decide_eq_true_eq] at *
        omega
      · simp [amount]
  | mutex owner count abandoned =>
    refine ensures_bind (doGrab_yields owner count thread) fun ⟨owner', count'⟩ ⟨owned, cases⟩ => ?_
    refine ⟨fun other h => ?_, ?_, fun n more => ?_, fun h => h⟩
    · simp only [signaled, Bool.or_eq_true, decide_eq_true_eq] at *
      rcases cases with ⟨zero, _, _⟩ | ⟨_, mine, next⟩
      · exact .inl zero
      · rw [Nat.mod_eq_of_lt room] at next
        rw [owned] at h
        exact .inr (mine.trans (h.resolve_left (by omega)))
    · simp [amount]
    · simp only [SyncObject.Room] at *
      rcases cases with ⟨_, _, one⟩ | ⟨_, _, next⟩
      · omega
      · rw [Nat.mod_eq_of_lt room] at next
        omega

/-! ### A sequence of calls -/

/-- The calls of `satisfied` for `objects` lead from `s` to `s'`: only objects, lists of held
mutexes and the history have changed, and the objects only as the calls can change them. -/
structure Uses (s s' : Server) (objects : List ObjectId) : Prop where
  each : ∀ obj, Uses1 (s.objects obj) (s'.objects obj) (objects.count obj)
  queue : s'.queue = s.queue
  threads : s'.threads = s.threads
  nextObject : s'.nextObject = s.nextObject
  nextWait : s'.nextWait = s.nextWait
  currentTime : s'.currentTime = s.currentTime
  monotonicTime : s'.monotonicTime = s.monotonicTime

theorem objectSatisfied_uses (thread : ThreadId) (room : (s.objects obj).Room 1) :
    Yields (objectSatisfied s obj thread) fun out => Uses s out.1 [obj] := by
  refine ensures_bind ((satisfied_uses thread room).mapError fun _ _ => trivial) fun after uses => ?_
  refine ⟨fun other => ?_, rfl, rfl, rfl, rfl, rfl, rfl⟩
  by_cases equal : other = obj
  · subst equal
    simp only [setObject, update_self, count_singleton_self]
    exact uses
  · simp only [setObject, update_of_ne equal]
    rw [count_singleton, if_neg (by simpa using Ne.symm equal)]
    exact uses1_refl _

theorem Uses.cons {mid : Server} {rest : List ObjectId} (one : Uses s mid [obj])
    (two : Uses mid s' rest) : Uses s s' (obj :: rest) where
  each other := by
    have joined := (one.each other).trans (two.each other)
    rwa [← count_append, singleton_append] at joined
  queue := two.queue.trans one.queue
  threads := two.threads.trans one.threads
  nextObject := two.nextObject.trans one.nextObject
  nextWait := two.nextWait.trans one.nextWait
  currentTime := two.currentTime.trans one.currentTime
  monotonicTime := two.monotonicTime.trans one.monotonicTime

/-- **The calls for a list of objects.** -/
theorem satisfyAll_uses {objects : List ObjectId} (abandoned : Bool)
    (room : ∀ obj, (s.objects obj).Room (objects.count obj)) :
    Yields (satisfyAll s thread objects abandoned) fun out => Uses s out.1 objects := by
  induction objects generalizing s abandoned with
  | nil => exact ⟨fun obj => uses1_refl (s.objects obj), rfl, rfl, rfl, rfl, rfl, rfl⟩
  | cons obj rest ih =>
    refine ensures_bind (objectSatisfied_uses thread ((room obj).mono (by rw [count_cons_self]; omega)))
      fun mid one => (ih _ fun other => (one.each other).room _ ?_).mono fun _ => one.cons
    have bound := room other
    rwa [← singleton_append, count_append] at bound

/-! ### The end of a wait -/

/-- A wait that ends uses nothing it does not name. -/
theorem ThreadWait.consumes_count_le (wait : ThreadWait) (status : Nat) (obj : ObjectId) :
    (wait.consumes status).count obj ≤ wait.objects.count obj := by
  unfold ThreadWait.consumes
  split
  · rename_i inside
    cases wait.select with
    | waitAll => exact Nat.le_refl _
    | wait =>
      simp only [getElem?_eq_getElem inside, Option.toList_some]
      exact List.Sublist.count_le _ (singleton_sublist.mpr (getElem_mem inside))
  · simp

theorem mem_of_mem_consumes {wait : ThreadWait} {status : Nat} (member : obj ∈ wait.consumes status) :
    obj ∈ wait.objects := by
  have le := wait.consumes_count_le status obj
  have positive := count_pos_iff.mpr member
  exact count_pos_iff.mp (by omega)

/-- The innermost wait of the thread has ended: it is gone, with its queue entries, and has used
its objects up. -/
structure Ended (s s' : Server) (thread : ThreadId) (wait : ThreadWait) (rest : List ThreadWait)
    (status : Nat) : Prop where
  was : (s.threads thread).wait = wait :: rest
  each : ∀ obj, Uses1 (s.objects obj) (s'.objects obj) ((wait.consumes status).count obj)
  threads : s'.threads = update s.threads thread { s.threads thread with wait := rest }
  queue : ∀ obj, s'.queue obj = if obj ∈ wait.objects then
    (s.queue obj).filter fun other => decide (other ≠ ⟨thread, wait.id⟩) else s.queue obj
  nextObject : s'.nextObject = s.nextObject
  nextWait : s'.nextWait = s.nextWait
  currentTime : s'.currentTime = s.currentTime
  monotonicTime : s'.monotonicTime = s.monotonicTime

/-- The recursion counts have room for everything the wait can use. -/
def RoomFor (s : Server) (wait : ThreadWait) : Prop :=
  ∀ obj, (s.objects obj).Room (wait.objects.count obj)

/-- **`end_wait`.** -/
theorem endWait_ended {status : Nat} {wait : ThreadWait} {rest : List ThreadWait}
    (was : (s.threads thread).wait = wait :: rest) (room : RoomFor s wait) :
    Yields (endWait s thread status) fun out => Ended s out.1 thread wait rest status := by
  unfold endWait
  rw [was]
  refine ensures_bind (satisfyAll_uses false fun obj =>
    (room obj).mono (wait.consumes_count_le status obj)) fun mid uses => ?_
  refine ⟨was, uses.each, uses.threads, fun obj => ?_, uses.nextObject, uses.nextWait,
    uses.currentTime, uses.monotonicTime⟩
  simp only [record, removeQueues, uses.queue, setThread]

end FreeWindows.Sync
