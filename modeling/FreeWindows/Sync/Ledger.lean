/-
**The books of the semaphores.**

`end_wait` calls `satisfied` for one object after the other, after `check_wait` has found all of
them signaled. When a wait for all objects names a semaphore or an auto-reset event twice, the
second call finds it used up: `satisfied_fails` is a run in which the server dies of the assertion
in `semaphore_sync_satisfied`.

`Sound s` is what holds otherwise: every call of `satisfied` so far found its object signaled, and
for every semaphore the count is within its limits and is what it started with, plus what was
released, minus what was acquired. `sound_of_namesOnce`: it holds in every state of every run in
which no wait for all objects names a semaphore or auto-reset event twice, and the assertion does
not fail in the next step either.
-/

import FreeWindows.Sync.Consume

namespace FreeWindows.Sync

open Lib Function List Option Server Happening SyncObject ThreadWait Runs

/-! ### What the history says about a semaphore -/

def Happening.obj? : Happening → Option ObjectId
  | .created obj _ => some obj
  | .satisfied obj _ _ => some obj
  | .released obj _ => some obj
  | .woken _ _ => none

/-- What the happening put into the semaphore when it was created. -/
def Happening.initial (obj : ObjectId) : Happening → Nat
  | .created other count => if other = obj then count else 0
  | _ => 0

/-- What the happening released into the semaphore. -/
def Happening.released_ (obj : ObjectId) : Happening → Nat
  | .released other count => if other = obj then count else 0
  | _ => 0

/-- What the happening took from the semaphore. -/
def Happening.acquired (obj : ObjectId) : Happening → Nat
  | .satisfied other _ _ => if other = obj then 1 else 0
  | _ => 0

/-- The initial count of a semaphore. -/
def Server.initialCount (s : Server) (obj : ObjectId) : Nat :=
  (s.history.map (Happening.initial obj)).sum

/-- The total released into a semaphore. -/
def Server.totalReleased (s : Server) (obj : ObjectId) : Nat :=
  (s.history.map (Happening.released_ obj)).sum

/-- The total acquired from a semaphore. -/
def Server.totalAcquired (s : Server) (obj : ObjectId) : Nat :=
  (s.history.map (Happening.acquired obj)).sum

/-- **The books are in order.** -/
structure Sound (s : Server) : Prop where
  /-- Every call of `satisfied` found its object signaled for the thread. -/
  calls : ∀ obj thread signaled, .satisfied obj thread signaled ∈ s.history → signaled = true
  /-- Every semaphore keeps its limits and its balance. -/
  balance : ∀ obj count max, s.objects obj = .semaphore count max →
    count ≤ max ∧ count + s.totalAcquired obj = s.initialCount obj + s.totalReleased obj

/-- The only assertion that is not ruled out here: the one on the owner in `do_grab`, which fails
when the recursion count of a mutex has wrapped around. -/
def WrappedMutex (failure : Failure) : Prop := failure.assertion = .mutexOwner

/-- The books, with what keeps them in order. -/
structure Books (s : Server) : Prop extends Sound s where
  limits : ∀ obj count max, s.objects obj = .semaphore count max → max < uintSize
  known : ∀ happening ∈ s.history, ∀ obj, happening.obj? = some obj → obj < s.nextObject

/-- What is required of a wait: objects that exist, no more of them than a wait can have, and no
semaphore or auto-reset event twice if it is a wait for all. -/
structure WaitOnce (s : Server) (wait : ThreadWait) : Prop where
  small : wait.objects.length ≤ maximumWaitObjects
  named : ∀ obj ∈ wait.objects, obj < s.nextObject
  once : wait.select = .waitAll → ∀ obj, (s.objects obj).Consumable → wait.objects.count obj ≤ 1

/-- **The invariant**: the books are in order and all waits are such. -/
structure Kept (s : Server) : Prop where
  books : Books s
  waits : ∀ thread, ∀ wait ∈ (s.threads thread).wait, WaitOnce s wait

/-- The invariant holds in `s'`, and the objects can be used up as in `s`. -/
structure KeptFrom (s s' : Server) : Prop where
  kept : Kept s'
  kind : ∀ obj, (s'.objects obj).Consumable ↔ (s.objects obj).Consumable

variable {s s' : Server} {obj : ObjectId} {object : SyncObject} {thread : ThreadId}

theorem Kept.self (kept : Kept s) : KeptFrom s s := ⟨kept, fun _ => Iff.rfl⟩

theorem KeptFrom.trans {t u : Server} (one : KeptFrom s t) (two : KeptFrom t u) : KeptFrom s u :=
  ⟨two.kept, fun obj => (two.kind obj).trans (one.kind obj)⟩

variable {happening : Happening} {objects : List ObjectId}

/-- A happening counts only for the object that it is about. -/
theorem Happening.silent (other : happening.obj? ≠ some obj) :
    happening.initial obj = 0 ∧ happening.released_ obj = 0 ∧ happening.acquired obj = 0 := by
  cases happening <;> simp_all [obj?, initial, released_, acquired]

/-- The count of a semaphore is right after the happening. -/
def Server.Balances (s : Server) (happening : Happening) (obj : ObjectId) (count max : Nat) : Prop :=
  max < uintSize ∧ count ≤ max ∧ count + (s.totalAcquired obj + happening.acquired obj) =
    s.initialCount obj + happening.initial obj + (s.totalReleased obj + happening.released_ obj)

/-- **One more happening**, and one object that changes, if the happening is about it or it stays as it
was. -/
theorem Books.record (books : Books s) (history : s'.history = s.history ++ [happening])
    (objects : s'.objects = update s.objects obj object) (le : s.nextObject ≤ s'.nextObject)
    (about : ∀ other, happening.obj? = some other → other = obj ∧ obj < s'.nextObject)
    (call : ∀ obj thread signaled, happening = .satisfied obj thread signaled → signaled = true)
    (counts : ∀ count max, object = .semaphore count max →
      (s.objects obj = .semaphore count max ∧ happening.obj? ≠ some obj) ∨
        s.Balances happening obj count max) :
    Books s' := by
  have counts : ∀ other count max, s'.objects other = .semaphore count max →
      (s.objects other = .semaphore count max ∧ happening.obj? ≠ some other) ∨
        s.Balances happening other count max := by
    intro other count max is
    rw [objects, update_apply] at is
    split at is
    next same => exact same ▸ counts count max is
    next different => exact .inl ⟨is, fun isAbout => different (about other isAbout).1⟩
  have totals : ∀ f : Happening → Nat, (s'.history.map f).sum = (s.history.map f).sum + f happening := by
    intro f
    rw [history]
    simp
  refine ⟨⟨fun obj thread signaled member => ?_, fun obj count max is => ?_⟩, fun obj count max is => ?_,
    fun other member obj isAbout => ?_⟩
  · rw [history] at member
    rcases mem_append.mp member with old | new
    · exact books.calls obj thread signaled old
    · exact call obj thread signaled (mem_singleton.mp new).symm
  · unfold totalAcquired initialCount totalReleased at *
    rw [totals, totals, totals]
    rcases counts obj count max is with ⟨same, other⟩ | ⟨_, new⟩
    · obtain ⟨noInitial, noReleased, noAcquired⟩ := silent other
      rw [noInitial, noReleased, noAcquired]
      exact books.balance obj count max same
    · exact new
  · rcases counts obj count max is with ⟨same, _⟩ | ⟨limit, _⟩
    · exact books.limits obj count max same
    · exact limit
  · rw [history] at member
    rcases mem_append.mp member with old | new
    · exact Nat.lt_of_lt_of_le (books.known other old obj isAbout) le
    · obtain ⟨rfl, exists_⟩ := about obj (mem_singleton.mp new ▸ isAbout)
      exact exists_

/-! ### One call of `satisfied` -/

/-- A mutex that is signaled is refused only if it has an owner and the count 0. -/
theorem doGrab_error {owner : Option ThreadId} {count : Nat} {abandoned : Bool} {failure : Assertion}
    (lit : (SyncObject.mutex owner count abandoned).signaled thread = true)
    (failed : doGrab owner count thread = .error failure) :
    failure = .mutexOwner ∧ count = 0 ∧ ∃ id, owner = some id := by
  simp only [SyncObject.signaled, Bool.or_eq_true, decide_eq_true_eq] at lit
  unfold doGrab at failed
  split at failed
  · rename_i held
    exact absurd lit (not_or.mpr held)
  · split at failed
    · rename_i zero
      split at failed
      · rename_i owned
        cases failed
        exact ⟨rfl, zero, Option.ne_none_iff_exists'.mp owned⟩
      · cases failed
    · cases failed

/-- **One call for an object that is signaled** does not fail the assertion. Only a semaphore or an
auto-reset event may be used up by it. -/
theorem SyncObject.satisfied_ensures (signaled : object.signaled thread = true) :
    Ensures (· = .mutexOwner) (object.satisfied thread) fun after =>
      (after.Consumable ↔ object.Consumable) ∧
        (¬ object.Consumable → after.signaled thread = true) ∧
        ∀ count max, after = .semaphore count max → object = .semaphore (count + 1) max := by
  cases object with
  | event manual lit =>
    refine ⟨Iff.rfl, fun keeps => ?_, fun _ _ same => by cases same⟩
    cases manual with
    | false => exact absurd rfl keeps
    | true => exact signaled
  | semaphore count max =>
    simp only [SyncObject.signaled, decide_eq_true_eq] at signaled
    simp only [SyncObject.satisfied]
    rw [if_neg (by omega)]
    refine ⟨Iff.rfl, fun keeps => absurd trivial keeps, fun count' max' same => ?_⟩
    cases same
    rw [Nat.sub_add_cancel signaled]
  | mutex owner count abandoned =>
    have grab : Ensures (· = .mutexOwner) (doGrab owner count thread) fun grabbed =>
        grabbed.1 = some thread := by
      cases done : doGrab owner count thread with
      | ok grabbed => exact ((doGrab_yields ..).post done).1
      | error failure => exact (doGrab_error signaled done).1
    refine ensures_bind grab fun grabbed owned => ⟨Iff.rfl, fun _ => ?_, fun _ _ same => by cases same⟩
    simp [SyncObject.signaled, owned]

/-- Calls of `satisfied` lead from `s` to `s'`: waits and queues are the same, and so is which
objects can be used up. -/
structure Called (s s' : Server) : Prop where
  threads : s'.threads = s.threads
  nextObject : s'.nextObject = s.nextObject
  consumable : ∀ obj, (s'.objects obj).Consumable ↔ (s.objects obj).Consumable

theorem objectSatisfied_ensures (books : Books s) (exists_ : obj < s.nextObject)
    (signaled : (s.objects obj).signaled thread = true) :
    Ensures WrappedMutex (objectSatisfied s obj thread) fun result =>
      Books result.1 ∧ Called s result.1 ∧
        (∀ other, other ≠ obj → result.1.objects other = s.objects other) ∧
        (¬ (s.objects obj).Consumable → (result.1.objects obj).signaled thread = true) := by
  refine ensures_bind ((satisfied_ensures signaled).mapError fun _ => id) fun after ⟨kind, keeps, counts⟩ => ?_
  have others : ∀ other, other ≠ obj → update s.objects obj after other = s.objects other :=
    fun other different => update_of_ne different ..
  refine ⟨books.record rfl rfl (Nat.le_refl _) ?_ ?_ fun count max is => .inr ?_,
    ⟨rfl, rfl, fun other => ?_⟩, others, fun stays => ?_⟩
  · rintro _ ⟨⟩
    exact ⟨rfl, exists_⟩
  · rintro _ _ _ ⟨⟩
    exact signaled
  · have was := counts count max is
    have limit := books.limits obj (count + 1) max was
    have old := books.balance obj (count + 1) max was
    simp only [Balances, Happening.acquired, Happening.initial, Happening.released_, if_true]
    omega
  · by_cases same : other = obj
    · subst same
      simpa [setObject] using kind
    · show (update s.objects obj after other).Consumable ↔ _
      rw [others other same]
  · simpa [setObject] using keeps stays

/-- **The calls for a list of objects**, all of them signaled, and each semaphore and auto-reset
event only once. -/
theorem satisfyAll_ensures (abandoned : Bool) (books : Books s)
    (exist : ∀ obj ∈ objects, obj < s.nextObject)
    (signaled : ∀ obj ∈ objects, (s.objects obj).signaled thread = true)
    (once : ∀ obj, (s.objects obj).Consumable → objects.count obj ≤ 1) :
    Ensures WrappedMutex (satisfyAll s thread objects abandoned) fun result =>
      Books result.1 ∧ Called s result.1 := by
  induction objects generalizing s abandoned with
  | nil => exact ⟨books, rfl, rfl, fun _ => Iff.rfl⟩
  | cons obj rest ih =>
    refine ensures_bind (objectSatisfied_ensures books (exist obj mem_cons_self)
      (signaled obj mem_cons_self)) fun result ⟨midBooks, called, others, stays⟩ => ?_
    have later := ih (s := result.1) (abandoned || result.2) midBooks (fun other member => by
        rw [called.nextObject]
        exact exist other (mem_cons_of_mem _ member))
      (fun other member => by
        by_cases same : other = obj
        · -- named again, so it is neither a semaphore nor an auto-reset event
          subst same
          refine stays fun consumable => ?_
          have twice := once other consumable
          have := count_pos_iff.mpr member
          rw [count_cons_self] at twice
          omega
        · rw [others other same]
          exact signaled other (mem_cons_of_mem _ member))
      (fun other consumable => by
        have bound := once other ((called.consumable other).mp consumable)
        rw [← singleton_append, count_append] at bound
        omega)
    refine later.mono fun final ⟨finalBooks, finalCalled⟩ => ⟨finalBooks, ?_⟩
    exact ⟨finalCalled.threads.trans called.threads, finalCalled.nextObject.trans called.nextObject,
      fun other => (finalCalled.consumable other).trans (called.consumable other)⟩

/-! ### Waits that end -/

section Waits

variable {wait : ThreadWait} {rest : List ThreadWait}

/-- A wait stays such as long as its objects exist and do not turn into others. -/
theorem WaitOnce.mono (once : WaitOnce s wait) (le : s.nextObject ≤ s'.nextObject)
    (kind : ∀ obj ∈ wait.objects, (s'.objects obj).Consumable → (s.objects obj).Consumable) :
    WaitOnce s' wait := by
  refine ⟨once.small, fun obj member => Nat.lt_of_lt_of_le (once.named obj member) le,
    fun all obj consumable => ?_⟩
  by_cases member : obj ∈ wait.objects
  · exact once.once all obj (kind obj member consumable)
  · rw [count_eq_zero.mpr member]
    exact Nat.zero_le 1

/-- A new object is not one that the wait names. -/
theorem WaitOnce.addObject (once : WaitOnce s wait) : WaitOnce (s.addObject object) wait := by
  refine once.mono (Nat.le_succ _) fun obj member consumable => ?_
  have older : obj ≠ s.nextObject := Nat.ne_of_lt (once.named obj member)
  simpa [Server.addObject, older] using consumable

variable {status : Nat}

/-- **`end_wait`**, when what the wait uses is there. -/
theorem endWait_ensures (kept : Kept s) (was : (s.threads thread).wait = wait :: rest)
    (signaled : ∀ obj ∈ wait.consumes status, (s.objects obj).signaled thread = true) :
    Ensures WrappedMutex (endWait s thread status) fun result => KeptFrom s result.1 := by
  have once := kept.waits thread wait (mem_of_eq_cons was)
  have popped : Books (s.setThread thread { s.threads thread with wait := rest }) :=
    ⟨⟨kept.books.calls, kept.books.balance⟩, kept.books.limits, kept.books.known⟩
  unfold endWait
  rw [was]
  refine ensures_bind (satisfyAll_ensures false popped
    (fun obj member => once.named obj (mem_of_mem_consumes member)) signaled fun obj consumable => ?_)
    fun result ⟨books, called⟩ => ?_
  · unfold consumes
    split
    · cases select : wait.select with
      | waitAll => exact once.once select obj consumable
      | wait =>
        cases wait.objects[status]? with
        | none => simp
        | some other =>
          rw [toList_some, count_singleton]
          split <;> omega
    · simp
  · -- the entry that says that the wait has ended is about no object
    refine ⟨⟨books.record rfl (update_eq_self 0 _).symm (Nat.le_refl _) nofun nofun ?_,
      fun other later member => ?_⟩, called.consumable⟩
    · exact fun _ _ is => .inl ⟨is, nofun⟩
    have member : later ∈ (result.1.threads other).wait := member
    rw [called.threads] at member
    exact (kept.waits other later (mem_of_pop was member)).mono (Nat.le_of_eq called.nextObject.symm)
      fun obj _ => (called.consumable obj).mp

theorem consumes_signaled {index : Nat} (found : s.signaledIndex thread wait = some index) :
    ∀ obj ∈ wait.consumes index, (s.objects obj).signaled thread = true := by
  intro obj member
  unfold signaledIndex at found
  unfold consumes at member
  cases select : wait.select with
  | waitAll =>
    rw [select] at found member
    simp only at found member
    split at found
    · rename_i all
      split at member
      · exact all_eq_true.mp all obj member
      · cases member
    · cases found
  | wait =>
    rw [select] at found member
    obtain ⟨inside, signaled, _⟩ := findIdx?_eq_some_iff_getElem.mp found
    rw [if_pos inside] at member
    simp only [getElem?_eq_getElem inside, toList_some, mem_singleton] at member
    rw [member]
    exact signaled

theorem consumes_timeout (once : WaitOnce s wait) : wait.consumes statusTimeout = [] := by
  unfold consumes
  have := once.small
  unfold maximumWaitObjects at this
  rw [if_neg (by unfold statusTimeout; omega)]

theorem checkWait_signaled (once : WaitOnce s wait) (check : checkWait s thread wait = some status) :
    ∀ obj ∈ wait.consumes status, (s.objects obj).signaled thread = true := by
  obtain found | ⟨-, -, rfl⟩ := (checkWait_cases check).2
  · exact consumes_signaled found
  · rw [consumes_timeout once]
    exact nofun

end Waits

/-! ### Wake-ups -/

/-- What every wait that ends after `check_wait` ensures, about the states before and after it. -/
structure EndRule (allowed : Failure → Prop) (inv : Server → Prop) (rel : Server → Server → Prop) :
    Prop where
  refl : ∀ {s}, inv s → rel s s
  keeps : ∀ {s t}, rel s t → inv t
  trans : ∀ {s t u}, rel s t → rel t u → rel s u
  ends : ∀ {s thread wait rest status}, inv s → (s.threads thread).wait = wait :: rest →
    checkWait s thread wait = some status →
    Ensures allowed (endWait s thread status) fun result => rel s result.1

section Rule

variable {allowed : Failure → Prop} {inv : Server → Prop} {rel : Server → Server → Prop}
  (rule : EndRule allowed inv rel)
include rule

theorem EndRule.wakeThreadLoop (thread : ThreadId) (fuel : Nat) (start : inv s) :
    Ensures allowed (wakeThreadLoop thread fuel s) fun result => rel s result.1 := by
  induction fuel generalizing s with
  | zero => exact rule.refl start
  | succ fuel ih =>
    rw [Sync.wakeThreadLoop]
    split
    · exact rule.refl start
    · rename_i wait rest was
      split
      · exact rule.refl start
      · rename_i status check
        refine ensures_bind (rule.ends start was check) fun result mid => ?_
        exact ensures_bind (ih (rule.keeps mid)) fun _ last => rule.trans mid last

theorem EndRule.wakeThread (start : inv s) (thread : ThreadId) :
    Ensures allowed (wakeThread s thread) fun result => rel s result.1 :=
  rule.wakeThreadLoop thread _ start

theorem EndRule.wakeFirst (start : inv s) (entries : List QueueEntry) :
    Ensures allowed (wakeFirst s entries) fun result => rel s result.1 := by
  induction entries generalizing s with
  | nil => exact rule.refl start
  | cons entry rest ih =>
    refine ensures_bind (rule.wakeThread start entry.thread) fun result mid => ?_
    simp only
    split
    · exact (ih (rule.keeps mid)).mono fun _ last => rule.trans mid last
    · exact mid

theorem EndRule.wakeUpLoop (obj : ObjectId) (fuel : Nat) (start : inv s) (max : Nat) :
    Ensures allowed (wakeUpLoop obj fuel s max) (rel s) := by
  induction fuel generalizing s max with
  | zero => exact rule.refl start
  | succ fuel ih =>
    refine ensures_bind (rule.wakeFirst start _) fun result mid => ?_
    simp only
    split
    · exact mid
    · exact (ih (rule.keeps mid) _).mono fun _ last => rule.trans mid last

/-- **The loops of `wake_up`** ensure it too. -/
theorem EndRule.wakeUp (start : inv s) (obj : ObjectId) (max : Nat) :
    Ensures allowed (wakeUp s obj max) (rel s) :=
  rule.wakeUpLoop obj _ start max

end Rule

theorem kept_rule : EndRule WrappedMutex Kept KeptFrom where
  refl := Kept.self
  keeps := KeptFrom.kept
  trans := KeptFrom.trans
  ends kept was check := endWait_ensures kept was
    (checkWait_signaled (kept.waits _ _ (mem_of_eq_cons was)) check)

/-! ### The actions -/

section Actions

/-- The books depend on objects and history only. -/
theorem Books.transfer (books : Books s) (objects : s'.objects = s.objects)
    (history : s'.history = s.history) (nextObject : s'.nextObject = s.nextObject) : Books s' := by
  cases s
  cases s'
  subst objects history nextObject
  exact ⟨⟨books.calls, books.balance⟩, books.limits, books.known⟩

/-- What is required of a wait depends on what it is for. -/
theorem WaitOnce.transfer {old wait : ThreadWait} (once : WaitOnce s old)
    (objects : s'.objects = s.objects) (nextObject : s'.nextObject = s.nextObject)
    (same : old.objects = wait.objects) (select : old.select = wait.select) : WaitOnce s' wait := by
  obtain ⟨small, named, once⟩ := once
  rw [same, ← nextObject] at named
  rw [same, select, ← objects] at once
  exact ⟨same ▸ small, named, once⟩

theorem Kept.transfer (kept : Kept s) (objects : s'.objects = s.objects)
    (history : s'.history = s.history) (nextObject : s'.nextObject = s.nextObject)
    (waits : ∀ thread, ∀ wait ∈ (s'.threads thread).wait, ∃ old ∈ (s.threads thread).wait,
      old.objects = wait.objects ∧ old.select = wait.select) : Kept s' := by
  refine ⟨kept.books.transfer objects history nextObject, fun thread wait member => ?_⟩
  obtain ⟨old, oldMember, same, select⟩ := waits thread wait member
  exact (kept.waits thread old oldMember).transfer objects nextObject same select

theorem old_semaphore {objects : ObjectId → SyncObject} {id : ObjectId} {count max : Nat}
    (other : ∀ count max, object ≠ .semaphore count max)
    (is : update objects obj object id = .semaphore count max) :
    objects id = .semaphore count max := by
  by_cases same : id = obj
  · rw [same, update_self] at is
    exact absurd is (other count max)
  · rwa [update_of_ne same] at is

/-- One object is replaced by one that is not a semaphore. -/
theorem Books.replace (books : Books s) (objects : s'.objects = update s.objects obj object)
    (other : ∀ count max, object ≠ .semaphore count max) (history : s'.history = s.history)
    (le : s.nextObject ≤ s'.nextObject) : Books s' := by
  cases s'
  subst objects history
  exact ⟨⟨books.calls, fun id count max is => books.balance id count max (old_semaphore other is)⟩,
    fun id count max is => books.limits id count max (old_semaphore other is),
    fun happening member id about => Nat.lt_of_lt_of_le (books.known happening member id about) le⟩

/-- An object that is not a semaphore is replaced by another one of its kind. -/
theorem Kept.setObject (kept : Kept s) (kind : object.Consumable → (s.objects obj).Consumable)
    (other : ∀ count max, object ≠ .semaphore count max) : Kept (s.setObject obj object) := by
  refine ⟨kept.books.replace rfl other rfl (Nat.le_refl _),
    fun thread wait member => (kept.waits thread wait member).mono (Nat.le_refl _) fun id _ => ?_⟩
  by_cases same : id = obj
  · subst same
    simpa [setObject] using kind
  · simp [Server.setObject, same]

variable {count max old : Nat}

/-- **Releasing a semaphore** within its limit, up to the wake-up. -/
theorem Kept.release (kept : Kept s) (exists_ : obj < s.nextObject)
    (was : s.objects obj = .semaphore old max) (limit : old + count ≤ max) :
    Kept ((s.record (.released obj count)).setObject obj (.semaphore (old + count) max)) := by
  refine ⟨kept.books.record rfl rfl (Nat.le_refl _) ?_ nofun ?_,
    fun thread wait member => (kept.waits thread wait member).mono (Nat.le_refl _) fun other _ => ?_⟩
  · rintro _ ⟨⟩
    exact ⟨rfl, exists_⟩
  · rintro _ _ ⟨⟩
    have bound := kept.books.limits obj old max was
    have balance := (kept.books.balance obj old max was).2
    simp only [Balances, Happening.acquired, Happening.initial, Happening.released_, if_true]
    omega
  · by_cases same : other = obj
    · rw [same, was]
      exact fun _ => trivial
    · simp [Server.setObject, record, same]

section Requests

variable (kept : Kept s)
include kept

theorem releaseSemaphore_ensures (exists_ : obj < s.nextObject)
    (was : s.objects obj = .semaphore old max) (countLimit : count < uintSize) :
    Ensures WrappedMutex (releaseSemaphore s obj old max count) Kept := by
  unfold releaseSemaphore
  split
  · exact kept
  · rename_i passes
    have ⟨oldLimit, _⟩ := kept.books.balance obj old max was
    have maxLimit := kept.books.limits obj old max was
    obtain ⟨exact_, within⟩ : (old + count) % uintSize = old + count ∧ old + count ≤ max := by
      unfold uintSize at *
      omega
    have released := kept.release exists_ was within
    split
    · rw [exact_]
      exact released
    · rw [show old + count = count by omega] at released
      exact (kept_rule.wakeUp released obj count).mono fun _ => KeptFrom.kept

variable {manual : Bool}

theorem eventSyncSignal_ensures (signal : Bool) (was : manual = false ↔ (s.objects obj).Consumable) :
    Ensures WrappedMutex (eventSyncSignal s obj manual signal) (KeptFrom s) := by
  have set : KeptFrom s (s.setObject obj (.event manual signal)) := by
    refine ⟨kept.setObject was.mp fun _ _ same => (nomatch same), fun other => ?_⟩
    by_cases same : other = obj
    · subst same
      simpa [setObject, SyncObject.Consumable] using was
    · simp [setObject, same]
  cases signal with
  | true => exact (kept_rule.wakeUp set.kept obj _).mono fun _ last => set.trans last
  | false => exact set

theorem eventOp_ensures {signaled : Bool} (was : s.objects obj = .event manual signaled)
    (op : EventOp) : Ensures WrappedMutex (eventOp s obj manual op) Kept := by
  have kind : manual = false ↔ (s.objects obj).Consumable := by
    rw [was]
    exact Iff.rfl
  cases op with
  | pulse =>
    refine ensures_bind (eventSyncSignal_ensures kept true kind) fun mid keptMid => ?_
    exact (eventSyncSignal_ensures keptMid.kept false (kind.trans (keptMid.kind obj).symm)).mono
      fun _ => KeptFrom.kept
  | set => exact (eventSyncSignal_ensures kept true kind).mono fun _ => KeptFrom.kept
  | reset => exact (eventSyncSignal_ensures kept false kind).mono fun _ => KeptFrom.kept

theorem doRelease_ensures {owner : Option ThreadId} {abandoned : Bool} (thread : ThreadId)
    (count : Nat) : Ensures WrappedMutex (doRelease s obj owner old abandoned thread count) Kept := by
  have set : ∀ owner count, Kept (s.setObject obj (.mutex owner count abandoned)) := fun _ _ =>
    kept.setObject False.elim fun _ _ same => nomatch same
  unfold doRelease
  split
  · exact kept
  · split
    · have listed : Kept ((s.setMutexList thread ((s.mutexList thread).erase obj)).setObject obj
          (.mutex none 0 abandoned)) :=
        (set none 0).transfer rfl rfl rfl fun _ wait member => ⟨wait, member, rfl, rfl⟩
      exact (kept_rule.wakeUp listed obj 0).mono fun _ => KeptFrom.kept
    · exact set owner (old - count)

/-- One thread is replaced by one that waits for the same. -/
theorem Kept.setThread (id : ThreadId) {thread : Thread}
    (same : thread.wait.map bare = (s.threads id).wait.map bare) :
    Kept (s.setThread id thread) := by
  refine kept.transfer rfl rfl rfl fun other wait member => ?_
  obtain ⟨old, oldMember, same⟩ := exists_bare (setThread_bare same other) member
  exact ⟨old, oldMember, (bare_eq same).2.2, (bare_eq same).2.1⟩

theorem suspendThread_kept (id : ThreadId) : Kept (suspendThread s id) := by
  unfold suspendThread
  simp only
  split
  · exact kept.setThread id rfl
  · exact kept

theorem resumeThread_ensures (id : ThreadId) : Ensures WrappedMutex (resumeThread s id) Kept := by
  have resumed : ∀ suspend, Kept (s.setThread id { s.threads id with suspend := suspend }) :=
    fun suspend => kept.setThread id rfl
  unfold resumeThread
  simp only
  split
  · split
    · exact ensures_bind (kept_rule.wakeThread (resumed _) id) fun _ last => last.kept
    · exact resumed _
  · exact kept

theorem threadTimeout_ensures (id : ThreadId) (waitId : WaitId) :
    Ensures WrappedMutex (threadTimeout s id waitId) Kept := by
  have disarmed : Kept (disarmTimeout s id waitId) := kept.setThread id (disarmTimeout_bare _ waitId)
  unfold threadTimeout
  simp only
  split
  · exact disarmed
  rename_i wait rest was
  split
  · exact disarmed
  split
  · exact disarmed
  have once := disarmed.waits id wait (mem_of_eq_cons was)
  refine ensures_bind (endWait_ensures disarmed was ?_) fun result mid => ?_
  · rw [consumes_timeout once]
    exact nofun
  · exact ensures_bind (kept_rule.wakeThread mid.kept id) fun _ last => last.kept

/-- A new object: nobody waits for it and nothing has happened to it. -/
theorem Kept.addObject (other : ∀ count max, object ≠ .semaphore count max) :
    Kept (s.addObject object) :=
  ⟨kept.books.replace rfl other rfl (Nat.le_succ _), fun thread wait member =>
    (kept.waits thread wait member).addObject⟩

end Requests

theorem totals_unknown (books : Books s) (new : s.nextObject ≤ obj) :
    s.initialCount obj = 0 ∧ s.totalReleased obj = 0 ∧ s.totalAcquired obj = 0 := by
  have other : ∀ happening ∈ s.history, happening.obj? ≠ some obj := fun happening member about =>
    Nat.not_le.mpr (books.known happening member obj about) new
  have zero : ∀ f : Happening → Nat, (∀ happening, happening.obj? ≠ some obj → f happening = 0) →
      (s.history.map f).sum = 0 := by
    intro f silent
    refine List.sum_eq_zero_iff_forall_eq_nat.mpr fun n member => ?_
    obtain ⟨happening, inside, rfl⟩ := mem_map.mp member
    exact silent happening (other happening inside)
  exact ⟨zero _ fun _ other => (silent other).1, zero _ fun _ other => (silent other).2.1,
    zero _ fun _ other => (silent other).2.2⟩

theorem createSemaphore_kept (kept : Kept s) {initial : Nat} (limit : max < uintSize) :
    Kept (createSemaphore s initial max) := by
  unfold createSemaphore
  split
  · exact kept
  · obtain ⟨noInitial, noReleased, noAcquired⟩ := totals_unknown kept.books (Nat.le_refl s.nextObject)
    refine ⟨kept.books.record rfl rfl (Nat.le_succ _) ?_ nofun ?_, fun thread wait member => ?_⟩
    · rintro _ ⟨⟩
      exact ⟨rfl, Nat.lt_succ_self _⟩
    · rintro _ _ ⟨⟩
      simp only [Balances, Happening.acquired, Happening.initial, Happening.released_, if_true]
      omega
    · have once : WaitOnce (s.addObject (.semaphore initial max)) wait :=
        (kept.waits thread wait member).addObject
      exact ⟨once.small, once.named, once.once⟩

/-- **`select`**, if a wait for all names no semaphore or auto-reset event twice. -/
theorem selectOn_ensures (kept : Kept s) {current : ThreadId} {select : SelectOp} {when_ : Int}
    (once : select = .waitAll → ∀ obj, (s.objects obj).Consumable → objects.count obj ≤ 1) :
    Ensures WrappedMutex (selectOn s current select objects when_) Kept := by
  unfold selectOn
  split
  · exact kept
  rename_i small
  split
  · exact kept
  rename_i known
  have waiting : Kept (waitOn s current select objects when_) := by
    refine ⟨kept.books.transfer waitOn_objects waitOn_history waitOn_nextObject,
      fun thread wait member => ?_⟩
    rcases mem_waitOn member with ⟨_, rfl⟩ | old
    · refine ⟨Nat.le_of_not_lt small, fun obj inside => ?_, fun all obj consumable => ?_⟩
      · rw [waitOn_nextObject]
        exact lt_of_known known obj inside
      · rw [waitOn_objects] at consumable
        exact once all obj consumable
    · exact (kept.waits thread wait old).transfer waitOn_objects waitOn_nextObject rfl rfl
  simp only [waitOn_wait]
  split
  · rename_i status check
    have waitOnce := waiting.waits current _ (mem_of_eq_cons waitOn_wait)
    exact ensures_bind (endWait_ensures waiting waitOn_wait (checkWait_signaled waitOnce check))
      fun _ last => last.kept
  · obtain ⟨waits, armed, same⟩ := armTimeout_eq (waitOn s current select objects when_) current
    exact armed ▸ waiting.setThread current same

end Actions

/-! ### Runs -/

/-- **The condition on an action**: a wait for all objects must not name a semaphore or an
auto-reset event more than once. -/
def NamesOnce (s : Server) : Action → Prop
  | .select _ .waitAll objects _ => ∀ obj, (s.objects obj).Consumable → objects.count obj ≤ 1
  | _ => True

/-- **One action**: the books stay in order, and no assertion fails but the one on the owner of a
mutex. -/
theorem step_ensures {action : Action} (kept : Kept s) (names : NamesOnce s action) :
    Ensures WrappedMutex (s.step action) Kept := by
  cases action with
  | createEvent manual signaled => exact kept.addObject fun _ _ same => nomatch same
  | createSemaphore initial max => exact createSemaphore_kept kept (Nat.mod_lt _ (by decide))
  | createMutex current owned =>
    show Kept (createMutex s current owned)
    unfold createMutex
    split
    · have created : Kept (s.addObject (.mutex (some current) 1 false)) :=
        kept.addObject fun _ _ same => nomatch same
      exact created.transfer rfl rfl rfl fun _ wait member => ⟨wait, member, rfl, rfl⟩
    · exact kept.addObject fun _ _ same => nomatch same
  | select current op objects when_ =>
    refine selectOn_ensures kept fun all => ?_
    subst all
    exact names
  | eventOp obj op =>
    simp only [step]
    split
    · split
      · rename_i manual signaled was
        exact eventOp_ensures kept was op
      · exact kept
    · exact kept
  | releaseSemaphore obj count =>
    simp only [step]
    split
    · rename_i exists_
      split
      · rename_i old max was
        exact releaseSemaphore_ensures kept exists_ was (Nat.mod_lt _ (by decide))
      · exact kept
    · exact kept
  | releaseMutex current obj =>
    simp only [step]
    split
    · split
      · exact doRelease_ensures kept current 1
      · exact kept
    · exact kept
  | suspendThread id => exact suspendThread_kept kept id
  | resumeThread id => exact resumeThread_ensures kept id
  | timeout id waitId =>
    simp only [step]
    split
    · exact threadTimeout_ensures kept id waitId
    · exact kept
  | setCurrentTime current monotonic =>
    exact kept.transfer rfl rfl rfl fun _ wait member => ⟨wait, member, rfl, rfl⟩

/-- **In every run in which no wait for all names a semaphore or auto-reset event twice**, every
call of `satisfied` finds its object signaled, every semaphore keeps its limits and its balance, and
the assertion in `semaphore_sync_satisfied` does not fail. -/
theorem sound_of_namesOnce (s : Server) (run : Runs Server.step NamesOnce Server.initial s) :
    Sound s ∧ ∀ action, NamesOnce s action → ∀ history,
      s.step action ≠ .error ⟨.semaphoreCount, history⟩ := by
  have kept : Kept s := run.invariant Kept ⟨⟨⟨nofun, nofun⟩, nofun, nofun⟩, nofun⟩
    fun _ _ _ kept names done => (step_ensures kept names).post done
  refine ⟨kept.books.toSound, fun action names history => (step_ensures kept names).not_error ?_⟩
  intro same
  cases same

/-- A semaphore with a count of two that is waited for twice, in two waits. -/
theorem sound_of_namesOnce_twice :
    ∃ s, Runs Server.step NamesOnce Server.initial s ∧ s.objects 0 = .semaphore 0 2 ∧ Sound s := by
  obtain ⟨s, done, drained⟩ : ∃ s, runAll step (createSemaphore initial 2 2)
      [.select 1 .wait [0, 0] timeoutInfinite, .select 1 .wait [0] timeoutInfinite] = .ok s ∧
      s.objects 0 = .semaphore 0 2 := exists_ok_of_check _ (by decide +kernel)
  obtain ⟨mid, first, done⟩ := bind_eq_ok.mp done
  obtain ⟨last, second, done⟩ := bind_eq_ok.mp done
  cases done
  have run : Runs step NamesOnce initial s :=
    head (show NamesOnce initial (.createSemaphore 2 2) from trivial) rfl
      (head (show NamesOnce (createSemaphore initial 2 2) (.select 1 .wait [0, 0] _) from trivial) first
        (head (show NamesOnce mid (.select 1 .wait [0] _) from trivial) second (refl s)))
  exact ⟨s, run, drained, (sound_of_namesOnce s run).1⟩

/-- **The server does die**: a semaphore with a count of one, and a wait for all that names it
twice. -/
theorem satisfied_fails :
    runAll Server.step Server.initial
      [.createSemaphore 1 1, .select 1 .waitAll [0, 0] timeoutInfinite] =
      .error ⟨.semaphoreCount, [.created 0 1, .satisfied 0 1 true]⟩ := by
  rfl

end FreeWindows.Sync
