/-
**The owners of the mutexes while waits end.**

What the operations of the server that end waits do to the mutexes, and how the log follows them:

* `Shaped s`: only mutexes exist, and every mutex is on the list of its owner and on no other list;
* `Follows s log`: as long as no recursion count has been too large, the counts, the owners and the
  abandoned flags are those of the log, and every wait so far has reported an abandoned mutex
  exactly if it got one;
* `Leads s s' events`: the server goes from `s` to `s'` by ending waits, which the events tell;
* `Overflows base log failure`: an assertion failed after a recursion count was too large.

`endWait_leads` is one wait that ends, and `leads_rule` is for the loops of `wake_up` around it.
-/

import FreeWindows.Sync.Mutexes

namespace FreeWindows.Sync

open Lib Function List SyncObject

/-! ### The log grows -/

section Log

variable {log : List MutexEvent} {obj : ObjectId}

@[simp] theorem depth_append (events : List MutexEvent) : depth (log ++ events) obj =
    events.foldl (MutexEvent.depth obj) (depth log obj) :=
  foldl_append

theorem Shallow.of_append {events : List MutexEvent} (shallow : Shallow (log ++ events)) :
    Shallow log :=
  fun front le => shallow front (le.trans (prefix_append log events))

/-- The last event decides, or the log before it does. -/
theorem pending_concat (event : MutexEvent) : Pending (log ++ [event]) obj ↔
    (∃ id, event = .abandoned obj id) ∨
      Pending log obj ∧ ∀ thread objects status, event = .ended thread objects status →
        obj ∉ objects := by
  constructor
  · rintro ⟨before, id, after, same, free⟩
    rcases eq_nil_or_concat after with rfl | ⟨front, last, rfl⟩
    · exact .inl ⟨id, (append_inj' same rfl).2 |> cons.inj |>.1⟩
    · rw [concat_eq_append, ← cons_append, ← append_assoc] at same
      obtain ⟨rfl, lastSame⟩ := append_inj' same rfl
      obtain rfl := (cons.inj lastSame).1
      refine .inr ⟨⟨before, id, front, rfl, fun t o st member => ?_⟩, ?_⟩
      · exact free t o st (by simp [member])
      · rintro t o st rfl
        exact free t o st (by simp)
  · rintro (⟨id, rfl⟩ | ⟨⟨before, id, after, rfl, free⟩, last⟩)
    · exact ⟨log, id, [], rfl, by simp⟩
    · refine ⟨before, id, after ++ [event], by simp, fun t o st member => ?_⟩
      rcases mem_append.mp member with old | new
      · exact free t o st old
      · exact last t o st (mem_singleton.mp new).symm

end Log

/-! ### Owners and lists -/

def SyncObject.isMutex : SyncObject → Bool
  | .mutex .. => true
  | _ => false

theorem SyncObject.isMutex_iff {object : SyncObject} :
    object.isMutex = true ↔ ∃ owner count flag, object = .mutex owner count flag := by
  cases object <;> simp [isMutex]

def SyncObject.owner? : SyncObject → Option ThreadId
  | .mutex owner _ _ => owner
  | _ => none

def SyncObject.count : SyncObject → Nat
  | .mutex _ count _ => count
  | _ => 0

/-- **The shape of a server with mutexes only**, whatever their counts. -/
structure Shaped (s : Server) : Prop where
  kinds : ∀ obj, obj < s.nextObject ↔ (s.objects obj).isMutex = true
  small : ∀ thread, ∀ wait ∈ (s.threads thread).wait, wait.objects.length ≤ maximumWaitObjects
  named : ∀ thread, ∀ wait ∈ (s.threads thread).wait, ∀ obj ∈ wait.objects, obj < s.nextObject
  listed : ∀ thread obj, obj ∈ s.mutexList thread ↔ (s.objects obj).owner? = some thread
  nodup : ∀ thread, (s.mutexList thread).Nodup

/-- **The counts, owners and flags are those of the log.** -/
structure Tracks (s : Server) (depths : ObjectId → Nat) (pendings : ObjectId → Prop) : Prop where
  counts : ∀ obj, (s.objects obj).count = depths obj
  owners : ∀ obj, 0 < (s.objects obj).count ↔ (s.objects obj).owner? ≠ none
  flags : ∀ obj, (s.objects obj).isAbandoned = true ↔ pendings obj

variable {s t : Server} {log : List MutexEvent} {reports : Bool} {depths : ObjectId → Nat} {obj : ObjectId}
  {pendings : ObjectId → Prop} {u : Server}

/-- One object is replaced by one that is as the log says. -/
theorem Tracks.replace {depths' : ObjectId → Nat} {pendings' : ObjectId → Prop} {object : SyncObject}
    (tracks : Tracks s depths pendings)
    (objects : t.objects = update s.objects obj object)
    (count : object.count = depths' obj) (owner : 0 < object.count ↔ object.owner? ≠ none)
    (flag : object.isAbandoned = true ↔ pendings' obj)
    (others : ∀ other, other ≠ obj → depths' other = depths other ∧ (pendings' other ↔ pendings other)) :
    Tracks t depths' pendings' := by
  refine ⟨fun other => ?_, fun other => ?_, fun other => ?_⟩
  all_goals
    rw [objects, update_apply]
    by_cases same : other = obj
  · rw [if_pos same, same]
    exact count
  · rw [if_neg same, (others other same).1]
    exact tracks.counts other
  · rwa [if_pos same]
  · rw [if_neg same]
    exact tracks.owners other
  · rw [if_pos same, same]
    exact flag
  · rw [if_neg same, (others other same).2]
    exact tracks.flags other

/-- One object is replaced by a mutex, and the list of the one thread that may own it follows. -/
theorem Shaped.replace {object : SyncObject} {thread : ThreadId} {list : List ObjectId} (shaped : Shaped s)
    (objects : t.objects = update s.objects obj object) (lists : t.mutexList = update s.mutexList thread list)
    (threads : t.threads = s.threads) (mutex : object.isMutex = true) (inside : obj < t.nextObject)
    (next : ∀ other, other ≠ obj → (other < t.nextObject ↔ other < s.nextObject))
    (before : ∀ id ∈ (s.objects obj).owner?, id = thread) (after : ∀ id ∈ object.owner?, id = thread)
    (own : obj ∈ list ↔ object.owner? = some thread)
    (others : ∀ other, other ≠ obj → (other ∈ list ↔ other ∈ s.mutexList thread)) (nodup : list.Nodup) :
    Shaped t := by
  refine ⟨fun other => ?_, by rw [threads]; exact shaped.small, fun id wait member other named => ?_,
    fun id other => ?_, fun id => ?_⟩
  · rw [objects, update_apply]
    split
    next same => exact iff_of_true (same ▸ inside) mutex
    next different => exact (next other different).trans (shaped.kinds other)
  · rw [threads] at member
    by_cases same : other = obj
    · exact same ▸ inside
    · exact (next other same).mpr (shaped.named id wait member other named)
  · rw [objects, lists, update_apply, update_apply]
    split
    next me =>
      subst me
      split
      next same => exact same ▸ own
      next different => exact (others other different).trans (shaped.listed id other)
    next notMe =>
      rw [shaped.listed]
      split
      next same =>
        exact iff_of_false (fun owns => notMe (before id (same ▸ owns))) (fun owns => notMe (after id owns))
      next => rfl
  · rw [lists, update_apply]
    split
    · exact nodup
    · exact shaped.nodup id

/-- Only the waits change, and all of them are small ones for objects that exist. -/
theorem Shaped.rewait (shaped : Shaped s) (objects : t.objects = s.objects)
    (mutexList : t.mutexList = s.mutexList) (nextObject : t.nextObject = s.nextObject)
    (waits : ∀ thread, ∀ wait ∈ (t.threads thread).wait, wait.objects.length ≤ maximumWaitObjects ∧
      ∀ obj ∈ wait.objects, obj < s.nextObject) : Shaped t := by
  cases t
  subst objects mutexList nextObject
  exact ⟨shaped.kinds, fun thread wait member => (waits thread wait member).1,
    fun thread wait member => (waits thread wait member).2, shaped.listed, shaped.nodup⟩

/-- Every wait has reported an abandoned mutex exactly if it got one. -/
def Reported (log : List MutexEvent) : Prop :=
  ∀ front thread objects status back, log = front ++ .ended thread objects status :: back →
    (ReportsAbandoned status ↔ ∃ obj ∈ objects, Pending front obj)

/-- **The server follows the log**, as long as no count was too large. -/
def Follows (s : Server) (log : List MutexEvent) : Prop :=
  Shallow log → Tracks s (depth log) (Pending log) ∧ Reported log

theorem Follows.congr (follows : Follows s log) (objects : t.objects = s.objects) : Follows t log := by
  intro shallow
  obtain ⟨⟨counts, owners, flags⟩, reported⟩ := follows shallow
  exact ⟨⟨by rwa [objects], by rwa [objects], by rwa [objects]⟩, reported⟩

/-! ### Calls of `satisfied` -/

/-- **Calls of `satisfied`** for these objects lead from `s` to `s'`; `reports` is whether one of
them makes the wait an abandoned one. -/
structure Grabbed (s s' : Server) (thread : ThreadId) (objects : List ObjectId) (reports : Bool) :
    Prop where
  threads : s'.threads = s.threads
  shaped : Shaped s → Shaped s'
  others : ∀ other, other ≠ thread → s'.mutexList other = s.mutexList other
  signaled : ∀ obj, (s.objects obj).isMutex = true → (s.objects obj).signaled thread = true →
    (s'.objects obj).isMutex = true ∧ (s'.objects obj).signaled thread = true
  history : ∃ calls, s'.history = s.history ++ calls ∧
    ∀ got rest, waitsOf got (calls ++ rest) = waitsOf (got ++ objects) rest
  tracks : ∀ depths pendings, Tracks s depths pendings →
    (∀ obj, depths obj + objects.count obj < uintSize) →
      Tracks s' (fun obj => depths obj + objects.count obj) (fun obj => pendings obj ∧ obj ∉ objects) ∧
        (reports = true ↔ ∃ obj ∈ objects, pendings obj)

theorem Grabbed.none (s : Server) (thread : ThreadId) : Grabbed s s thread [] false where
  threads := rfl
  shaped := id
  others _ _ := rfl
  signaled _ mutex lit := ⟨mutex, lit⟩
  history := ⟨[], by simp, by simp⟩
  tracks _ _ tracks _ := ⟨⟨tracks.counts, tracks.owners, by simpa using tracks.flags⟩, by simp⟩

theorem Grabbed.append {thread : ThreadId} {one two : List ObjectId} {reports' : Bool}
    (first : Grabbed s t thread one reports) (second : Grabbed t u thread two reports') :
    Grabbed s u thread (one ++ two) (reports || reports') where
  threads := second.threads.trans first.threads
  shaped := second.shaped ∘ first.shaped
  others other different := (second.others other different).trans (first.others other different)
  signaled obj mutex lit := by
    obtain ⟨mutex, lit⟩ := first.signaled obj mutex lit
    exact second.signaled obj mutex lit
  history := by
    obtain ⟨calls, grown, reads⟩ := first.history
    obtain ⟨calls', grown', reads'⟩ := second.history
    refine ⟨calls ++ calls', by rw [grown', grown, append_assoc], fun got rest => ?_⟩
    rw [append_assoc, reads, reads', append_assoc]
  tracks depths pendings tracks room := by
    have split : ∀ obj, depths obj + (one ++ two).count obj =
        depths obj + one.count obj + two.count obj := by
      intro obj
      rw [count_append, Nat.add_assoc]
    simp only [split] at room ⊢
    obtain ⟨mid, midReports⟩ := first.tracks depths pendings tracks fun obj =>
      Nat.lt_of_le_of_lt (Nat.le_add_right _ _) (room obj)
    obtain ⟨last, lastReports⟩ := second.tracks _ _ mid room
    refine ⟨⟨last.counts, last.owners, fun obj => (last.flags obj).trans ?_⟩, ?_⟩
    · simp [and_assoc]
    · rw [Bool.or_eq_true, midReports, lastReports]
      constructor
      · rintro (⟨obj, member, pending⟩ | ⟨obj, member, pending, _⟩)
        · exact ⟨obj, mem_append_left _ member, pending⟩
        · exact ⟨obj, mem_append_right _ member, pending⟩
      · rintro ⟨obj, member, pending⟩
        by_cases early : obj ∈ one
        · exact .inl ⟨obj, early, pending⟩
        · exact .inr ⟨obj, (mem_append.mp member).resolve_left early, pending, early⟩

/-- The server after one call for a mutex that the thread gets. -/
def Server.grab (s : Server) (obj : ObjectId) (thread : ThreadId) (signaled : Bool) (count : Nat) :
    Server :=
  let s' := (s.record (.satisfied obj thread signaled)).setMutexList thread
    ((s.objects obj).grabbedList obj (s.mutexList thread))
  s'.setObject obj (.mutex (some thread) count false)

section Grab

variable {thread : ThreadId} {owner : Option ThreadId} {count count' : Nat} {abandoned : Bool}
  (signaled : Bool)

/-- The two ways to get a mutex: it is free, or the thread has it already. -/
def Grabs (owner : Option ThreadId) (count count' : Nat) (thread : ThreadId) : Prop :=
  count = 0 ∧ owner = none ∧ count' = 1 ∨
    count ≠ 0 ∧ owner = some thread ∧ count' = (count + 1) % uintSize

theorem grab_mutexList (was : s.objects obj = .mutex owner count abandoned) :
    (s.grab obj thread signaled count').mutexList =
      update s.mutexList thread (if count = 0 then obj :: s.mutexList thread else s.mutexList thread) := by
  show update s.mutexList thread _ = _
  rw [was]
  cases count <;> rfl

theorem Shaped.grab (shaped : Shaped s) (was : s.objects obj = .mutex owner count abandoned)
    (grabs : Grabs owner count count' thread) : Shaped (s.grab obj thread signaled count') := by
  have listed := shaped.listed thread obj
  rw [was] at listed
  refine shaped.replace rfl (grab_mutexList signaled was) rfl rfl
    ((shaped.kinds obj).mpr (by rw [was]; rfl)) (fun _ _ => Iff.rfl) ?_ (by simp [owner?]) ?_
    (fun other different => by split <;> simp [different]) ?_
  all_goals rcases grabs with ⟨free, unowned, _⟩ | ⟨held, mine, _⟩
  · simp [was, owner?, unowned]
  · simp [was, owner?, mine]
  · simp [free, owner?]
  · simp [held, listed, mine, owner?]
  · simp [free, listed, unowned, owner?, shaped.nodup thread]
  · simp [held, shaped.nodup thread]

/-- The count goes up by one, unless it wraps around. -/
theorem Grabs.count_eq (grabs : Grabs owner count count' thread) (room : count + 1 < uintSize) :
    count' = count + 1 := by
  rcases grabs with ⟨rfl, _, rfl⟩ | ⟨_, _, rfl⟩
  · rfl
  · exact Nat.mod_eq_of_lt room

theorem Tracks.grab (tracks : Tracks s depths pendings)
    (was : s.objects obj = .mutex owner count abandoned) (grabs : Grabs owner count count' thread)
    (room : depths obj + 1 < uintSize) :
    Tracks (s.grab obj thread signaled count') (fun other => depths other + [obj].count other)
      fun other => pendings other ∧ other ∉ [obj] := by
  have counted := tracks.counts obj
  rw [was] at counted
  have count_eq : count' = depths obj + 1 := by
    rw [grabs.count_eq (by rw [show count = depths obj from counted]; exact room)]
    rw [show count = depths obj from counted]
  refine tracks.replace rfl ?_ ?_ ?_ fun other different => ⟨?_, ?_⟩
  · simp [SyncObject.count, count_eq]
  · simp [SyncObject.count, SyncObject.owner?, count_eq]
  · simp [isAbandoned]
  · simp [Ne.symm different]
  · simp [different]

/-- A call of `satisfied` fails after these calls, at a mutex with an owner and the count 0. -/
def FailsAt (s : Server) (thread : ThreadId) (failure : Failure) : Prop :=
  failure.assertion = .mutexOwner ∧ ∃ t got reports, Grabbed s t thread got reports ∧
    failure.history = t.history ∧ ∃ obj id flag, t.objects obj = .mutex (some id) 0 flag

/-- **One call for a mutex that is signaled.** -/
theorem objectSatisfied_grabbed (mutex : (s.objects obj).isMutex = true)
    (lit : (s.objects obj).signaled thread = true) :
    Ensures (FailsAt s thread) (objectSatisfied s obj thread) fun result =>
      Grabbed s result.1 thread [obj] result.2 := by
  obtain ⟨owner, count, abandoned, was⟩ := isMutex_iff.mp mutex
  cases done : doGrab owner count thread with
  | error failure =>
    rw [was] at lit
    obtain ⟨rfl, rfl, id, rfl⟩ := doGrab_error lit done
    simp only [objectSatisfied, was, satisfied, done]
    exact ⟨rfl, s, [], false, Grabbed.none s thread, rfl, obj, id, abandoned, was⟩
  | ok grabbed =>
    obtain ⟨mine, grabs⟩ := (doGrab_yields owner count thread).post done
    have result : objectSatisfied s obj thread =
        .ok (s.grab obj thread ((s.objects obj).signaled thread) grabbed.2, abandoned) := by
      simp only [objectSatisfied, was, satisfied, done]
      rw [show grabbed = (some thread, grabbed.2) from Prod.ext mine rfl]
      simp only [Server.grab, was]
      rfl
    rw [result]
    refine ⟨rfl, fun shaped => shaped.grab _ was grabs, fun other different => ?_,
      fun other isMutex was => ?_, ⟨_, rfl, fun got rest => rfl⟩, fun depths pendings tracks room => ?_⟩
    · rw [grab_mutexList _ was, update_of_ne different]
    · show (update s.objects obj _ other).isMutex = true ∧ (update s.objects obj _ other).signaled thread = true
      rw [update_apply]
      split
      · exact ⟨rfl, by simp [signaled]⟩
      · exact ⟨isMutex, was⟩
    · have here := room obj
      rw [count_singleton_self] at here
      have flag := tracks.flags obj
      rw [was] at flag
      refine ⟨tracks.grab _ was grabs here, ?_⟩
      simpa only [isAbandoned, mem_singleton, exists_eq_left] using flag

/-- **The calls for a list of mutexes**, all of them signaled. -/
theorem satisfyAll_grabbed {objects : List ObjectId} (before : Bool)
    (mutexes : ∀ obj ∈ objects, (s.objects obj).isMutex = true)
    (lit : ∀ obj ∈ objects, (s.objects obj).signaled thread = true) :
    Ensures (FailsAt s thread) (satisfyAll s thread objects before) fun result =>
      ∃ reports, result.2 = (before || reports) ∧ Grabbed s result.1 thread objects reports := by
  induction objects generalizing s before with
  | nil => exact ⟨false, (Bool.or_false before).symm, Grabbed.none s thread⟩
  | cons obj rest ih =>
    refine ensures_bind (objectSatisfied_grabbed (mutexes obj mem_cons_self)
      (lit obj mem_cons_self)) fun result grabbed => ?_
    have kept : ∀ other ∈ rest, _ := fun other member =>
      grabbed.signaled other (mutexes other (mem_cons_of_mem _ member))
        (lit other (mem_cons_of_mem _ member))
    have tail := ih (before || result.2) (fun other member => (kept other member).1)
      (fun other member => (kept other member).2)
    refine (tail.mono fun final ⟨reports, same, later⟩ => ?_).allow
      fun failure ⟨isOwner, t, got, reports, later, rest⟩ => ?_
    · exact ⟨isOwner, t, _, _, grabbed.append later, rest⟩
    · exact ⟨result.2 || reports, by rw [same, Bool.or_assoc], grabbed.append later⟩

end Grab

/-! ### Waits that end -/

/-- The server goes from `s` to `s'` by ending waits, which the events tell. A thread without a wait
gets no mutex. -/
structure Leads (s s' : Server) (events : List MutexEvent) : Prop where
  shaped : Shaped s'
  idle : ∀ thread, (s.threads thread).wait = [] →
    s'.mutexList thread = s.mutexList thread ∧ (s'.threads thread).wait = []
  history : ∃ calls, s'.history = s.history ++ calls ∧
    ∀ rest, waitsOf [] (calls ++ rest) = events ++ waitsOf [] rest
  follows : ∀ log, Follows s log → Follows s' (log ++ events)

theorem Shaped.leads (shaped : Shaped s) : Leads s s [] where
  shaped := shaped
  idle _ none := ⟨rfl, none⟩
  history := ⟨[], by simp, by simp⟩
  follows log follows := by simpa using follows

theorem Leads.append {one two : List MutexEvent} (first : Leads s t one) (second : Leads t u two) :
    Leads s u (one ++ two) where
  shaped := second.shaped
  idle thread none := by
    obtain ⟨same, none⟩ := first.idle thread none
    obtain ⟨same', none'⟩ := second.idle thread none
    exact ⟨same'.trans same, none'⟩
  history := by
    obtain ⟨calls, grown, reads⟩ := first.history
    obtain ⟨calls', grown', reads'⟩ := second.history
    refine ⟨calls ++ calls', by rw [grown', grown, append_assoc], fun rest => ?_⟩
    rw [append_assoc, reads, reads', append_assoc]
  follows log follows := by
    rw [← append_assoc]
    exact second.follows _ (first.follows log follows)

/-- The server has a history that goes on from `base`, and follows the log that goes on from `log`. -/
structure Placed (base : List Happening) (log : List MutexEvent) (s : Server) : Prop where
  shaped : Shaped s
  grown : ∃ calls events, s.history = base ++ calls ∧
    (∀ rest, waitsOf [] (calls ++ rest) = events ++ waitsOf [] rest) ∧ Follows s (log ++ events)

/-- An assertion on an owner failed, and a recursion count of the log was too large. -/
def Overflows (base : List Happening) (log : List MutexEvent) (failure : Failure) : Prop :=
  failure.assertion = .mutexOwner ∧ ¬ Shallow (failure.log base log)

theorem Shaped.placed (shaped : Shaped s) (follows : Follows s log) : Placed s.history log s :=
  ⟨shaped, [], [], (append_nil _).symm, fun _ => rfl, by rwa [append_nil]⟩

theorem Leads.placed {base : List Happening} {events : List MutexEvent} (leads : Leads s t events)
    (placed : Placed base log s) : Placed base log t := by
  obtain ⟨-, calls, before, grown, reads, follows⟩ := placed
  obtain ⟨calls', grown', reads'⟩ := leads.history
  refine ⟨leads.shaped, calls ++ calls', before ++ events, by rw [grown', grown, append_assoc],
    fun rest => ?_, ?_⟩
  · rw [append_assoc, reads, reads', append_assoc]
  · rw [← append_assoc]
    exact leads.follows _ follows

/-- **A mutex with an owner and the count 0** is one whose count has wrapped around. -/
theorem Placed.overflows {base : List Happening} {thread : ThreadId} {failure : Failure}
    (placed : Placed base log s) (fails : FailsAt s thread failure) : Overflows base log failure := by
  obtain ⟨isOwner, t, got, reports, grabbed, history, obj, id, flag, wrapped⟩ := fails
  obtain ⟨-, calls, events, grown, reads, follows⟩ := placed
  obtain ⟨calls', grown', reads'⟩ := grabbed.history
  refine ⟨isOwner, fun shallow => ?_⟩
  rw [Failure.log, history, grown', grown, append_assoc, drop_left, append_assoc, reads, reads',
    ← append_assoc] at shallow
  obtain ⟨tracks, -⟩ := follows shallow.of_append
  have room : ∀ obj, depth (log ++ events) obj + got.count obj < uintSize := fun obj => by
    have whole := shallow _ (prefix_refl _) obj
    rwa [depth_append] at whole
  have owners := (grabbed.tracks _ _ tracks room).1.owners obj
  rw [wrapped] at owners
  simp [SyncObject.count, SyncObject.owner?] at owners

/-- The reports are as they should be if they were before the last event and it is, too. -/
theorem reported_concat {event : MutexEvent} (reported : Reported log)
    (last : ∀ thread objects status, event = .ended thread objects status →
      (ReportsAbandoned status ↔ ∃ obj ∈ objects, Pending log obj)) : Reported (log ++ [event]) := by
  intro front thread objects status back same
  rcases eq_nil_or_concat back with rfl | ⟨mid, final, rfl⟩
  · obtain ⟨rfl, tail⟩ := append_inj' same rfl
    exact last thread objects status (cons.inj tail).1
  · rw [concat_eq_append, ← cons_append, ← append_assoc] at same
    obtain ⟨rfl, _⟩ := append_inj' same rfl
    exact reported front thread objects status mid rfl

/-- A status that `end_wait` is called with: an index, or no success at all. -/
def CanEnd (status : Nat) : Prop :=
  status < maximumWaitObjects ∨ statusTimeout ≤ status

section Waits

variable {thread : ThreadId} {wait : ThreadWait} {rest : List ThreadWait} {status : Nat}

/-- A wait reports an abandoned mutex exactly if a call of `satisfied` made it do so. -/
theorem reportsAbandoned_iff (small : wait.objects.length ≤ maximumWaitObjects) (canEnd : CanEnd status)
    (used : reports = true → wait.consumes status ≠ []) :
    ReportsAbandoned (if reports then status + statusAbandonedWait0 else status) ↔
      reports = true := by
  unfold ReportsAbandoned CanEnd maximumWaitObjects statusAbandonedWait0 statusTimeout at *
  cases reports with
  | false => simp; omega
  | true =>
    have inside : status < wait.objects.length := by
      by_contra outside
      exact used rfl (if_neg outside)
    simp
    omega

theorem Shaped.pop (shaped : Shaped s) (was : (s.threads thread).wait = wait :: rest) :
    Shaped (s.setThread thread { s.threads thread with wait := rest }) := by
  refine shaped.rewait rfl rfl rfl fun other later member => ?_
  have member := mem_of_pop was member
  exact ⟨shaped.small other later member, shaped.named other later member⟩

/-- The log of a wait that ends follows its calls of `satisfied`. -/
theorem Follows.ended {s' : Server} (follows : Follows s log)
    (grabbed : Grabbed s s' thread (wait.consumes status) reports)
    (small : wait.objects.length ≤ maximumWaitObjects) (canEnd : CanEnd status) :
    Follows s' (log ++ [.ended thread (wait.consumes status)
      (if reports then status + statusAbandonedWait0 else status)]) := by
  intro shallow
  obtain ⟨tracks, reported⟩ := follows shallow.of_append
  have depth_eq : ∀ obj, depth (log ++ [.ended thread (wait.consumes status)
      (if reports then status + statusAbandonedWait0 else status)]) obj =
      depth log obj + (wait.consumes status).count obj := fun obj => by
    rw [depth_append]
    rfl
  obtain ⟨later, reports_iff⟩ := grabbed.tracks _ _ tracks fun obj => by
    rw [← depth_eq]
    exact shallow _ (prefix_refl _) obj
  refine ⟨⟨fun obj => ?_, later.owners, fun obj => ?_⟩, reported_concat reported ?_⟩
  · rw [depth_eq]
    exact later.counts obj
  · refine (later.flags obj).trans ?_
    rw [pending_concat]
    simp
  · intro t objects status event
    cases event
    rw [← reports_iff]
    refine reportsAbandoned_iff small canEnd fun yes empty => ?_
    obtain ⟨obj, member, _⟩ := reports_iff.mp yes
    rw [empty] at member
    cases member

variable {base : List Happening} {log : List MutexEvent}

/-- **A wait that ends**, when what it uses is there. -/
theorem endWait_leads (placed : Placed base log s) (was : (s.threads thread).wait = wait :: rest)
    (canEnd : CanEnd status)
    (lit : ∀ obj ∈ wait.consumes status, (s.objects obj).signaled thread = true) :
    Ensures (Overflows base log) (endWait s thread status) fun result =>
      Leads s result.1 [.ended thread (wait.consumes status) result.2] ∧
        (result.1.threads thread).wait = rest := by
  have shaped := placed.shaped
  have inWaits := mem_of_eq_cons was
  have isMutex : ∀ obj ∈ wait.consumes status, (s.objects obj).isMutex = true := fun obj member =>
    (shaped.kinds obj).mp (shaped.named thread wait inWaits obj (mem_of_mem_consumes member))
  unfold endWait
  rw [was]
  have popped : Placed base log (s.setThread thread { s.threads thread with wait := rest }) := by
    obtain ⟨-, calls, events, grown, reads, follows⟩ := placed
    exact ⟨shaped.pop was, calls, events, grown, reads, follows.congr rfl⟩
  refine ensures_bind (Ensures.allow (satisfyAll_grabbed false isMutex lit) fun _ => popped.overflows)
    fun ⟨final, found⟩ ⟨reports, same, grabbed⟩ => ?_
  obtain rfl : found = reports := by simpa using same
  have threads : ∀ other, final.threads other = update s.threads thread
      { s.threads thread with wait := rest } other := fun other => congrFun grabbed.threads other
  obtain ⟨kinds, small, named, listed, nodup⟩ := grabbed.shaped (shaped.pop was)
  refine ⟨⟨⟨kinds, small, named, listed, nodup⟩, fun other none => ?_, ?_, fun log follows => ?_⟩, ?_⟩
  · have different : other ≠ thread := by
      rintro rfl
      rw [was] at none
      cases none
    refine ⟨grabbed.others other different, ?_⟩
    show (final.threads other).wait = []
    rwa [threads, update_of_ne different]
  · obtain ⟨calls, later, reads⟩ := grabbed.history
    refine ⟨calls ++ [.woken thread (if found then status + statusAbandonedWait0 else status)], ?_,
      fun rest => ?_⟩
    · show final.history ++ _ = _
      rw [later, ← append_assoc]
      rfl
    · rw [append_assoc, reads]
      rfl
  · -- neither the stack of waits nor the queues matter for the mutexes
    have popped : Follows (s.setThread thread { s.threads thread with wait := rest }) log :=
      follows.congr rfl
    exact (popped.ended grabbed (shaped.small thread wait inWaits) canEnd).congr rfl
  · show (final.threads thread).wait = rest
    rw [threads, update_self]

/-- The waits of a server with mutexes only are such as `Sync/Ledger.lean` requires. -/
theorem Shaped.waitOnce (shaped : Shaped s) (member : wait ∈ (s.threads thread).wait) :
    WaitOnce s wait := by
  refine ⟨shaped.small thread wait member, shaped.named thread wait member, fun _ obj consumable => ?_⟩
  have outside : obj ∉ wait.objects := by
    intro inside
    have mutex := (shaped.kinds obj).mp (shaped.named thread wait member obj inside)
    obtain ⟨owner, count, abandoned, was⟩ := isMutex_iff.mp mutex
    rw [was] at consumable
    exact consumable
  rw [count_eq_zero.mpr outside]
  exact Nat.zero_le 1

theorem checkWait_canEnd (small : wait.objects.length ≤ maximumWaitObjects)
    (check : checkWait s thread wait = some status) : CanEnd status := by
  obtain found | ⟨-, -, rfl⟩ := (checkWait_cases check).2
  · left
    unfold Server.signaledIndex at found
    split at found
    · split at found
      · cases found
        decide
      · cases found
    · obtain ⟨inside, _⟩ := findIdx?_eq_some_iff_getElem.mp found
      omega
  · exact .inr (Nat.le_refl _)

variable (placed : Placed base log s) (was : (s.threads thread).wait = wait :: rest)
include placed was

/-- The innermost wait ends with the status that `check_wait` found. -/
theorem endWait_checked (check : checkWait s thread wait = some status) :
    Ensures (Overflows base log) (endWait s thread status) fun result =>
      ∃ events, Leads s result.1 events := by
  have member := mem_of_eq_cons was
  refine (endWait_leads placed was (checkWait_canEnd (placed.shaped.small thread wait member) check)
    (checkWait_signaled (placed.shaped.waitOnce member) check)).mono fun result done => ⟨_, done.1⟩

/-- The innermost wait ends without success. -/
theorem endWait_failed (failed : statusTimeout ≤ status) :
    Ensures (Overflows base log) (endWait s thread status) fun result =>
      (∃ events, Leads s result.1 events) ∧ (result.1.threads thread).wait = rest ∧
        result.1.mutexList = s.mutexList := by
  have member := mem_of_eq_cons was
  have nothing : wait.consumes status = [] := by
    have small := placed.shaped.small thread wait member
    unfold maximumWaitObjects at small
    unfold statusTimeout at failed
    exact if_neg (by omega)
  have ended := @endWait_leads s thread wait rest status base log placed was (.inr failed)
    (by rw [nothing]; exact fun _ used => absurd used not_mem_nil)
  have result : endWait s thread status = .ok ((removeQueues
      (s.setThread thread { s.threads thread with wait := rest }) ⟨thread, wait.id⟩
        wait.objects).record (.woken thread status), status) := by
    unfold endWait
    rw [was]
    simp only [nothing]
    rfl
  rw [result] at ended ⊢
  exact ⟨⟨_, ended.1⟩, ended.2, rfl⟩

end Waits

/-! ### Wake-ups -/

/-- **The loops of `wake_up`** lead from a state to another one. -/
theorem leads_rule (base : List Happening) (log : List MutexEvent) :
    EndRule (Overflows base log) (Placed base log) fun s s' =>
      (∃ events, Leads s s' events) ∧ Placed base log s' where
  refl placed := ⟨⟨[], placed.shaped.leads⟩, placed⟩
  keeps := And.right
  trans := fun ⟨⟨_, one⟩, _⟩ ⟨⟨_, two⟩, placed⟩ => ⟨⟨_, one.append two⟩, placed⟩
  ends placed was check := (endWait_checked placed was check).mono fun _ ⟨_, leads⟩ =>
    ⟨⟨_, leads⟩, leads.placed placed⟩

end FreeWindows.Sync
