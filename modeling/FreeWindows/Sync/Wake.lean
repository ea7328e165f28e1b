/-
**Waking threads.**

What `wake_thread` and `wake_up` do, in terms that do not mention their loops:

* `Linked`: the invariant that ties waits and queues together: every wait has an entry in the queue
  of each object it names, once for each time it names it, and no recursion count of a mutex can
  wrap around by what is queued;
* `Drained s s'`: waits were ended on the way from `s` to `s'`, and nothing else happened;
* `wakeThreadLoop_woken`: after `wake_thread` the innermost wait of the thread has to wait
  (`Settled`);
* `wakeUp_rule`: the invariant rule of the loop of `wake_up`.
-/

import FreeWindows.Sync.Consume

namespace FreeWindows.Sync

open Lib Function List

/-- **Waits and queues agree**, and recursion counts have room for everything queued. -/
structure Linked (s : Server) : Prop where
  entries : ∀ thread, ∀ wait ∈ (s.threads thread).wait, ∀ obj,
    wait.objects.count obj ≤ (s.queue obj).count ⟨thread, wait.id⟩
  ids : ∀ thread, ((s.threads thread).wait.map ThreadWait.id).Nodup
  fresh : ∀ thread, ∀ wait ∈ (s.threads thread).wait, wait.id < s.nextWait
  named : ∀ thread, ∀ wait ∈ (s.threads thread).wait, ∀ obj ∈ wait.objects, obj < s.nextObject
  room : ∀ obj, (s.objects obj).Room (s.queue obj).length

variable {s s' : Server} {thread : ThreadId} {entry : QueueEntry} {count : Nat} {wait : ThreadWait}
  {obj : ObjectId}

theorem Linked.roomFor (linked : Linked s) (member : wait ∈ (s.threads thread).wait) :
    RoomFor s wait := by
  intro obj
  have queued := linked.entries thread wait member obj
  exact (linked.room obj).mono (le_trans queued count_le_length)

theorem Linked.queued (linked : Linked s) (member : wait ∈ (s.threads thread).wait)
    (named : obj ∈ wait.objects) : ⟨thread, wait.id⟩ ∈ s.queue obj := by
  have queued := linked.entries thread wait member obj
  have positive : 0 < wait.objects.count obj := count_pos_iff.mpr named
  exact count_pos_iff.mp (by omega)

/-! ### Waits that end -/

/-- Waits were ended on the way from `s` to `s'`, and nothing else happened. -/
structure Drained (s s' : Server) : Prop where
  signaled : ∀ obj thread, (s'.objects obj).signaled thread = true →
    (s.objects obj).signaled thread = true
  amount : ∀ obj, (s'.objects obj).amount ≤ (s.objects obj).amount
  consumable : ∀ obj, (s.objects obj).Consumable → (s'.objects obj).Consumable
  suspend : ∀ thread, (s'.threads thread).suspend = (s.threads thread).suspend
  wait : ∀ thread, (s'.threads thread).wait <:+ (s.threads thread).wait
  queue : ∀ obj, (s'.queue obj).Sublist (s.queue obj)
  nextObject : s'.nextObject = s.nextObject
  currentTime : s'.currentTime = s.currentTime
  monotonicTime : s'.monotonicTime = s.monotonicTime

theorem drained_refl (s : Server) : Drained s s :=
  ⟨fun _ _ h => h, fun _ => le_rfl, fun _ h => h, fun _ => rfl, fun _ => suffix_refl _,
    fun _ => .refl _, rfl, rfl, rfl⟩

theorem Drained.trans {t u : Server} (one : Drained s t) (two : Drained t u) : Drained s u :=
  ⟨fun obj thread h => one.signaled obj thread (two.signaled obj thread h),
    fun obj => le_trans (two.amount obj) (one.amount obj),
    fun obj h => two.consumable obj (one.consumable obj h),
    fun thread => (two.suspend thread).trans (one.suspend thread),
    fun thread => (two.wait thread).trans (one.wait thread),
    fun obj => (two.queue obj).trans (one.queue obj),
    two.nextObject.trans one.nextObject, two.currentTime.trans one.currentTime,
    two.monotonicTime.trans one.monotonicTime⟩

theorem Drained.expired (drained : Drained s s') (wait : ThreadWait) :
    s'.expired wait = s.expired wait := by
  unfold Server.expired
  rw [drained.currentTime, drained.monotonicTime]

section Ended

variable {rest : List ThreadWait} {status : Nat}

section Ended

variable (ended : Ended s s' thread wait rest status)
include ended

theorem Ended.others {other : ThreadId} (different : other ≠ thread) :
    s'.threads other = s.threads other := by
  rw [ended.threads, update_of_ne different]

theorem Ended.wait_self : (s'.threads thread).wait = rest := by
  rw [ended.threads, update_self]

theorem Ended.drained : Drained s s' := by
  refine ⟨fun obj => (ended.each obj).signaled, fun obj => ?_, fun obj => (ended.each obj).consumable,
    fun other => ?_, fun other => ?_, fun obj => ?_, ended.nextObject, ended.currentTime,
    ended.monotonicTime⟩
  · have := (ended.each obj).amount
    omega
  · by_cases same : other = thread
    · rw [same, ended.threads, update_self]
    · rw [ended.others same]
  · by_cases same : other = thread
    · rw [same, ended.wait_self, ended.was]
      exact suffix_cons _ _
    · exact (ended.others same) ▸ suffix_refl _
  · rw [ended.queue]
    split
    · exact filter_sublist
    · exact .refl _

end Ended

/-- What a wait can add to a recursion count it takes from the queue. -/
theorem Ended.room (ended : Ended s s' thread wait rest status) (linked : Linked s)
    (obj : ObjectId) : (s'.objects obj).Room (s'.queue obj).length := by
  have used := wait.consumes_count_le status obj
  have queued := linked.entries thread wait (mem_of_eq_cons ended.was) obj
  have length : (s'.queue obj).length + wait.objects.count obj ≤ (s.queue obj).length := by
    rw [ended.queue]
    split
    · have parts := (s.queue obj).length_eq_countP_add_countP (· == ⟨thread, wait.id⟩)
      rw [← count_eq_countP, countP_eq_length_filter] at parts
      simp only [beq_iff_eq, ne_eq] at parts ⊢
      omega
    · rename_i absent
      rw [count_eq_zero.mpr absent]
      omega
  exact (ended.each obj).room _ ((linked.room obj).mono (by omega))

/-- **Ending a wait keeps waits and queues in agreement.** -/
theorem Ended.linked (ended : Ended s s' thread wait rest status) (linked : Linked s) : Linked s' := by
  have nodup := linked.ids thread
  rw [ended.was, map_cons, nodup_cons] at nodup
  refine ⟨fun other later member obj => ?_, fun other => ?_, fun other later member => ?_,
    fun other later member obj inside => ?_, ended.room linked⟩
  · have different : (⟨other, later.id⟩ : QueueEntry) ≠ ⟨thread, wait.id⟩ := by
      intro same
      obtain ⟨rfl, sameId⟩ := QueueEntry.mk.injEq .. ▸ same
      rw [ended.wait_self] at member
      exact nodup.1 (sameId ▸ mem_map_of_mem member)
    have same : (s'.queue obj).count ⟨other, later.id⟩ = (s.queue obj).count ⟨other, later.id⟩ := by
      rw [ended.queue]
      split
      · exact count_filter (decide_eq_true different)
      · rfl
    rw [same]
    exact linked.entries other later ((ended.drained.wait other).subset member) obj
  · exact (linked.ids other).sublist ((ended.drained.wait other).sublist.map _)
  · rw [ended.nextWait]
    exact linked.fresh other later ((ended.drained.wait other).subset member)
  · rw [ended.nextObject]
    exact linked.named other later ((ended.drained.wait other).subset member) obj inside

end Ended

/-! ### One thread -/

/-- The innermost wait of the thread, if there is one, has to wait. -/
def Settled (s : Server) (thread : ThreadId) : Prop :=
  ∀ wait rest, (s.threads thread).wait = wait :: rest → checkWait s thread wait = none

/-- `wake_thread` has ended `count` waits of the thread. -/
structure Woken (s s' : Server) (thread : ThreadId) (count : Nat) : Prop where
  drained : Drained s s'
  linked : Linked s'
  others : ∀ other, other ≠ thread → s'.threads other = s.threads other
  settled : Settled s' thread
  length : (s'.threads thread).wait.length + count = (s.threads thread).wait.length
  unchanged : count = 0 → s' = s

/-- The innermost wait of the thread was ended first, and what it uses is gone. -/
def UsesFirst (s s' : Server) (thread : ThreadId) : Prop :=
  ∃ wait rest status, (s.threads thread).wait = wait :: rest ∧ checkWait s thread wait = some status ∧
    ∀ obj, (s'.objects obj).amount ≤ (s.objects obj).amount - (wait.consumes status).count obj

theorem wakeThreadLoop_woken (fuel : Nat) (linked : Linked s)
    (enough : (s.threads thread).wait.length ≤ fuel) :
    Yields (wakeThreadLoop thread fuel s) fun out =>
      Woken s out.1 thread out.2 ∧ (out.2 ≠ 0 → UsesFirst s out.1 thread) := by
  induction fuel generalizing s with
  | zero =>
    refine ⟨⟨drained_refl _, linked, fun _ _ => rfl, fun wait rest was => ?_, rfl, fun _ => rfl⟩, absurd rfl⟩
    rw [was] at enough
    cases enough
  | succ fuel ih =>
    have idle : Settled s thread → Woken s s thread 0 := fun settled =>
      ⟨drained_refl _, linked, fun _ _ => rfl, settled, rfl, fun _ => rfl⟩
    rw [wakeThreadLoop]
    split
    · rename_i empty
      exact ⟨idle fun wait rest was => (nomatch empty.symm.trans was), absurd rfl⟩
    · rename_i wait rest was
      split
      · rename_i waits
        refine ⟨idle fun first later same => ?_, absurd rfl⟩
        cases was.symm.trans same
        exact waits
      · rename_i status check
        rw [was, length_cons] at enough
        refine ensures_bind (endWait_ended was (linked.roomFor (mem_of_eq_cons was))) fun mid ended => ?_
        have shorter : (mid.1.threads thread).wait.length ≤ fuel := by
          rw [ended.wait_self]
          omega
        refine ensures_bind (ih (ended.linked linked) shorter) fun last ⟨woken, _⟩ => ?_
        refine ⟨⟨ended.drained.trans woken.drained, woken.linked, fun other different => ?_,
          woken.settled, ?_, nofun⟩, fun _ => ⟨wait, rest, status, was, check, fun obj => ?_⟩⟩
        · exact (woken.others other different).trans (ended.others different)
        · have length := woken.length
          rw [ended.wait_self] at length
          rw [was, length_cons, ← length]
          rfl
        · exact le_trans (woken.drained.amount obj) (ended.each obj).amount

/-! ### The queue of an object -/

/-- Walking along a queue: either everybody in it has to wait and nothing happened, or one thread
was woken. -/
theorem wakeFirst_cases (linked : Linked s) (entries : List QueueEntry) :
    Yields (wakeFirst s entries) fun out =>
      (out.2 = false ∧ out.1 = s ∧ ∀ entry ∈ entries, Settled s entry.thread) ∨
        (out.2 = true ∧ ∃ entry ∈ entries, ∃ count, count ≠ 0 ∧ Woken s out.1 entry.thread count ∧
          UsesFirst s out.1 entry.thread) := by
  induction entries generalizing s with
  | nil => exact .inl ⟨rfl, rfl, nofun⟩
  | cons entry rest ih =>
    refine ensures_bind (wakeThreadLoop_woken _ linked le_rfl) fun ⟨mid, count⟩ ⟨woken, first⟩ => ?_
    simp only
    split
    · rename_i zero
      obtain rfl := woken.unchanged zero
      refine (ih linked).mono fun out cases => cases.imp ?_ ?_
      · exact fun ⟨nobody, same, settled⟩ => ⟨nobody, same, forall_mem_cons.mpr ⟨woken.settled, settled⟩⟩
      · exact fun ⟨one, later, member, wakes⟩ => ⟨one, later, mem_cons_of_mem _ member, wakes⟩
    · rename_i nonzero
      exact .inr ⟨rfl, entry, mem_cons_self, count, nonzero, woken, first nonzero⟩

/-- **The invariant rule of `wake_up`.** An invariant of the state and the remaining limit, kept by
every wake-up of a thread in the queue, holds at the end; and then either everybody in the queue
has to wait, or the last wake-up used up the limit. -/
theorem wakeUp_rule (obj : ObjectId) (inv : Server → Nat → Prop)
    (linked : ∀ s max, inv s max → Linked s)
    (kept : ∀ s s' max entry count, inv s max → entry ∈ s.queue obj →
      Woken s s' entry.thread count → UsesFirst s s' entry.thread → inv s' (max - 1))
    {max : Nat} (start : inv s max) : Yields (wakeUp s obj max) fun s' =>
      (∃ left, inv s' left ∧ ∀ entry ∈ s'.queue obj, Settled s' entry.thread) ∨
        (max ≠ 0 ∧ inv s' 0) := by
  suffices loop : ∀ fuel (s : Server) max, s.pendingWaits obj < fuel → inv s max →
      Yields (wakeUpLoop obj fuel s max) fun s' =>
        (∃ left, inv s' left ∧ ∀ entry ∈ s'.queue obj, Settled s' entry.thread) ∨
          (max ≠ 0 ∧ inv s' 0) from
    loop _ s max (Nat.lt_succ_self _) start
  intro fuel
  induction fuel with
  | zero =>
    intro s max enough
    cases enough
  | succ fuel ih =>
    intro s max enough start
    refine ensures_bind (wakeFirst_cases (linked s max start) _) fun ⟨mid, woke⟩ cases => ?_
    dsimp only at cases ⊢
    obtain ⟨rfl, rfl, settled⟩ | ⟨rfl, entry, member, count, nonzero, woken, first⟩ := cases
    · exact .inl ⟨max, start, settled⟩
    · have next := kept s mid max entry count start member woken first
      have fewer : mid.pendingWaits obj < s.pendingWaits obj := by
        have part := ((woken.drained.queue obj).map fun entry =>
          (mid.threads entry.thread).wait.length).sum_le_sum fun _ _ => Nat.zero_le _
        refine lt_of_le_of_lt part (sum_lt_sum _ _ (fun other _ => ?_) ⟨entry, member, ?_⟩)
        · exact (woken.drained.wait other.thread).length_le
        · have := woken.length
          omega
      split
      · rename_i last
        have one := last.resolve_left (not_not.mpr rfl)
        rw [one] at next
        exact .inr ⟨by omega, next⟩
      · exact (ih mid (max - 1) (by omega) next).mono fun _ done =>
          done.imp_right fun ⟨limited, final⟩ => ⟨by omega, final⟩

end FreeWindows.Sync
