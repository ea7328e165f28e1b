/-
**Runs of a resource.**

* `step_inv`: every step for which the counters have room keeps the counts right;
* `resource_sound`: every run of such steps;
* `semaphore_exhausted`: the semaphores count to 65535, and `RtlReleaseResource` does not look at the
  result of `NtReleaseSemaphore`. With 65536 waiting threads nobody wakes up.
-/

import FreeWindows.Lib.Run
import FreeWindows.Rtl.Resource.Counts

namespace FreeWindows.Rtl.Resource

open Lib Function Option State RwLock

section Runs

variable {ι : Type} [Fintype ι] {s : State ι}

theorem Inv.opened (inv : Inv s) (free : ¬s.rwl.numberActive < 0) : Open s :=
  inv.active.resolve_left fun owned => free owned.negative

theorem Inv.leaves (inv : Inv s) {t : ι} {p pc : Pc} (here : (s.threads t).pc = p) (before : p.isInside = true)
    (after : pc.isInside = false) : Enters s t pc none := by
  refine ⟨?_, fun u other => ?_⟩
  · rw [after]
    exact ⟨nofun, nofun⟩
  · rw [(inv.entered t).mpr (here ▸ before)]
    exact iff_of_false nofun fun same => other (some.inj same).symm

theorem initializeResource_inv : Inv (initializeResource ι) := by
  have none : ∀ f : Thread → Nat, f ⟨.idle, []⟩ = 0 → tally f (initializeResource ι).threads = 0 :=
    fun f zero => tally_eq_zero.mpr fun _ => zero
  have blocked : ∀ mode, (initializeResource ι).blocked mode = 0 := fun mode => none _ rfl
  have held : (initializeResource ι).held = 0 := none _ rfl
  have retrying : (initializeResource ι).retrying .shared = 0 := none _ rfl
  refine ⟨fun _ => ⟨nofun, nofun⟩, nofun, (blocked _).symm, (blocked _).symm, ?_, ?_,
    (by decide : (0 : Int).natAbs < 2 ^ 31), .inr ⟨?_, ?_⟩,
    fun waiting => absurd rfl waiting, fun waiting => absurd rfl waiting⟩
  · rw [blocked]
    decide
  · rw [blocked]
    decide
  · rw [held, retrying]
    rfl
  · exact none _ rfl

/-! ### Exclusion, the count and wake-ups -/

/-- A thread waits for the lock. -/
def State.Waits (s : State ι) : Prop := ∃ t mode, (s.threads t).pc.blocked mode = 1

/-- A semaphore is released for a thread that waits, or a thread that was woken up is about to look at
the lock again. -/
def State.WakeUp (s : State ι) : Prop :=
  0 < s.rwl.exclusiveSemaphore + s.retrying .exclusive ∨ 0 < s.rwl.sharedSemaphore + s.retrying .shared

structure Sound (s : State ι) : Prop where
  /-- A thread inside exclusively excludes all others. -/
  excludes : ∀ t u, .exclusive ∈ (s.threads t).holds → u ≠ t → (s.threads u).holds = []
  /-- The number is minus the recursion count of the owner, or it counts the shared holds, also those
  that were granted to threads that still have to resume. -/
  counts : (∃ t, s.rwl.owningThread = some t ∧ s.rwl.numberActive = -((s.threads t).holds.length : Int)) ∨
    (s.heldExclusive = 0 ∧ s.rwl.numberActive = s.held + (s.rwl.sharedSemaphore + s.retrying .shared))
  /-- No thread waits for a lock that is free without a wake-up. -/
  wakes : s.rwl.numberActive = 0 → s.Waits → s.WakeUp

theorem Inv.sound (inv : Inv s) : Sound s := by
  refine ⟨?_, ?_, ?_⟩
  · intro t u exclusive other
    have mine : 0 < (s.threads t).holds.count .exclusive := List.count_pos_iff.mpr exclusive
    have counted := le_tally (fun thread => thread.holds.count .exclusive) s.threads t
    obtain owned | opened := inv.active
    · obtain ⟨o, -, -, all⟩ := owned.owner
      have owner : t = o := by
        by_contra different
        rw [alone_of_held all different] at exclusive
        nomatch exclusive
      exact alone_of_held all (owner ▸ other)
    · have none := opened.nobody
      simp only [heldExclusive] at none
      omega
  · obtain owned | opened := inv.active
    · obtain ⟨t, owner, number, -⟩ := owned.owner
      exact .inl ⟨t, owner, number⟩
    · exact .inr ⟨opened.nobody, opened.number⟩
  · rintro free ⟨t, mode, waits⟩
    have counted := le_tally (fun thread => thread.pc.blocked mode) s.threads t
    have waiting : 0 < s.blocked mode := by
      simp only [blocked]
      omega
    cases mode with
    | exclusive =>
      have := inv.exclusiveBlocked
      have := inv.exclusivePending
      simp only [State.WakeUp]
      omega
    | shared =>
      have := inv.sharedBlocked
      have := inv.sharedPending
      simp only [State.WakeUp]
      omega

/-! ### Steps -/

variable [DecidableEq ι]

/-- The counters have room for an acquisition: fewer than 65535 threads wait for one of its kind, and the
lock is held fewer than `2^31 - 1` times. -/
def Roomy (s : State ι) : Action ι → Prop
  | .run t => ∀ mode ∈ (s.threads t).pc.acquires,
    s.blocked mode < 65535 ∧ s.rwl.numberActive.natAbs < 2 ^ 31 - 1
  | _ => True

instance (s : State ι) (action : Action ι) : Decidable (Roomy s action) :=
  match action with
  | .run t => inferInstanceAs (Decidable (∀ mode ∈ (s.threads t).pc.acquires, _ ∧ _))
  | .acquire .. => inferInstanceAs (Decidable True)
  | .release .. => inferInstanceAs (Decidable True)

variable {attempt : Attempt}

section Steps

variable (inv : Inv s)
include inv

/-- The owner acquires the lock once more. -/
theorem again_inv {t : ι} {mode : Mode} (here : (s.threads t).pc = .inside (.acquire mode attempt))
    (taken : s.rwl.numberActive < 0) (mine : s.rwl.owningThread = some t)
    (small : s.rwl.numberActive.natAbs < 2 ^ 31 - 1) :
    Inv (s.set t { s.rwl with numberActive := int32 (s.rwl.numberActive - 1) }
      ⟨.leaving, mode :: (s.threads t).holds⟩) := by
  have owned := inv.owned taken
  obtain ⟨o, owner, number, all⟩ := owned.owner
  obtain rfl : o = t := some.inj (owner.symm.trans mine)
  rw [int32_eq]
  exact owned_inv inv here (by rw [← owner]) owned.ungranted all (by omega) (by omega)

/-- A thread that does not wait goes away. -/
theorem refused_inv {t : ι} {mode : Mode} (here : (s.threads t).pc = .inside (.acquire mode attempt))
    (wait : ¬attempt.fWait = true) : Inv (s.set t s.rwl ⟨.leaving, (s.threads t).holds⟩) := by
  have once : attempt = .once := by
    cases attempt <;> first | rfl | exact absurd rfl wait
  subst once
  refine goto_inv inv here (inv.stays here rfl) nofun fun m => ⟨rfl, ?_⟩
  cases m <;> cases mode <;> rfl

theorem acquireExclusive_inv {t : ι} (here : (s.threads t).pc = .inside (.acquire .exclusive attempt))
    (room : s.blocked .exclusive < 65535) (small : s.rwl.numberActive.natAbs < 2 ^ 31 - 1) :
    Inv (s.run t) := by
  simp only [run, here, acquire, acquireExclusive]
  split_ifs with free again wait
  · have number := (inv.opened (by omega)).number
    have mine := @holds_le_held ι _ s t
    exact owned_inv inv here rfl (by omega) (by omega) (by decide) (by omega)
  · exact again_inv inv here again.1 again.2 small
  · exact wait_exclusive inv here free room
  · exact refused_inv inv here wait

theorem acquireShared_inv {t : ι} (here : (s.threads t).pc = .inside (.acquire .shared attempt))
    (room : s.blocked .shared < 65535) (small : s.rwl.numberActive.natAbs < 2 ^ 31 - 1) :
    Inv (s.run t) := by
  simp only [run, here, acquire, acquireShared]
  split_ifs with taken again wait granted
  · exact again_inv inv here taken again small
  · exact wait_shared inv here taken room
  · exact refused_inv inv here wait
  · rw [int32_eq]
    refine shared_inv inv here (inv.opened taken) (by omega) ?_
    simp [Pc.retries, granted]
  · refine shared_inv inv here (inv.opened taken) inv.small ?_
    rw [not_not.mp granted]
    rfl

theorem run_inv (t : ι) (room : Roomy s (.run t)) : Inv (s.run t) := by
  cases here : (s.threads t).pc with
  | idle =>
    simp only [run, here]
    exact inv
  | entering op =>
    simp only [run, here]
    split
    · next free =>
      refine goto_inv inv here ⟨iff_of_true rfl rfl, fun u other => ?_⟩ ?_ fun _ => ⟨rfl, rfl⟩
      · rw [free]
        exact iff_of_false (fun same => other (some.inj same).symm) nofun
      · exact fun mode same => inv.releases t mode (by rw [here]; exact same)
    · exact inv
  | inside op =>
    cases op with
    | acquire mode attempt =>
      obtain ⟨space, small⟩ := room mode (by rw [here]; rfl)
      cases mode with
      | exclusive => exact acquireExclusive_inv inv here space small
      | shared => exact acquireShared_inv inv here space small
    | release mode =>
      simp only [run, here]
      obtain owned | opened := inv.active
      · exact release_owned inv here owned
      · exact release_open inv here opened
  | leaving =>
    simp only [run, here]
    exact goto_inv inv here (inv.leaves here rfl rfl) nofun fun _ => ⟨rfl, rfl⟩
  | parking mode =>
    simp only [run, here]
    exact goto_inv inv here (inv.leaves here rfl rfl) nofun fun _ => ⟨rfl, rfl⟩
  | waiting mode =>
    simp only [run, here]
    split
    · next signaled => exact woken_inv inv here signaled
    · exact inv

theorem step_inv (action : Action ι) (room : Roomy s action) {s' : State ι}
    (done : s.step action = .ok s') : Inv s' := by
  cases action with
  | acquire t mode fWait =>
    simp only [step] at done
    split at done <;> cases done
    · next idle =>
      refine goto_inv inv idle (inv.stays idle rfl) nofun fun m => ⟨rfl, ?_⟩
      cases fWait <;> cases m <;> cases mode <;> rfl
    · exact inv
  | release t mode =>
    simp only [step] at done
    split at done <;> cases done
    · next possible =>
      obtain ⟨idle, member⟩ := possible
      refine goto_inv inv idle (inv.stays idle rfl) ?_ fun _ => ⟨rfl, rfl⟩
      intro m same
      cases same
      exact member
    · exact inv
  | run t =>
    cases done
    exact run_inv inv t room

end Steps

/-- **Resources.** In every interleaving in which the counters have room, a thread that has the lock
exclusively is alone, the number of active threads is right, and nobody waits for a free lock without a
wake-up. -/
theorem resource_sound (run : Runs State.step Roomy (initializeResource ι) s) : Sound s :=
  (run.invariant Inv initializeResource_inv fun _ action _ inv room done =>
    step_inv inv action room done).sound

/-- The lock is granted to a thread that waits while another one has it exclusively. -/
theorem resource_sound_granted : ∃ s : State (Fin 2), Runs State.step Roomy (initializeResource (Fin 2)) s ∧
    (s.threads 0).holds = [] ∧ (s.threads 1).holds = [.shared] ∧ s.rwl.numberActive = 1 ∧ Sound s := by
  obtain ⟨s, done, first, second, number⟩ := exists_some_of_check
    (x := [.acquire 0 .exclusive true, .run 0, .run 0, .run 0, .acquire 1 .shared true, .run 1, .run 1,
      .run 1, .release 0 .exclusive, .run 0, .run 0, .run 0, .run 1, .run 1, .run 1].foldlM
      (checked step Roomy) (initializeResource (Fin 2)))
    (fun s => (s.threads 0).holds = [] ∧ (s.threads 1).holds = [.shared] ∧ s.rwl.numberActive = 1)
    (by decide)
  have run := runs_of_checked done
  exact ⟨s, run, first, second, number, resource_sound run⟩

end Runs

/-! ### Too many threads -/

section Exhausted

variable {n : Nat}

/-- One thread has the lock exclusively, and of the other ones the first `k` wait to share it. -/
def parked (n k : Nat) : State (Option (Fin n)) where
  rwl := ⟨-1, 0, k, some none, none, 0, 0⟩
  threads
    | none => ⟨.idle, [.exclusive]⟩
    | some i => ⟨if i < k then .waiting .shared else .idle, []⟩

theorem set_set {ι : Type} [DecidableEq ι] {s : State ι} {t : ι} {rwl rwl' : RwLock ι}
    {thread thread' : Thread} : (s.set t rwl thread).set t rwl' thread' = s.set t rwl' thread' := by
  simp [State.set]

theorem own_lock (n : Nat) : runAll step (initializeResource (Option (Fin n)))
    [.acquire none .exclusive true, .run none, .run none, .run none] = .ok (parked n 0) := by
  simp only [runAll, step, run, set_set, set_self, set_rwl, acquire,
    acquireExclusive, Bind.bind, Except.bind, initializeResource, if_true]
  rw [parked, State.set, Except.ok.injEq, State.mk.injEq]
  refine ⟨rfl, ?_⟩
  funext u
  cases u with
  | none => rfl
  | some i => simp

theorem park {k : Nat} (inside : k < n) (small : n < 2 ^ 32) : runAll step (parked n k)
    [.acquire (some ⟨k, inside⟩) .shared true, .run (some ⟨k, inside⟩), .run (some ⟨k, inside⟩),
      .run (some ⟨k, inside⟩)] = .ok (parked n (k + 1)) := by
  have idle : (parked n k).threads (some ⟨k, inside⟩) = ⟨.idle, []⟩ := by simp [parked]
  have rwl : (parked n k).rwl = ⟨-1, 0, k, some none, none, 0, 0⟩ := rfl
  have more : uint32 (k + 1) = k + 1 := Nat.mod_eq_of_lt (by omega)
  simp only [runAll, step, run, idle, rwl, set_set, set_self, set_rwl, acquire,
    acquireShared, Bind.bind, Except.bind, Attempt.fWait, if_true, more, reduceCtorEq,
    some.injEq, if_false, Int.reduceLT, Int.reduceNeg]
  rw [parked, parked, State.set, Except.ok.injEq, State.mk.injEq]
  refine ⟨rfl, ?_⟩
  funext u
  cases u with
  | none => rfl
  | some i =>
    by_cases same : i = ⟨k, inside⟩
    · simp [same]
    · have other : i.val ≠ k := fun equal => same (Fin.ext equal)
      have order : i.val < k ↔ i.val < k + 1 := by omega
      simp [update_of_ne, same, order]

theorem park_all (small : n < 2 ^ 32) {k : Nat} (bound : k ≤ n) :
    ∃ actions, runAll step (initializeResource (Option (Fin n))) actions = .ok (parked n k) := by
  induction k with
  | zero => exact ⟨_, own_lock n⟩
  | succ k ih =>
    obtain ⟨actions, done⟩ := ih (Nat.le_of_succ_le bound)
    refine ⟨actions ++ [.acquire (some ⟨k, bound⟩) .shared true, .run (some ⟨k, bound⟩),
      .run (some ⟨k, bound⟩), .run (some ⟨k, bound⟩)], ?_⟩
    rw [runAll_append, done]
    exact park bound small

/-- Nobody has the lock, and all but one of the threads wait for it. -/
def stranded (n : Nat) : State (Option (Fin n)) where
  rwl := ⟨n, 0, 0, none, none, 0, 0⟩
  threads
    | none => ⟨.idle, []⟩
    | some _ => ⟨.waiting .shared, []⟩

/-- The owner releases the lock while more threads wait than the semaphore can count. -/
theorem release_parked (many : 65535 < n) (small : n < 2 ^ 31) :
    runAll step (parked n n) [.release none .exclusive, .run none, .run none, .run none] =
      .ok (stranded n) := by
  have idle : (parked n n).threads none = ⟨.idle, [.exclusive]⟩ := rfl
  have rwl : (parked n n).rwl = ⟨-1, 0, n, some none, none, 0, 0⟩ := rfl
  have full : releaseSemaphore 0 n = 0 := if_pos (by omega)
  have number : int32 n = n := int32_eq
  have positive : n ≠ 0 := by omega
  simp only [runAll, step, run, idle, rwl, set_set, set_self, set_rwl, RwLock.release,
    Bind.bind, Except.bind, full, number, positive, List.mem_singleton, List.erase_cons_head, and_self,
    if_true, if_false, Int.reduceLT, Int.reduceNeg, Int.reduceAdd, gt_iff_lt, ne_eq, not_true_eq_false,
    not_false_eq_true]
  rw [parked, stranded, State.set, Except.ok.injEq, State.mk.injEq]
  refine ⟨rfl, ?_⟩
  funext u
  cases u with
  | none => rfl
  | some i => simp

theorem strand (many : 65535 < n) (small : n < 2 ^ 31) :
    ∃ actions, runAll step (initializeResource (Option (Fin n))) actions = .ok (stranded n) := by
  obtain ⟨actions, done⟩ := @park_all n (by omega) n le_rfl
  refine ⟨actions ++ [.release none .exclusive, .run none, .run none, .run none], ?_⟩
  rw [runAll_append, done]
  exact release_parked many small

theorem stranded_tally (f : Thread → Nat) (idle : f ⟨.idle, []⟩ = 0)
    (waiting : f ⟨.waiting .shared, []⟩ = 0) : tally f (stranded n).threads = 0 := by
  refine tally_eq_zero.mpr fun t => ?_
  cases t with
  | none => exact idle
  | some i => exact waiting

theorem stranded_not_wakeUp : ¬(stranded n).WakeUp := by
  have retrying : ∀ mode, (stranded n).retrying mode = 0 := fun mode =>
    stranded_tally _ rfl rfl
  rintro (exclusive | shared)
  · rw [retrying] at exclusive
    nomatch exclusive
  · rw [retrying] at shared
    nomatch shared

theorem stranded_not_sound (some : n ≠ 0) : ¬Sound (stranded n) := by
  intro sound
  obtain ⟨t, owner, -⟩ | ⟨-, number⟩ := sound.counts
  · nomatch owner
  · have held : (stranded n).held = 0 := stranded_tally _ rfl rfl
    have retrying : (stranded n).retrying .shared = 0 := stranded_tally _ rfl rfl
    rw [held, retrying] at number
    exact some (Int.ofNat.inj number)

/-- **The semaphore is exhausted.** One thread has the lock exclusively and 65536 others wait to share it.
After its release nobody has the lock, which counts 65536 active threads, and no thread is woken up. -/
theorem semaphore_exhausted : ∃ actions s,
    runAll State.step (initializeResource (Option (Fin 65536))) actions = .ok s ∧
      (∀ i, (s.threads (some i)).pc = .waiting .shared) ∧ (∀ t, (s.threads t).holds = []) ∧
      s.rwl.numberActive = 65536 ∧ ¬ s.WakeUp ∧ ¬ Sound s := by
  obtain ⟨actions, done⟩ := @strand 65536 (by decide) (by decide)
  refine ⟨actions, stranded 65536, done, fun i => rfl, ?_, rfl, stranded_not_wakeUp,
    stranded_not_sound (by decide)⟩
  intro t
  cases t <;> rfl

end Exhausted

end FreeWindows.Rtl.Resource
