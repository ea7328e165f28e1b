/-
**Waiting on addresses.**

`RtlWaitOnAddress`, `RtlWakeAddressSingle` and `RtlWakeAddressAll`. A queue has an entry for every thread
that sleeps, in its stack frame, and is protected by a spin lock. A thread that wakes others takes their
entries out of the queue, and alerts them when it has released the lock. `NtWaitForAlertByThreadId` waits
until the thread is alerted, and resets the alert.

A thread is at some `Place` in these functions, and `Queue.run` is its next step. What is done to the
queue under the lock is one step, and the entry of a thread is marked as taken out (`entry.addr` is NULL)
when it is not in the queue.

* `run_inv`: the queue agrees with the places of the threads, and a thread that sleeps has an entry or is
  going to be alerted;
* `Parked`: the thread cannot be expected to go on by itself. `run_parked`: a thread only parks if it
  found the expected value at the address;
* `scan_wakes`: a search through the queue goes on, has woken up a parked thread, or there is none.
-/

import Mathlib

namespace FreeWindows.Rtl.Futex

open Function List Option

/-! ### The model -/

/-- Where a thread is in `RtlWaitOnAddress`. From `checking` on it is known whether the wait timed
out. -/
inductive WaitPc
  | locking
  | comparing
  | refused
  | adding
  | sleeping
  | checking (timedOut : Bool)
  | relocking (timedOut : Bool)
  | removing (timedOut : Bool)
deriving DecidableEq, Repr

/-- Where a thread is in `RtlWakeAddressSingle` or `RtlWakeAddressAll`, with the threads to alert. -/
inductive WakePc (ι : Type)
  | locking
  | scanning (tids : List ι)
  | alerting (tids : List ι)
deriving DecidableEq, Repr

/-- A thread outside of these functions is `done`. -/
inductive Place (ι α : Type)
  | done
  | waits (addr : α) (pc : WaitPc)
  | wakes (addr : α) (all : Bool) (pc : WakePc ι)
deriving DecidableEq, Repr

/-- `struct futex_queue`, and the alerts of the threads. -/
structure Queue (ι α : Type) where
  lock : Option ι
  entries : List (α × ι)
  alerted : ι → Bool

namespace Queue

variable {ι α : Type} [DecidableEq ι] [DecidableEq α] (q : Queue ι α)

def spinLock (t : ι) (before after : Place ι α) : Queue ι α × Place ι α :=
  if q.lock = none then ({ q with lock := some t }, after) else (q, before)

def spinUnlock : Queue ι α := { q with lock := none }

/-- `NtAlertThreadByThreadId`. -/
def alert (u : ι) : Queue ι α := { q with alerted := update q.alerted u true }

/-- The entry of a thread is taken out of the queue. -/
def remove (addr : α) (u : ι) : Queue ι α := { q with entries := q.entries.erase (addr, u) }

/-- The next step of a thread. The address has the expected value if `equal`. -/
def run (t : ι) (equal : Bool) : Place ι α → Queue ι α × Place ι α
  | .done => (q, .done)
  | .waits addr .locking => q.spinLock t (.waits addr .locking) (.waits addr .comparing)
  | .waits addr .comparing => (q, .waits addr (if equal then .adding else .refused))
  | .waits _ .refused => (q.spinUnlock, .done)
  | .waits addr .adding =>
    ({ q with entries := q.entries ++ [(addr, t)] }.spinUnlock, .waits addr .sleeping)
  | .waits addr .sleeping =>
    if q.alerted t then
      ({ q with alerted := update q.alerted t false }, .waits addr (.checking false))
    else (q, .waits addr .sleeping)
  | .waits addr (.checking timedOut) =>
    if (addr, t) ∈ q.entries then (q, .waits addr (.relocking timedOut)) else (q, .done)
  | .waits addr (.relocking timedOut) =>
    q.spinLock t (.waits addr (.relocking timedOut)) (.waits addr (.removing timedOut))
  | .waits addr (.removing _) => ((q.remove addr t).spinUnlock, .done)
  | .wakes addr all .locking => q.spinLock t (.wakes addr all .locking) (.wakes addr all (.scanning []))
  | .wakes addr all (.scanning tids) =>
    match q.entries.find? (fun entry => entry.1 = addr) with
    | none => (q.spinUnlock, .wakes addr all (.alerting tids))
    | some (_, u) =>
      if all then
        -- the alerts are buffered, as long as there is room
        if tids.length < 256 then (q.remove addr u, .wakes addr all (.scanning (tids ++ [u])))
        else ((q.remove addr u).alert u, .wakes addr all (.scanning tids))
      else ((q.remove addr u).spinUnlock, .wakes addr all (.alerting (tids ++ [u])))
  | .wakes _ _ (.alerting []) => (q, .done)
  | .wakes addr all (.alerting (u :: tids)) => (q.alert u, .wakes addr all (.alerting tids))

end Queue

/-- `NtWaitForAlertByThreadId` times out. -/
def Place.timeout {ι α : Type} : Place ι α → Place ι α
  | .waits addr .sleeping => .waits addr (.checking true)
  | place => place

/-! ### The queue and the threads -/

namespace Place

variable {ι α : Type}

/-- The thread has the spin lock. -/
def locks : Place ι α → Bool
  | waits _ .comparing | waits _ .refused | waits _ .adding | waits _ (.removing _) => true
  | wakes _ _ (.scanning _) => true
  | _ => false

/-- The address for which the thread can be in the queue. -/
def entryAt : Place ι α → Option α
  | waits addr .sleeping | waits addr (.checking _) | waits addr (.relocking _)
  | waits addr (.removing _) => some addr
  | _ => none

/-- The threads that it is going to alert. -/
def tids : Place ι α → List ι
  | wakes _ _ (.scanning tids) | wakes _ _ (.alerting tids) => tids
  | _ => []

/-- The thread is going to search the queue for an address. -/
def scans (all : Bool) (addr : α) (place : Place ι α) : Prop :=
  place = .wakes addr all .locking ∨ ∃ tids, place = .wakes addr all (.scanning tids)

end Place

section Invariant

variable {ι α : Type}

/-- A thread that sleeps is going to be alerted. -/
def Alerted (q : Queue ι α) (place : ι → Place ι α) (t : ι) : Prop :=
  q.alerted t = true ∨ ∃ u, t ∈ (place u).tids

structure Inv (q : Queue ι α) (place : ι → Place ι α) : Prop where
  locked : ∀ t, q.lock = some t ↔ (place t).locks = true
  queued : ∀ addr t, (addr, t) ∈ q.entries → (place t).entryAt = some addr
  nodup : q.entries.Nodup
  alerts : ∀ addr t, place t = .waits addr .sleeping → (addr, t) ∈ q.entries ∨ Alerted q place t

variable {q q' : Queue ι α} {place : ι → Place ι α} {t : ι} {p : Place ι α} {addr : α} {u : ι}

theorem Inv.ne (inv : Inv q place) (none : (place t).entryAt = none) (entry : (addr, u) ∈ q.entries) :
    u ≠ t := by
  rintro rfl
  rw [inv.queued addr u entry] at none
  nomatch none

variable [DecidableEq ι]

/-- What a step of one thread has to keep. The lock is as before, or the thread takes or releases it. -/
structure Step (q q' : Queue ι α) (place : ι → Place ι α) (t : ι) (p : Place ι α) : Prop where
  lock : (q'.lock = q.lock ∧ p.locks = (place t).locks) ∨
    (q.lock = none ∧ q'.lock = some t ∧ p.locks = true) ∨
    ((place t).locks = true ∧ q'.lock = none ∧ p.locks = false)
  entries : ∀ addr u, (addr, u) ∈ q'.entries →
    (u ≠ t ∧ (addr, u) ∈ q.entries) ∨ (u = t ∧ p.entryAt = some addr)
  nodup : q'.entries.Nodup
  kept : ∀ addr u, u ≠ t → (addr, u) ∈ q.entries →
    (addr, u) ∈ q'.entries ∨ q'.alerted u = true ∨ u ∈ p.tids
  flags : ∀ u, u ≠ t → q.alerted u = true → q'.alerted u = true
  handed : ∀ u, u ∈ (place t).tids → q'.alerted u = true ∨ u ∈ p.tids
  sleeps : ∀ addr, p = .waits addr .sleeping →
    (addr, t) ∈ q'.entries ∨ (place t = p ∧ q'.alerted = q.alerted ∧ q'.entries = q.entries)

theorem Step.locked (step : Step q q' place t p) (inv : Inv q place) (u : ι) :
    q'.lock = some u ↔ (update place t p u).locks = true := by
  by_cases same : u = t
  · subst same
    rw [update_self]
    obtain ⟨equal, locks⟩ | ⟨-, taken, locks⟩ | ⟨-, free, locks⟩ := step.lock
    · rw [equal, locks]
      exact inv.locked u
    · exact iff_of_true taken locks
    · rw [free, locks]
      exact ⟨nofun, nofun⟩
  · rw [update_of_ne same, ← inv.locked u]
    obtain ⟨equal, -⟩ | ⟨free, taken, -⟩ | ⟨mine, free, -⟩ := step.lock
    · rw [equal]
    · rw [free, taken]
      exact iff_of_false (fun equal => same (some.inj equal).symm) nofun
    · rw [free, (inv.locked t).mpr mine]
      exact iff_of_false nofun fun equal => same (some.inj equal).symm

theorem Step.alerts (step : Step q q' place t p) (inv : Inv q place) (addr : α) (u : ι)
    (sleeping : update place t p u = .waits addr .sleeping) :
    (addr, u) ∈ q'.entries ∨ Alerted q' (update place t p) u := by
  have tids : ∀ v, u ∈ (place v).tids → q'.alerted u = true ∨ ∃ w, u ∈ (update place t p w).tids := by
    intro v member
    by_cases same : v = t
    · exact (step.handed u (same ▸ member)).imp_right fun mine => ⟨t, by rwa [update_self]⟩
    · exact .inr ⟨v, by rwa [update_of_ne same]⟩
  by_cases same : u = t
  · subst same
    rw [update_self] at sleeping
    obtain entry | ⟨unmoved, flags, entries⟩ := step.sleeps addr sleeping
    · exact .inl entry
    · rw [entries]
      obtain entry | alerted | ⟨v, member⟩ := inv.alerts addr u (unmoved.trans sleeping)
      · exact .inl entry
      · exact .inr (.inl (flags ▸ alerted))
      · exact .inr (tids v member)
  · rw [update_of_ne same] at sleeping
    obtain entry | alerted | ⟨v, member⟩ := inv.alerts addr u sleeping
    · obtain entry | alerted | mine := step.kept addr u same entry
      · exact .inl entry
      · exact .inr (.inl alerted)
      · exact .inr (.inr ⟨t, by rwa [update_self]⟩)
    · exact .inr (.inl (step.flags u same alerted))
    · exact .inr (tids v member)

theorem Inv.step (inv : Inv q place) (step : Step q q' place t p) : Inv q' (update place t p) where
  locked := step.locked inv
  queued addr u entry := by
    obtain ⟨other, before⟩ | ⟨rfl, mine⟩ := step.entries addr u entry
    · rw [update_of_ne other]
      exact inv.queued addr u before
    · rw [update_self]
      exact mine
  nodup := step.nodup
  alerts := step.alerts inv

theorem Inv.stay (inv : Inv q place) (entryAt : p.entryAt = (place t).entryAt) (addr : α) (u : ι)
    (entry : (addr, u) ∈ q.entries) : u ≠ t ∧ (addr, u) ∈ q.entries ∨ u = t ∧ p.entryAt = some addr := by
  by_cases same : u = t
  · subst same
    exact .inr ⟨rfl, entryAt.trans (inv.queued addr u entry)⟩
  · exact .inl ⟨same, entry⟩

variable {before : Place ι α}

section Moves

variable (inv : Inv q place) (here : place t = before)
include inv here

/-- The queue is left alone. -/
theorem Inv.move (locks : p.locks = before.locks := by rfl) (entryAt : p.entryAt = before.entryAt := by rfl)
    (tids : p.tids = before.tids := by rfl) (awake : ∀ addr, p ≠ .waits addr .sleeping := by nofun) :
    Inv q (update place t p) := by
  subst here
  refine inv.step ⟨.inl ⟨rfl, locks⟩, inv.stay entryAt, inv.nodup, fun _ _ _ => .inl, fun _ _ => id, ?_, ?_⟩
  · exact fun u member => .inr (tids ▸ member)
  · exact fun addr asleep => absurd asleep (awake addr)

theorem spinLock_inv {after : Place ι α} (locks : after.locks = true := by rfl)
    (entryAt : after.entryAt = before.entryAt := by rfl) (tids : after.tids = before.tids := by rfl)
    (awake : ∀ addr, before ≠ .waits addr .sleeping ∧ after ≠ .waits addr .sleeping :=
      by exact fun _ => ⟨nofun, nofun⟩) :
    Inv (q.spinLock t before after).1 (update place t (q.spinLock t before after).2) := by
  subst here
  unfold Queue.spinLock
  split
  · next free =>
    refine inv.step ⟨.inr (.inl ⟨free, rfl, locks⟩), inv.stay entryAt, inv.nodup, fun _ _ _ => .inl,
      fun _ _ => id, ?_, ?_⟩
    · exact fun u member => .inr (tids ▸ member)
    · exact fun addr asleep => absurd asleep (awake addr).2
  · rw [update_eq_self]
    exact inv

/-- The thread releases the lock and is done, without an entry. -/
theorem Inv.leave {entries : List (α × ι)} (mine : before.locks = true) (nobody : before.tids = [])
    (others : ∀ addr u, (addr, u) ∈ entries ↔ u ≠ t ∧ (addr, u) ∈ q.entries) (nodup : entries.Nodup) :
    Inv { q with lock := none, entries := entries } (update place t .done) := by
  subst here
  refine inv.step ⟨.inr (.inr ⟨mine, rfl, rfl⟩), ?_, nodup, ?_, fun _ _ => id, ?_, nofun⟩
  · exact fun addr u entry => .inl ((others addr u).mp entry)
  · exact fun addr u other entry => .inl ((others addr u).mpr ⟨other, entry⟩)
  · rw [nobody]
    nofun

end Moves

theorem alert_mono (v : ι) (flag : q.alerted v = true) : (q.alert u).alerted v = true := by
  show update q.alerted u true v = true
  rw [update_apply]
  split
  · rfl
  · exact flag

theorem timeout_inv (inv : Inv q place) (t : ι) : Inv q (update place t (place t).timeout) := by
  unfold Place.timeout
  split
  · next here => exact inv.move here
  · rw [update_eq_self]
    exact inv

variable [DecidableEq α]

/-- A thread that holds the lock takes the entry of another thread out of the queue. -/
theorem Inv.take (inv : Inv q place) (here : place t = before) (none : before.entryAt = none)
    (lock : (q'.lock = q.lock ∧ p.locks = before.locks) ∨
      (before.locks = true ∧ q'.lock = .none ∧ p.locks = false))
    (entries : q'.entries = q.entries.erase (addr, u))
    (flags : ∀ v, q.alerted v = true → q'.alerted v = true) (woken : q'.alerted u = true ∨ u ∈ p.tids)
    (tids : ∀ v, v ∈ before.tids → v ∈ p.tids) (awake : ∀ a, p ≠ .waits a .sleeping) :
    Inv q' (update place t p) := by
  subst here
  refine inv.step ⟨?_, ?_, ?_, ?_, fun v _ => flags v, fun v member => .inr (tids v member), ?_⟩
  · exact lock.imp_right .inr
  · intro a v member
    rw [entries] at member
    have before := mem_of_mem_erase member
    exact .inl ⟨inv.ne none before, before⟩
  · rw [entries]
    exact inv.nodup.erase _
  · intro a v _ member
    by_cases same : (a, v) = (addr, u)
    · cases same
      exact .inr woken
    · exact .inl (entries ▸ (mem_erase_of_ne same).mpr member)
  · exact fun a asleep => absurd asleep (awake a)

/-- **The queue.** A step of a thread keeps it right. -/
theorem run_inv (inv : Inv q place) (t : ι) (equal : Bool) :
    Inv (q.run t equal (place t)).1 (update place t (q.run t equal (place t)).2) := by
  cases here : place t with
  | done =>
    simp only [Queue.run]
    rw [← here, update_eq_self]
    exact inv
  | waits addr pc =>
    have others : (place t).entryAt = none → ∀ a u, (a, u) ∈ q.entries → u ≠ t := fun none _ _ => inv.ne none
    rw [here] at others
    cases pc with
    | locking => exact spinLock_inv inv here
    | comparing =>
      cases equal
      · exact inv.move here
      · exact inv.move here
    | refused =>
      refine inv.leave here rfl rfl (fun a u => ?_) inv.nodup
      exact ⟨fun entry => ⟨others rfl a u entry, entry⟩, And.right⟩
    | adding =>
      refine inv.step ⟨.inr (.inr ⟨by rw [here]; rfl, rfl, rfl⟩), ?_, ?_, ?_, fun _ _ => id, ?_, ?_⟩
      · intro a u entry
        obtain before | new := mem_append.mp entry
        · exact .inl ⟨others rfl a u before, before⟩
        · cases mem_singleton.mp new
          exact .inr ⟨rfl, rfl⟩
      · exact inv.nodup.append (nodup_singleton _) (by simpa using fun entry => others rfl addr t entry rfl)
      · exact fun a u _ entry => .inl (mem_append_left _ entry)
      · rw [here]
        nofun
      · intro a same
        cases same
        exact .inl (mem_append_right _ (mem_singleton_self _))
    | sleeping =>
      simp only [Queue.run]
      split
      · next alerted =>
        refine inv.step ⟨.inl ⟨rfl, by rw [here]; rfl⟩, inv.stay (by rw [here]; rfl), inv.nodup,
          fun _ _ _ => .inl, ?_, ?_, nofun⟩
        · intro u other flag
          show update q.alerted t false u = true
          rw [update_of_ne other]
          exact flag
        · rw [here]
          nofun
      · rw [← here, update_eq_self]
        exact inv
    | checking timedOut =>
      simp only [Queue.run]
      split
      · exact inv.move here
      · next removed =>
        refine inv.step ⟨.inl ⟨rfl, by rw [here]; rfl⟩, ?_, inv.nodup, fun _ _ _ => .inl, fun _ _ => id, ?_,
          nofun⟩
        · intro a u entry
          refine .inl ⟨?_, entry⟩
          rintro rfl
          have own := inv.queued a u entry
          rw [here] at own
          cases own
          exact removed entry
        · rw [here]
          nofun
    | relocking timedOut => exact spinLock_inv inv here
    | removing timedOut =>
      refine inv.leave here rfl rfl (fun a u => ?_) (inv.nodup.erase _)
      show (a, u) ∈ q.entries.erase (addr, t) ↔ _
      rw [inv.nodup.mem_erase_iff]
      refine and_congr_left fun entry => not_congr ⟨fun same => congrArg Prod.snd same, ?_⟩
      rintro rfl
      have own := inv.queued a u entry
      rw [here] at own
      cases own
      rfl
  | wakes addr all pc =>
    cases pc with
    | locking => exact spinLock_inv inv here
    | scanning tids =>
      simp only [Queue.run]
      split
      · refine inv.step ⟨.inr (.inr ⟨by rw [here]; rfl, rfl, rfl⟩),
          fun _ _ entry => .inl ⟨inv.ne (by rw [here]; rfl) entry, entry⟩, inv.nodup, fun _ _ _ => .inl,
          fun _ _ => id, ?_, nofun⟩
        rw [here]
        exact fun u member => .inr member
      · next found u first =>
        split_ifs
        · refine inv.take here rfl (.inl ⟨rfl, rfl⟩) rfl (fun _ => id)
            (.inr (by simp [Place.tids])) ?_ nofun
          exact fun v member => mem_append_left _ member
        · refine inv.take here rfl (.inl ⟨rfl, rfl⟩) rfl (fun v => alert_mono v)
            (.inl (update_self ..)) ?_ nofun
          exact fun v member => member
        · refine inv.take here rfl (.inr ⟨rfl, rfl, rfl⟩) rfl (fun _ => id)
            (.inr (by simp [Place.tids])) ?_ nofun
          exact fun v member => mem_append_left _ member
    | alerting tids =>
      cases tids with
      | nil => exact inv.move here
      | cons u tids =>
        refine inv.step ⟨.inl ⟨rfl, by rw [here]; rfl⟩,
          fun _ _ entry => .inl ⟨inv.ne (by rw [here]; rfl) entry, entry⟩, inv.nodup, fun _ _ _ => .inl,
          fun v _ => alert_mono v, ?_, nofun⟩
        rw [here]
        intro v member
        obtain rfl | member := mem_cons.mp member
        · exact .inl (update_self ..)
        · exact .inr member

end Invariant

/-! ### Parked threads -/

section Parked

variable {ι α : Type} {q q' : Queue ι α} {place : ι → Place ι α} {t u : ι} {addr : α}

/-- The thread sleeps, or is about to, and only a search for its address can change that. -/
def Parked (q : Queue ι α) (place : ι → Place ι α) (addr : α) (t : ι) : Prop :=
  place t = .waits addr .adding ∨ (place t = .waits addr .sleeping ∧ (addr, t) ∈ q.entries)

variable [DecidableEq ι] {equal all : Bool} {p : Place ι α} {v : ι} {waiter : ι → Prop}

/-- What is known about the threads that wait at an address: some thread is going to search for it, or one
of those that wait is not parked. -/
def Pending (q : Queue ι α) (place : ι → Place ι α) (addr : α) (waiter : ι → Prop) : Prop :=
  (∃ v all, (place v).scans all addr) ∨ ∃ w, waiter w ∧ ¬Parked q place addr w

/-- A search by another thread goes on. -/
theorem scans_other (other : v ≠ t) (scans : (place v).scans all addr) :
    (update place t p v).scans all addr := by
  rwa [update_of_ne other]

/-! ### Steps outside -/

/-- Outside, or at the start of one of the functions. -/
def Place.Early (place : Place ι α) : Prop :=
  place = .done ∨ (∃ addr, place = .waits addr .locking) ∨
    ∃ addr all, place = .wakes addr all .locking

/-- A thread outside goes on, or calls one of the functions. -/
theorem Inv.start (inv : Inv q place) (here : place t = .done) (early : p.Early) :
    Inv q (update place t p) := by
  obtain rfl | ⟨a, rfl⟩ | ⟨a, all, rfl⟩ := early
  · rw [← here, update_eq_self]
    exact inv
  · exact inv.move here
  · exact inv.move here

theorem parked_start (here : place t = .done) (early : p.Early) :
    Parked q (update place t p) addr u ↔ Parked q place addr u := by
  by_cases same : u = t
  · subst same
    unfold Parked
    rw [update_self, here]
    obtain rfl | ⟨a, rfl⟩ | ⟨a, all, rfl⟩ := early <;> simp
  · unfold Parked
    rw [update_of_ne same]

theorem unparked_start (here : place t = .done) (early : p.Early) :
    ¬Parked q (update place t p) addr t := by
  rw [parked_start here early, Parked, here]
  rintro (⟨⟨⟩⟩ | ⟨⟨⟩, -⟩)

theorem scans_start (here : place t = .done) (scans : (place v).scans all addr) :
    (update place t p v).scans all addr := by
  refine scans_other ?_ scans
  rintro rfl
  rw [here] at scans
  obtain ⟨⟨⟩⟩ | ⟨_, ⟨⟩⟩ := scans

theorem pending_start {waiter' : ι → Prop} (here : place t = .done) (early : p.Early)
    (still : ∀ w, waiter w → waiter' w) (pending : Pending q place addr waiter) :
    Pending q (update place t p) addr waiter' := by
  obtain ⟨v, all, scans⟩ | ⟨w, waits, unparked⟩ := pending
  · exact .inl ⟨v, all, scans_start here scans⟩
  · exact .inr ⟨w, still w waits, fun parked => unparked ((parked_start here early).mp parked)⟩

/-! ### Timeouts -/

theorem timeout_pending (pending : Pending q place addr waiter) :
    Pending q (update place t (place t).timeout) addr waiter := by
  obtain ⟨v, all, scans⟩ | ⟨w, waits, unparked⟩ := pending
  · refine .inl ⟨v, all, ?_⟩
    by_cases same : v = t
    · subst same
      rw [update_self]
      obtain locking | ⟨tids, scanning⟩ := scans
      · rw [locking]
        exact .inl rfl
      · rw [scanning]
        exact .inr ⟨tids, rfl⟩
    · exact scans_other same scans
  · refine .inr ⟨w, waits, fun parked => unparked ?_⟩
    unfold Parked at parked ⊢
    by_cases same : w = t
    · subst same
      rw [update_self] at parked
      unfold Place.timeout at parked
      split at parked
      · obtain ⟨⟨⟩⟩ | ⟨⟨⟩, -⟩ := parked
      · exact parked
    · rwa [update_of_ne same] at parked

/-! ### Steps inside -/

variable [DecidableEq α]

/-- A thread stays in the function that it is in until it returns. -/
theorem run_waits (q : Queue ι α) (t : ι) (equal : Bool) (addr : α) (pc : WaitPc) :
    ∃ q', q.run t equal (.waits addr pc) = (q', .done) ∨
      ∃ p, q.run t equal (.waits addr pc) = (q', .waits addr p) := by
  refine ⟨(q.run t equal (.waits addr pc)).1, ?_⟩
  cases pc <;> grind [Queue.run, Queue.spinLock]

theorem run_wakes (q : Queue ι α) (t : ι) (equal : Bool) (addr : α) (all : Bool) (pc : WakePc ι) :
    ∃ q', q.run t equal (.wakes addr all pc) = (q', .done) ∨
      ∃ p, q.run t equal (.wakes addr all pc) = (q', .wakes addr all p) := by
  refine ⟨(q.run t equal (.wakes addr all pc)).1, ?_⟩
  cases pc with
  | alerting tids => cases tids <;> grind [Queue.run]
  | _ => grind [Queue.run, Queue.spinLock]

/-- A step adds no entry for another thread. -/
theorem run_entries (other : u ≠ t) (entry : (addr, u) ∈ (q.run t equal p).1.entries) :
    (addr, u) ∈ q.entries := by
  cases p with
  | done => exact entry
  | waits a pc =>
    cases pc <;> grind [Queue.run, Queue.spinLock, Queue.spinUnlock, Queue.remove]
  | wakes a all pc =>
    cases pc with
    | locking => grind [Queue.run, Queue.spinLock]
    | scanning tids => grind [Queue.run, Queue.spinUnlock, Queue.remove, Queue.alert]
    | alerting tids => cases tids <;> exact entry

theorem run_adding (adding : (q.run t equal p).2 = .waits addr .adding) :
    p = .waits addr .comparing ∧ equal = true := by
  cases p with
  | done => nomatch adding
  | waits a pc => cases pc <;> grind [Queue.run, Queue.spinLock]
  | wakes a all pc =>
    cases pc with
    | alerting tids => cases tids <;> nomatch adding
    | _ => grind [Queue.run, Queue.spinLock]

theorem run_sleeping (sleeping : (q.run t equal p).2 = .waits addr .sleeping) :
    p = .waits addr .adding ∨ (p = .waits addr .sleeping ∧ (q.run t equal p).1 = q) := by
  cases p with
  | done => nomatch sleeping
  | waits a pc => cases pc <;> grind [Queue.run, Queue.spinLock]
  | wakes a all pc =>
    cases pc with
    | alerting tids => cases tids <;> nomatch sleeping
    | _ => grind [Queue.run, Queue.spinLock]

/-- A thread only parks if it finds the expected value at the address. -/
theorem run_parked
    (parked : Parked (q.run t equal (place t)).1 (update place t (q.run t equal (place t)).2) addr u) :
    Parked q place addr u ∨ (u = t ∧ place t = .waits addr .comparing ∧ equal = true) := by
  by_cases same : u = t
  · subst same
    unfold Parked at parked
    rw [update_self] at parked
    obtain adding | ⟨sleeping, entry⟩ := parked
    · exact .inr ⟨rfl, run_adding adding⟩
    · obtain adding | ⟨before, unchanged⟩ := run_sleeping sleeping
      · exact .inl (.inl adding)
      · exact .inl (.inr ⟨before, unchanged ▸ entry⟩)
  · unfold Parked at parked
    rw [update_of_ne same] at parked
    exact .inl (parked.imp_right fun ⟨sleeping, entry⟩ => ⟨sleeping, run_entries same entry⟩)

/-- **Wake-ups.** A search for an address goes on, or it has found a thread, or nobody is parked there. One
that is for all threads does not stop before. -/
theorem scan_wakes (equal : Bool) (inv : Inv q place) (scans : (place t).scans all addr) :
    ((update place t (q.run t equal (place t)).2) t).scans all addr ∨
    (all = false ∧ ∃ u, u ≠ t ∧ (place u).entryAt = some addr ∧
      ¬Parked (q.run t equal (place t)).1 (update place t (q.run t equal (place t)).2) addr u) ∨
    ∀ u, ¬Parked (q.run t equal (place t)).1 (update place t (q.run t equal (place t)).2) addr u := by
  rw [update_self]
  obtain here | ⟨tids, here⟩ := scans
  · rw [here]
    refine .inl ?_
    simp only [Queue.run, Queue.spinLock]
    split
    · exact .inr ⟨[], rfl⟩
    · exact .inl rfl
  · rw [here]
    simp only [Queue.run]
    split
    · next none =>
      -- the thread has the lock, so no other one is about to add its entry
      refine .inr (.inr fun u parked => ?_)
      have mine : q.lock = some t := (inv.locked t).mpr (by rw [here]; rfl)
      have different : u ≠ t := by
        rintro rfl
        unfold Parked at parked
        rw [update_self] at parked
        obtain ⟨⟨⟩⟩ | ⟨⟨⟩, -⟩ := parked
      unfold Parked at parked
      rw [update_of_ne different] at parked
      obtain adding | ⟨-, entry⟩ := parked
      · have also : q.lock = some u := (inv.locked u).mpr (by rw [adding]; rfl)
        exact different (some.inj (also.symm.trans mine))
      · exact find?_eq_none.mp none (addr, u) entry (decide_eq_true rfl)
    · next found u first =>
      obtain rfl : found = addr := by simpa using find?_some first
      have entry := mem_of_find?_eq_some first
      have different : u ≠ t := inv.ne (by rw [here]; rfl) entry
      split_ifs with many room
      · exact .inl (.inr ⟨_, rfl⟩)
      · exact .inl (.inr ⟨_, rfl⟩)
      · refine .inr (.inl ⟨by simpa using many, u, different, inv.queued found u entry, fun parked => ?_⟩)
        unfold Parked at parked
        rw [update_of_ne different] at parked
        obtain adding | ⟨-, again⟩ := parked
        · have entryAt := inv.queued found u entry
          rw [adding] at entryAt
          nomatch entryAt
        · exact ((inv.nodup.mem_erase_iff).mp again).1 rfl

theorem run_pending (inv : Inv q place) (some : ∃ w, waiter w)
    (entries : ∀ u, (place u).entryAt = .some addr → waiter u)
    (fresh : ¬(place t = .waits addr .comparing ∧ equal = true))
    (pending : Pending q place addr waiter) :
    Pending (q.run t equal (place t)).1 (update place t (q.run t equal (place t)).2) addr waiter := by
  obtain ⟨v, all, scans⟩ | ⟨w, waits, unparked⟩ := pending
  · by_cases same : v = t
    · subst same
      obtain again | ⟨-, u, -, entry, woken⟩ | nobody := scan_wakes equal inv scans
      · exact .inl ⟨v, all, again⟩
      · exact .inr ⟨u, entries u entry, woken⟩
      · obtain ⟨w, waits⟩ := some
        exact .inr ⟨w, waits, nobody w⟩
    · exact .inl ⟨v, all, scans_other same scans⟩
  · refine .inr ⟨w, waits, fun parked => ?_⟩
    obtain before | ⟨-, new⟩ := run_parked parked
    · exact unparked before
    · exact fresh new

/-- A search for all threads at an address goes on as long as one is parked there. -/
theorem run_scans_all (inv : Inv q place) (fresh : ¬(place t = .waits addr .comparing ∧ equal = true))
    (before : ∀ u, Parked q place addr u → ∃ v, (place v).scans true addr) (u : ι)
    (parked : Parked (q.run t equal (place t)).1 (update place t (q.run t equal (place t)).2) addr u) :
    ∃ v, (update place t (q.run t equal (place t)).2 v).scans true addr := by
  obtain already | ⟨-, new⟩ := run_parked parked
  · obtain ⟨v, scans⟩ := before u already
    by_cases same : v = t
    · subst same
      obtain again | ⟨single, -⟩ | nobody := scan_wakes equal inv scans
      · exact ⟨v, again⟩
      · nomatch single
      · exact absurd parked (nobody u)
    · exact ⟨v, scans_other same scans⟩
  · exact absurd new fresh

end Parked

end FreeWindows.Rtl.Futex
