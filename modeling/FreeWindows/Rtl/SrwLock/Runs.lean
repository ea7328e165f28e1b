/-
**Runs of a slim reader/writer lock.**

`srwLock_sound`: in every interleaving with fewer than `2^15` threads that wait for the lock exclusively
and fewer than `2^16` owners, a thread that has the lock exclusively is alone, and a lock that a waiting
thread could have does not leave all of them asleep without a wake-up.
-/

import FreeWindows.Lib.Run
import FreeWindows.Rtl.SrwLock.Counts

namespace FreeWindows.Rtl.SrwLock

open Lib Futex List State

variable {mode : Mode}

section Steps

variable {ι : Type} [Fintype ι] [DecidableEq ι] {s : State ι} {t : ι} (inv : Inv s)
include inv

theorem run_waiting {cmp : Word} {pc : WaitPc} (here : (s.threads t).pc = .waiting mode cmp pc) :
    Inv (s.run t) := by
  have place : s.place t = .waits mode.addr pc := congrArg Pc.place here
  have refuses := inv.expects t mode cmp pc here
  have compares : ∀ m : Mode, Place.waits mode.addr pc = (.waits m.addr .comparing : Place ι Addr) →
      s.word.same cmp mode = true → s.word.grants m = false := by
    intro m comparing same
    have : mode = m := by cases m <;> cases mode <;> first | rfl | nomatch comparing
    subst this
    exact (grants_of_same same).trans refuses
  simp only [run, here]
  obtain ⟨queue, done | ⟨p, waits⟩⟩ := run_waits s.queue t (s.word.same cmp mode) mode.addr pc
  · rw [done]
    exact inv.futex place done (by rw [here]; rfl) trivial compares
  · rw [waits]
    exact inv.futex place waits (by rw [here]; rfl) refuses compares

theorem run_waking {addr : Addr} {all : Bool} {pc : WakePc ι}
    (here : (s.threads t).pc = .waking addr all pc) : Inv (s.run t) := by
  have place : s.place t = .wakes addr all pc := congrArg Pc.place here
  simp only [run, here]
  obtain ⟨queue, done | ⟨p, wakes⟩⟩ := run_wakes s.queue t false addr all pc
  · rw [done]
    exact inv.futex place done (by rw [here]; rfl) trivial nofun
  · rw [wakes]
    exact inv.futex place wakes (by rw [here]; rfl) trivial nofun

/-- The thread has announced that it waits. -/
theorem announced_inv (here : (s.threads t).pc = .announcing)
    (bounded : (s.next t s.word.announce s.queue (.reading .exclusive) (s.threads t).holds).Bounded) :
    Inv (s.next t s.word.announce s.queue (.reading .exclusive) (s.threads t).holds) := by
  obtain ⟨owners, waiters, alone⟩ := inv.counted
  obtain ⟨held, more⟩ := next_counts s t s.word.announce s.queue (.reading .exclusive) (s.threads t).holds
  have exclusive := Nat.add_right_cancel (held .exclusive)
  have shared := Nat.add_right_cancel (held .shared)
  have few := bounded.1
  rw [here] at more
  change _ + 0 = s.waiters + 1 at more
  have number : s.word.announce.exclusiveWaiters = s.word.exclusiveWaiters + 2 := by
    simp only [Word.announce]
    omega
  have same : s.word.announce.owners = s.word.owners := rfl
  refine inv.outside (congrArg Pc.place here) (.inl rfl) ⟨?_, ?_, ?_⟩ trivial
    (fun _ _ => .inr (.inr rfl)) ?_
  · omega
  · omega
  · omega
  · omega

variable {old : Word}

theorem run_exchanging (bounded : (s.run t).Bounded) (here : (s.threads t).pc = .exchanging mode old) :
    Inv (s.run t) := by
  have place : s.place t = .done := congrArg Pc.place here
  simp only [run, here] at bounded ⊢
  split_ifs at bounded ⊢ with unchanged grants
  · subst unchanged
    cases mode with
    | exclusive =>
      exact acquired_exclusive inv place (of_decide_eq_true grants) (.inl ⟨rfl, by rw [here]; rfl⟩) bounded
    | shared => exact acquired_shared inv place (of_decide_eq_true grants) rfl bounded
  · exact goto_inv inv here (Bool.eq_false_iff.mpr grants) rfl (.inr (.inl ⟨_, rfl⟩))
  · exact goto_inv inv here trivial

theorem run_tryExchanging (bounded : (s.run t).Bounded)
    (here : (s.threads t).pc = .tryExchanging mode old) : Inv (s.run t) := by
  have place : s.place t = .done := congrArg Pc.place here
  simp only [run, here] at bounded ⊢
  split_ifs at bounded ⊢ with unchanged grants
  · subst unchanged
    cases mode with
    | exclusive =>
      exact acquired_exclusive inv place (of_decide_eq_true grants) (.inr ⟨rfl, by rw [here]; rfl⟩) bounded
    | shared => exact acquired_shared inv place (of_decide_eq_true grants) rfl bounded
  · exact goto_inv inv here trivial
  · exact goto_inv inv here trivial

theorem run_releaseExchanging (bounded : s.Bounded)
    (here : (s.threads t).pc = .releaseExchanging mode old) : Inv (s.run t) := by
  have place : s.place t = .done := congrArg Pc.place here
  have holds := inv.releases t mode (by rw [here]; rfl)
  simp only [run, here]
  split_ifs with unchanged
  · subst unchanged
    cases mode with
    | exclusive => exact released_exclusive inv place holds (by rw [here]; rfl) rfl
    | shared => exact released_shared inv place holds (by rw [here]; rfl) rfl bounded
  · exact goto_inv inv here holds

theorem run_inv (bounded : s.Bounded) (t : ι) (after : (s.run t).Bounded) : Inv (s.run t) := by
  cases here : (s.threads t).pc with
  | idle =>
    simp only [run, here]
    exact inv
  | announcing =>
    simp only [run, here] at after ⊢
    exact announced_inv inv here after
  | reading mode =>
    simp only [run, here]
    exact goto_inv inv here trivial
  | exchanging mode old => exact run_exchanging inv after here
  | waiting mode cmp pc => exact run_waiting inv here
  | tryReading mode =>
    simp only [run, here]
    exact goto_inv inv here trivial
  | tryExchanging mode old => exact run_tryExchanging inv after here
  | releasing mode =>
    simp only [run, here]
    exact goto_inv inv here (inv.releases t mode (by rw [here]; rfl))
  | releaseExchanging mode old => exact run_releaseExchanging inv bounded here
  | waking addr all pc => exact run_waking inv here

theorem step_inv (bounded : s.Bounded) (action : Action ι) {s' : State ι}
    (done : s.step action = .ok s') (after : s'.Bounded) : Inv s' := by
  cases action with
  | acquire t mode =>
    simp only [step] at done
    split at done <;> cases done
    · next idle => cases mode <;> exact goto_inv inv idle trivial
    · exact inv
  | tryAcquire t mode =>
    simp only [step] at done
    split at done <;> cases done
    · next idle => exact goto_inv inv idle trivial
    · exact inv
  | release t mode =>
    simp only [step] at done
    split at done <;> cases done
    · next possible => exact goto_inv inv possible.1 possible.2
    · exact inv
  | run t =>
    cases done
    exact run_inv inv bounded t after

end Steps

/-! ### What holds in every interleaving -/

section Sound

variable {ι : Type} [Fintype ι] {s : State ι}

/-- The thread does not sleep, is going to be alerted, or has an entry that some thread is going to search
for. -/
def State.Roused (s : State ι) (mode : Mode) (t : ι) : Prop :=
  (∀ addr, s.place t ≠ .waits addr .sleeping) ∨ Alerted s.queue s.place t ∨
    ((mode.addr, t) ∈ s.queue.entries ∧ ∃ v all, (s.place v).scans all mode.addr)

structure Sound (s : State ι) : Prop where
  excludes : ∀ t u, .exclusive ∈ (s.threads t).holds → u ≠ t → (s.threads u).holds = []
  wakes : ∀ t mode, s.Awaits mode t → s.word.grants mode = true → ∃ u, s.Awaits mode u ∧ s.Roused mode u

theorem Inv.parked_or_roused {t : ι} (inv : Inv s) (awaits : s.Awaits mode t) :
    (Parked s.queue s.place mode.addr t ∧ (mode.addr, t) ∈ s.queue.entries) ∨ s.Roused mode t := by
  by_cases asleep : ∃ addr, s.place t = .waits addr .sleeping
  · obtain ⟨addr, sleeping⟩ := asleep
    obtain rfl : addr = mode.addr := by
      unfold place at sleeping
      unfold State.Awaits at awaits
      cases here : (s.threads t).pc with
      | waiting m cmp pc =>
        rw [here] at awaits sleeping
        cases awaits
        cases sleeping
        rfl
      | _ =>
        rw [here] at sleeping
        nomatch sleeping
    obtain entry | alerted := inv.queue.alerts _ t sleeping
    · exact .inl ⟨.inr ⟨sleeping, entry⟩, entry⟩
    · exact .inr (.inr (.inl alerted))
  · exact .inr (.inl fun addr sleeping => asleep ⟨addr, sleeping⟩)

theorem Inv.sound (inv : Inv s) : Sound s := by
  constructor
  · intro t u exclusive different
    have mine : 0 < (s.threads t).holds.count .exclusive := count_pos_iff.mpr exclusive
    have two := add_le_tally (fun thread => thread.holds.count .exclusive) s.threads different
    have other := le_tally (fun thread => thread.holds.count .shared) s.threads u
    have alone := inv.alone
    simp only [held] at alone
    rw [eq_nil_iff_forall_not_mem]
    rintro (- | -) member
    · have counted := count_pos_iff.mpr member
      omega
    · have counted := count_pos_iff.mpr member
      omega
  · intro t mode awaits grants
    cases mode with
    | exclusive =>
      have some := lt_of_lt_of_le (counts_pos.mpr awaits) (le_tally (·.pc.counts) s.threads t)
      obtain ⟨v, all, scans⟩ | ⟨w, waits, unparked⟩ := inv.exclusiveWake (of_decide_eq_true grants) some
      · refine ⟨t, awaits, ?_⟩
        obtain ⟨-, entry⟩ | roused := inv.parked_or_roused awaits
        · exact .inr (.inr ⟨entry, v, all, scans⟩)
        · exact roused
      · refine ⟨w, waits, ?_⟩
        obtain ⟨parked, -⟩ | roused := inv.parked_or_roused waits
        · exact absurd parked unparked
        · exact roused
    | shared =>
      refine ⟨t, awaits, ?_⟩
      obtain ⟨parked, entry⟩ | roused := inv.parked_or_roused awaits
      · obtain ⟨v, scans⟩ := inv.sharedWake (of_decide_eq_true grants) t parked
        exact .inr (.inr ⟨entry, v, true, scans⟩)
      · exact roused

theorem initializeSrwLock_counts (mode : Mode) :
    (initializeSrwLock ι).held mode = 0 ∧ (initializeSrwLock ι).waiters = 0 :=
  ⟨tally_eq_zero.mpr fun _ => rfl, tally_eq_zero.mpr fun _ => rfl⟩

theorem initializeSrwLock_inv : Inv (initializeSrwLock ι) := by
  have ⟨exclusive, waiters⟩ := @initializeSrwLock_counts ι _ .exclusive
  refine ⟨⟨fun _ => ⟨nofun, nofun⟩, nofun, nodup_nil, nofun⟩, ?_, ?_, .inl exclusive, nofun, nofun, ?_, ?_⟩
  · rw [exclusive, (initializeSrwLock_counts .shared).1]
    rfl
  · rw [exclusive, waiters]
    rfl
  · rw [waiters]
    nofun
  · rintro - t (adding | ⟨sleeping, -⟩)
    · nomatch adding
    · nomatch sleeping

theorem initializeSrwLock_bounded : (initializeSrwLock ι).Bounded := by
  have ⟨exclusive, waiters⟩ := @initializeSrwLock_counts ι _ .exclusive
  rw [State.Bounded, waiters, exclusive, (initializeSrwLock_counts .shared).1]
  decide

variable [DecidableEq ι]

/-- The numbers stay below their bounds. -/
def StaysBounded (s : State ι) (action : Action ι) : Prop := ∀ s', s.step action = .ok s' → s'.Bounded

/-- **Slim reader/writer locks.** In every interleaving, a thread that has the lock exclusively is alone,
and if a thread waits for a lock that it could have, then such a thread is awake or a wake-up for it is on
the way. -/
theorem srwLock_sound (run : Runs State.step StaysBounded (initializeSrwLock ι) s) : Sound s :=
  (run.invariant (fun s => Inv s ∧ s.Bounded) ⟨initializeSrwLock_inv, initializeSrwLock_bounded⟩
    fun _ action _ ⟨inv, bounded⟩ bound done =>
      ⟨step_inv inv bounded action done (bound _ done), bound _ done⟩).1.sound

instance (s : State ι) (action : Action ι) : Decidable (StaysBounded s action) :=
  match result : s.step action with
  | .ok s' =>
    decidable_of_iff (s'.waiters < 2 ^ 15 ∧ s'.held .exclusive + s'.held .shared < 2 ^ 16)
      ⟨fun bounded s'' done => by cases result.symm.trans done; exact bounded, fun all => all s' result⟩

/-- The second thread sleeps, and the first one is going to search for it. -/
theorem srwLock_sound_released : ∃ s : State (Fin 2),
    Runs State.step StaysBounded (initializeSrwLock (Fin 2)) s ∧
      s.word.grants .exclusive = true ∧ s.place 1 = .waits .owners .sleeping ∧ Sound s := by
  obtain ⟨s, done, free, sleeping⟩ := exists_some_of_check
    (x := [.acquire 0 .shared, .run 0, .run 0, .acquire 1 .exclusive, .run 1, .run 1, .run 1, .run 1, .run 1,
      .run 1, .release 0 .shared, .run 0, .run 0].foldlM (checked step StaysBounded)
      (initializeSrwLock (Fin 2)))
    (fun s => s.word.grants .exclusive = true ∧ s.place 1 = .waits .owners .sleeping)
    (by decide +kernel)
  have run := runs_of_checked done
  exact ⟨s, run, free, sleeping, srwLock_sound run⟩

end Sound

end FreeWindows.Rtl.SrwLock
