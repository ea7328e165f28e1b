/-
**The word of a slim reader/writer lock.**

What relates the word to the threads: the owners and the threads that wait to have the lock exclusively
are counted, and whenever a thread could have the lock, one that waits for it is not parked or a thread is
going to search for it.
-/

import FreeWindows.Lib.Threads
import FreeWindows.Rtl.SrwLock.Model

namespace FreeWindows.Rtl.SrwLock

open Lib Futex Function List Word Mode

namespace Pc

variable {ι : Type}

/-- The place of a thread in the functions that wait and wake up. -/
def place : Pc ι → Place ι Addr
  | waiting mode _ pc => .waits mode.addr pc
  | waking addr all pc => .wakes addr all pc
  | _ => .done

/-- How a thread waits for the lock. -/
def awaits : Pc ι → Option Mode
  | reading mode | exchanging mode _ | waiting mode _ _ => some mode
  | _ => none

/-- What a thread releases. -/
def releases : Pc ι → Option Mode
  | releasing mode | releaseExchanging mode _ => some mode
  | _ => none

/-- One for a thread that is counted in the word. -/
def counts (pc : Pc ι) : Nat := if pc.awaits = some .exclusive then 1 else 0

end Pc

namespace State

variable {ι : Type} (s : State ι)

def place (t : ι) : Place ι Addr := (s.threads t).pc.place

def Awaits (mode : Mode) (t : ι) : Prop := (s.threads t).pc.awaits = some mode

variable [Fintype ι]

def held (mode : Mode) : Nat := tally (fun thread => thread.holds.count mode) s.threads

def waiters : Nat := tally (fun thread => thread.pc.counts) s.threads

/-- There are fewer than `2^15` threads that wait to have the lock exclusively, and fewer than `2^16`
owners. -/
def Bounded : Prop := s.waiters < 2 ^ 15 ∧ s.held .exclusive + s.held .shared < 2 ^ 16

end State

section Invariant

variable {ι : Type} {s : State ι} {t u : ι} {pc : Pc ι} {holds : List Mode} {mode : Mode} {word : Word}
  {queue : Queue ι Addr}

/-- Who has an entry for the owners waits to have the lock exclusively. -/
theorem awaits_of_entryAt (entry : (s.place t).entryAt = some .owners) : s.Awaits .exclusive t := by
  unfold State.place at entry
  unfold State.Awaits
  cases here : (s.threads t).pc with
  | waiting mode cmp p =>
    rw [here] at entry
    cases mode with
    | exclusive => rfl
    | shared => cases p <;> nomatch entry
  | _ =>
    rw [here] at entry
    nomatch entry

/-- What a thread knows where it is. -/
def Thread.Fits (thread : Thread ι) : Prop :=
  match thread.pc with
  | .waiting mode cmp _ => cmp.grants mode = false
  | .releasing mode | .releaseExchanging mode _ => mode ∈ thread.holds
  | _ => True

theorem Thread.Fits.releases {thread : Thread ι} (fits : thread.Fits)
    (here : thread.pc.releases = some mode) : mode ∈ thread.holds := by
  unfold Thread.Fits at fits
  cases at' : thread.pc <;> rw [at'] at here fits <;> first | exact Option.some.inj here ▸ fits | nomatch here

theorem counts_pos {p : Pc ι} : 0 < p.counts ↔ p.awaits = some .exclusive := by
  rw [Pc.counts]
  split <;> simp_all

theorem wakeUp_spec (word : Word) (mode : Mode) (holds : List Mode) :
    (@wakeUp ι word mode).counts = 0 ∧ (@wakeUp ι word mode).place.Early ∧
      (⟨wakeUp word mode, holds⟩ : Thread ι).Fits := by
  cases mode <;> unfold wakeUp <;> dsimp only <;> split
  · exact ⟨rfl, .inr (.inr ⟨_, _, rfl⟩), trivial⟩
  · exact ⟨rfl, .inr (.inr ⟨_, _, rfl⟩), trivial⟩
  · exact ⟨rfl, .inr (.inr ⟨_, _, rfl⟩), trivial⟩
  · exact ⟨rfl, .inl rfl, trivial⟩

theorem grants_of_same {cmp : Word} (same : word.same cmp mode = true) :
    word.grants mode = cmp.grants mode := by
  cases mode <;> simp_all [Word.same, Word.grants]

section Next

variable [DecidableEq ι]

/-- The state after a step of one thread. -/
def State.next (s : State ι) (t : ι) (word : Word) (queue : Queue ι Addr) (pc : Pc ι) (holds : List Mode) :
    State ι :=
  ⟨word, queue, update s.threads t ⟨pc, holds⟩⟩

theorem next_place : (s.next t word queue pc holds).place = update s.place t pc.place :=
  comp_update (fun thread : Thread ι => thread.pc.place) s.threads t ⟨pc, holds⟩

theorem next_self : (s.next t word queue pc holds).threads t = ⟨pc, holds⟩ := update_self ..

theorem next_other (different : u ≠ t) : (s.next t word queue pc holds).threads u = s.threads u :=
  update_of_ne different ..

theorem next_awaits (own : (s.threads t).pc.awaits = some mode → pc.awaits = some mode)
    (awaits : s.Awaits mode u) : (s.next t word queue pc holds).Awaits mode u := by
  unfold State.Awaits at awaits ⊢
  by_cases same : u = t
  · rw [same] at awaits
    rw [same, next_self]
    exact own awaits
  · rw [next_other same]
    exact awaits

end Next

variable [Fintype ι]

structure Inv (s : State ι) : Prop where
  queue : Futex.Inv s.queue s.place
  owners : s.word.owners = s.held .exclusive + s.held .shared
  waiters : s.word.exclusiveWaiters = 2 * s.waiters + s.held .exclusive
  alone : s.held .exclusive = 0 ∨ (s.held .exclusive = 1 ∧ s.held .shared = 0)
  expects : ∀ t mode cmp pc, (s.threads t).pc = .waiting mode cmp pc → cmp.grants mode = false
  releases : ∀ t mode, (s.threads t).pc.releases = some mode → mode ∈ (s.threads t).holds
  exclusiveWake : s.word.owners = 0 → 0 < s.waiters →
    Pending s.queue s.place .owners (s.Awaits .exclusive)
  sharedWake : s.word.exclusiveWaiters = 0 → ∀ t, Parked s.queue s.place .word t →
    ∃ v, (s.place v).scans true .word

/-- The word counts the threads. -/
def Word.Counts (word : Word) (s : State ι) : Prop :=
  word.owners = s.held .exclusive + s.held .shared ∧
    word.exclusiveWaiters = 2 * s.waiters + s.held .exclusive ∧
    (s.held .exclusive = 0 ∨ (s.held .exclusive = 1 ∧ s.held .shared = 0))

theorem Inv.counted (inv : Inv s) : s.word.Counts s := ⟨inv.owners, inv.waiters, inv.alone⟩

variable [DecidableEq ι]

theorem next_counts (s : State ι) (t : ι) (word : Word) (queue : Queue ι Addr) (pc : Pc ι) (holds : List Mode) :
    (∀ mode, (s.next t word queue pc holds).held mode + (s.threads t).holds.count mode =
      s.held mode + holds.count mode) ∧
      (s.next t word queue pc holds).waiters + (s.threads t).pc.counts = s.waiters + pc.counts :=
  ⟨fun _ => tally_update _ s.threads t _, tally_update _ s.threads t _⟩

/-- **A step of one thread.** -/
theorem Inv.next (inv : Inv s) (places : Futex.Inv queue (update s.place t pc.place))
    (counted : word.Counts (s.next t word queue pc holds)) (own : (⟨pc, holds⟩ : Thread ι).Fits)
    (exclusiveWake : word.owners = 0 → 0 < (s.next t word queue pc holds).waiters →
      Pending queue (update s.place t pc.place) .owners
        ((s.next t word queue pc holds).Awaits .exclusive)) (sharedWake : word.exclusiveWaiters = 0 →
      ∀ u, Parked queue (update s.place t pc.place) .word u →
        ∃ v, (update s.place t pc.place v).scans true .word) :
    Inv (s.next t word queue pc holds) := by
  refine ⟨by rw [next_place]; exact places, counted.1, counted.2.1, counted.2.2, fun u => ?_, fun u => ?_,
    by rw [next_place]; exact exclusiveWake, by rw [next_place]; exact sharedWake⟩
  · by_cases same : u = t
    · rw [same, next_self]
      rintro mode cmp p rfl
      exact own
    · rw [next_other same]
      exact inv.expects u
  · by_cases same : u = t
    · rw [same, next_self]
      exact fun mode => own.releases
    · rw [next_other same]
      exact inv.releases u

/-- A step outside of the functions that wait and wake up. -/
theorem Inv.outside (inv : Inv s) (here : s.place t = .done) (early : pc.place.Early)
    (counted : word.Counts (s.next t word s.queue pc holds)) (own : (⟨pc, holds⟩ : Thread ι).Fits)
    (exclusiveWake : word.owners = 0 → 0 < (s.next t word s.queue pc holds).waiters →
      (s.word.owners = 0 ∧ 0 < s.waiters ∧
        ((s.threads t).pc.awaits = some .exclusive → pc.awaits = some .exclusive)) ∨
      (∃ all, pc.place.scans all .owners) ∨ pc.awaits = some .exclusive)
    (sharedWake : word.exclusiveWaiters = 0 → s.word.exclusiveWaiters = 0 ∨ pc.place.scans true .word) :
    Inv (s.next t word s.queue pc holds) := by
  refine inv.next (inv.queue.start here early) counted own (fun free some => ?_) fun free u parked => ?_
  · obtain ⟨before, also, still⟩ | ⟨all, scans⟩ | own := exclusiveWake free some
    · exact pending_start here early (fun _ => next_awaits still) (inv.exclusiveWake before also)
    · refine .inl ⟨t, all, ?_⟩
      rw [update_self]
      exact scans
    · -- the thread waits, but is not parked
      exact .inr ⟨t, by rw [State.Awaits, next_self]; exact own, unparked_start here early⟩
  · obtain before | scans := sharedWake free
    · rw [parked_start here early] at parked
      obtain ⟨v, scans⟩ := inv.sharedWake before u parked
      exact ⟨v, scans_start here scans⟩
    · refine ⟨t, ?_⟩
      rw [update_self]
      exact scans

/-- The thread keeps what it has, and is counted as before. -/
theorem next_counted (queue : Queue ι Addr) (inv : Inv s) (counts : pc.counts = (s.threads t).pc.counts) :
    s.word.Counts (s.next t s.word queue pc (s.threads t).holds) ∧
      (s.next t s.word queue pc (s.threads t).holds).waiters = s.waiters := by
  obtain ⟨held, waiters⟩ := next_counts s t s.word queue pc (s.threads t).holds
  rw [counts] at waiters
  refine ⟨?_, Nat.add_right_cancel waiters⟩
  rw [Word.Counts, Nat.add_right_cancel (held _), Nat.add_right_cancel (held _), Nat.add_right_cancel waiters]
  exact inv.counted

/-- A step that changes only where the thread is. -/
theorem goto_inv {p : Pc ι} (inv : Inv s) (here : (s.threads t).pc = p)
    (own : (⟨pc, (s.threads t).holds⟩ : Thread ι).Fits) (outside : p.place = .done := by rfl)
    (early : pc.place.Early := by exact .inl rfl) (counts : pc.counts = p.counts := by rfl) :
    Inv (s.set t s.word pc (s.threads t).holds) := by
  subst here
  obtain ⟨counted, waiters⟩ := next_counted s.queue inv counts
  exact inv.outside outside early counted own
    (fun free some => .inl ⟨free, waiters ▸ some,
      fun awaits => counts_pos.mp (counts ▸ counts_pos.mpr awaits)⟩) .inl

theorem even_or_one (n : Nat) : 2 * n ||| 1 = 2 * n + 1 :=
  (Nat.two_pow_add_eq_or_of_lt (show 1 < 2 ^ 1 by decide) n).symm

theorem acquire_counts (s : State ι) (t : ι) (word : Word) {other : Mode} (different : mode ≠ other) :
    (s.next t word s.queue .idle (mode :: (s.threads t).holds)).held mode = s.held mode + 1 ∧
      (s.next t word s.queue .idle (mode :: (s.threads t).holds)).held other = s.held other ∧
      (s.next t word s.queue .idle (mode :: (s.threads t).holds)).waiters + (s.threads t).pc.counts =
        s.waiters := by
  have counts := next_counts s t word s.queue .idle (mode :: (s.threads t).holds)
  have mine := counts.1 mode
  have others := counts.1 other
  rw [count_cons_self] at mine
  rw [count_cons_of_ne different] at others
  exact ⟨by omega, by omega, counts.2⟩

/-- The lock is acquired exclusively, after waiting for it or not. -/
theorem acquired_exclusive (inv : Inv s) (here : s.place t = .done) (free : s.word.owners = 0)
    (acquired : (word = s.word.acquire .exclusive ∧ (s.threads t).pc.counts = 1) ∨
      (word = s.word.tryAcquire .exclusive ∧ (s.threads t).pc.counts = 0))
    (bounded : (s.next t word s.queue .idle (.exclusive :: (s.threads t).holds)).Bounded) :
    Inv (s.next t word s.queue .idle (.exclusive :: (s.threads t).holds)) := by
  obtain ⟨owners, waiters, -⟩ := inv.counted
  obtain ⟨mine, others, left⟩ := acquire_counts s t word (show exclusive ≠ .shared by decide)
  have few := bounded.1
  have result : word.owners = 1 ∧ word.exclusiveWaiters = 2 * (s.waiters - (s.threads t).pc.counts) + 1 := by
    obtain ⟨rfl, one⟩ | ⟨rfl, zero⟩ := acquired
    · have smaller : (s.word.exclusiveWaiters + 2 ^ 16 - 2) % 2 ^ 16 = 2 * (s.waiters - 1) := by omega
      simp only [acquire, smaller, one, even_or_one, true_and]
    · have same : s.word.exclusiveWaiters = 2 * s.waiters := by omega
      simp only [tryAcquire, same, zero, even_or_one, Nat.sub_zero, true_and]
  refine inv.outside here (.inl rfl) ⟨?_, ?_, ?_⟩ trivial ?_ ?_
  · omega
  · omega
  · omega
  · omega
  · omega

/-- The lock is shared, after waiting for it or not. -/
theorem acquired_shared (inv : Inv s) (here : s.place t = .done) (free : s.word.exclusiveWaiters = 0)
    (acquired : word = s.word.acquire .shared)
    (bounded : (s.next t word s.queue .idle (.shared :: (s.threads t).holds)).Bounded) :
    Inv (s.next t word s.queue .idle (.shared :: (s.threads t).holds)) := by
  obtain ⟨owners, waiters, -⟩ := inv.counted
  obtain ⟨mine, others, left⟩ := acquire_counts s t word (show shared ≠ .exclusive by decide)
  have few := bounded.2
  have result : word.owners = s.word.owners + 1 ∧ word.exclusiveWaiters = s.word.exclusiveWaiters := by
    simp only [acquired, acquire, and_true]
    omega
  refine inv.outside here (.inl rfl) ⟨?_, ?_, ?_⟩ trivial ?_ ?_
  · omega
  · omega
  · omega
  · omega
  · omega

theorem release_counts {other : Mode} (word : Word) (holds : mode ∈ (s.threads t).holds)
    (outside : (s.threads t).pc.counts = 0) (none : pc.counts = 0) (different : mode ≠ other) :
    (s.next t word s.queue pc ((s.threads t).holds.erase mode)).held mode + 1 = s.held mode ∧
      (s.next t word s.queue pc ((s.threads t).holds.erase mode)).held other = s.held other ∧
      (s.next t word s.queue pc ((s.threads t).holds.erase mode)).waiters = s.waiters := by
  have counts := next_counts s t word s.queue pc ((s.threads t).holds.erase mode)
  have mine := counts.1 mode
  have others := counts.1 other
  have positive := count_pos_iff.mpr holds
  rw [count_erase_self] at mine
  rw [count_erase_of_ne different.symm] at others
  exact ⟨by omega, by omega, by omega⟩

theorem released_exclusive (inv : Inv s) (here : s.place t = .done)
    (holds : .exclusive ∈ (s.threads t).holds) (outside : (s.threads t).pc.counts = 0)
    (released : word = s.word.release .exclusive) :
    Inv (s.next t word s.queue (wakeUp word .exclusive) ((s.threads t).holds.erase .exclusive)) := by
  obtain ⟨-, waiters, alone⟩ := inv.counted
  obtain ⟨none, early, fits⟩ := @wakeUp_spec ι word .exclusive ((s.threads t).holds.erase .exclusive)
  obtain ⟨mine, others, same⟩ :=
    release_counts word holds outside none (show exclusive ≠ .shared by decide)
  have result : word.owners = 0 ∧ word.exclusiveWaiters = 2 * s.waiters := by
    simp only [released, Word.release, true_and]
    omega
  refine inv.outside here early ⟨by omega, by omega, by omega⟩ fits (fun _ some => ?_) fun free => ?_
  · refine .inr (.inl ⟨false, .inl ?_⟩)
    rw [wakeUp, if_pos (by omega)]
    rfl
  · refine .inr (.inl ?_)
    rw [wakeUp, if_neg (not_not.mpr free)]
    rfl

theorem released_shared (inv : Inv s) (here : s.place t = .done) (holds : .shared ∈ (s.threads t).holds)
    (outside : (s.threads t).pc.counts = 0) (released : word = s.word.release .shared) (bounded : s.Bounded) :
    Inv (s.next t word s.queue (wakeUp word .shared) ((s.threads t).holds.erase .shared)) := by
  obtain ⟨owners, waiters, alone⟩ := inv.counted
  obtain ⟨none, early, fits⟩ := @wakeUp_spec ι word .shared ((s.threads t).holds.erase .shared)
  obtain ⟨mine, others, same⟩ :=
    release_counts word holds outside none (show shared ≠ .exclusive by decide)
  have few := bounded.2
  have result : word.owners + 1 = s.word.owners ∧ word.exclusiveWaiters = s.word.exclusiveWaiters := by
    simp only [released, Word.release, and_true]
    omega
  refine inv.outside here early ⟨by omega, by omega, by omega⟩ fits (fun free _ => ?_) fun free => .inl ?_
  · refine .inr (.inl ⟨false, .inl ?_⟩)
    rw [wakeUp, if_pos free]
    rfl
  · exact result.2 ▸ free

theorem Inv.futex {p : Place ι Addr} {equal : Bool} (inv : Inv s) (here : s.place t = p)
    (moved : s.queue.run t equal p = (queue, pc.place)) (counts : pc.counts = (s.threads t).pc.counts)
    (own : (⟨pc, (s.threads t).holds⟩ : Thread ι).Fits)
    (compares : ∀ mode : Mode, p = .waits mode.addr .comparing → equal = true → s.word.grants mode = false) :
    Inv (s.next t s.word queue pc (s.threads t).holds) := by
  subst here
  obtain ⟨counted, waiters⟩ := next_counted queue inv counts
  obtain ⟨rfl, place⟩ := Prod.mk.inj moved
  refine inv.next ?_ counted own (fun free some => ?_) fun free => ?_ <;> rw [← place]
  · exact run_inv inv.queue t equal
  · rw [waiters] at some
    refine (run_pending inv.queue ((exists_of_tally_pos some).imp fun _ => counts_pos.mp)
      (fun u => awaits_of_entryAt) ?_
      (inv.exclusiveWake free some)).imp_right fun ⟨w, waits, unparked⟩ =>
        ⟨w, next_awaits (fun awaits => counts_pos.mp (counts ▸ counts_pos.mpr awaits)) waits, unparked⟩
    exact fun ⟨comparing, same⟩ => of_decide_eq_false (compares .exclusive comparing same) free
  · refine run_scans_all inv.queue ?_ (inv.sharedWake free)
    exact fun ⟨comparing, same⟩ => of_decide_eq_false (compares .shared comparing same) free

end Invariant

end FreeWindows.Rtl.SrwLock
