/-
**The fields of a critical section.**

What relates the fields to the threads. `LockCount` and `RecursionCount` count what the threads have
entered, and the section is with exactly one thread, or in the semaphore, unless it is free and nobody
waits (`Inv.units`). While it is in the semaphore and threads wait, one of them is not parked or a thread
is going to search for one.
-/

import FreeWindows.Lib.Threads
import FreeWindows.Rtl.CriticalSection.Model

namespace FreeWindows.Rtl.CriticalSection

open Lib Futex Function Thread

namespace Pc

variable {ι : Type}

/-- The place of a thread in the functions that wait and wake up. -/
def place : Pc ι → Place ι Unit
  | waiting pc => .waits () pc
  | waking pc => .wakes () false pc
  | _ => .done

/-- The thread waits for the section. -/
def waits : Pc ι → Bool
  | taking | waiting _ | blocked => true
  | _ => false

/-- What `LockCount` has for the thread besides its enters. -/
def extra : Pc ι → Nat
  | comparing | taking | waiting _ | blocked | owning | starting | recursing | recursed _ | testing
  | unnesting | clearing | decrementing => 1
  | _ => 0

/-- The thread is about to be the owner, or was it and has not handed the section over. -/
def owns : Pc ι → Bool
  | owning | starting | clearing | decrementing | unwaiting => true
  | _ => false

/-- `OwningThread` is the thread, which has no enters. -/
def named : Pc ι → Bool
  | starting | clearing => true
  | _ => false

/-- The part of the thread in the counts. -/
def part (pc : Pc ι) : Nat × Bool × Bool := (pc.extra, pc.owns, pc.named)

end Pc

namespace Thread

variable {ι : Type} (thread : Thread ι)

def shares : Nat := thread.enters + thread.pc.extra

def owner : Nat := if 0 < thread.enters ∨ thread.pc.owns = true then 1 else 0

def Named : Prop := 0 < thread.enters ∨ thread.pc.named = true

/-- What is known about a thread at the place where it is. -/
def Fits (recursionCount : Int) : Prop :=
  match thread.pc with
  | .recursing | .tryIncrementing | .leaving | .testing | .unnesting => 0 < thread.enters
  | .recursed old | .left old => 0 < thread.enters ∧ old = recursionCount
  | .taking | .waiting _ | .blocked | .owning | .starting | .clearing | .decrementing | .unwaiting =>
    thread.enters = 0
  | _ => True

end Thread

namespace State

variable {ι : Type} (s : State ι)

def place (t : ι) : Place ι Unit := (s.threads t).pc.place

def Waits (t : ι) : Prop := (s.threads t).pc.waits = true

variable [Fintype ι]

def shares : Nat := tally Thread.shares s.threads

def owners : Nat := tally Thread.owner s.threads

def entered : Nat := tally Thread.enters s.threads

end State

section Invariant

variable {ι : Type} {s s' : State ι} {t u : ι} {pc : Pc ι} {enters : Nat} {thread : Thread ι}
  {recursionCount : Int} {p : Pc ι} {crit : Crit ι} {queue : Queue ι Unit}

theorem Thread.Named.owner (named : thread.Named) : thread.owner = 1 := by
  refine if_pos (named.imp_right fun pc => ?_)
  cases here : thread.pc <;> rw [here] at pc <;> first | rfl | nomatch pc

theorem enters_of_owner (zero : thread.owner = 0) : thread.enters = 0 := by
  by_contra some
  rw [owner, if_pos (.inl (Nat.pos_of_ne_zero some))] at zero
  nomatch zero

theorem waits_of_entryAt (entry : (s.place t).entryAt = some ()) : s.Waits t := by
  unfold State.place at entry
  unfold State.Waits
  cases here : (s.threads t).pc <;> rw [here] at entry <;> first | rfl | nomatch entry

/-- The recursion count matters only to a thread that has entered. -/
theorem Thread.Fits.other {recursionCount' : Int} (fits : thread.Fits recursionCount)
    (zero : thread.enters = 0) : thread.Fits recursionCount' := by
  unfold Thread.Fits at fits ⊢
  rw [zero] at fits ⊢
  cases here : thread.pc <;> rw [here] at fits <;> first | exact fits | nomatch fits.1

theorem owner_eq_zero (thread : Thread ι) (zero : thread.enters = 0) (owns : thread.pc.owns = false) :
    thread.owner = 0 := by
  rw [owner, zero, owns]
  rfl

theorem not_named (thread : Thread ι) (zero : thread.enters = 0) (named : thread.pc.named = false) :
    ¬thread.Named := by
  rw [Thread.Named, zero, named]
  nofun

/-- What a step does to the counts. -/
def Counts (s : State ι) (t : ι) (crit : Crit ι) (pc : Pc ι) (enters : Nat) : Prop :=
  crit.lockCount + (s.threads t).shares = s.crit.lockCount + (enters + pc.extra : Nat) ∧
    crit.recursionCount + (s.threads t).enters = s.crit.recursionCount + enters ∧
    (crit.lockCount < 2 ^ 31 ∧ crit.recursionCount < 2 ^ 31) ∧
    ((⟨pc, enters⟩ : Thread ι).owner + crit.semaphore : Int) + min 1 (s.crit.lockCount + 1) =
      (s.threads t).owner + s.crit.semaphore + min 1 (crit.lockCount + 1)

/-- `OwningThread` after a step: the thread, if it is the owner now, and nobody if it was the owner. -/
def Renames (s : State ι) (t : ι) (thread : Thread ι) (owner : Option ι) : Prop :=
  (thread.Named ∧ owner = some t) ∨ (¬thread.Named ∧ (s.threads t).Named ∧ owner = none) ∨
    (¬thread.Named ∧ ¬(s.threads t).Named ∧ owner = s.crit.owningThread)

theorem counts_same (extra : pc.extra = (s.threads t).pc.extra) (owns : pc.owns = (s.threads t).pc.owns)
    (small : s.crit.lockCount < 2 ^ 31 ∧ s.crit.recursionCount < 2 ^ 31) :
    Counts s t s.crit pc (s.threads t).enters := by
  refine ⟨by rw [extra]; rfl, rfl, small, ?_⟩
  simp only [owner, owns]

section Next

variable [DecidableEq ι]

/-- The state after a step of one thread. -/
def State.next (s : State ι) (t : ι) (crit : Crit ι) (queue : Queue ι Unit) (pc : Pc ι) (enters : Nat) :
    State ι :=
  ⟨crit, queue, update s.threads t ⟨pc, enters⟩⟩

theorem next_place : (s.next t crit queue pc enters).place = update s.place t pc.place :=
  comp_update (fun thread : Thread ι => thread.pc.place) s.threads t ⟨pc, enters⟩

theorem next_self : (s.next t crit queue pc enters).threads t = ⟨pc, enters⟩ := update_self ..

theorem next_other (different : u ≠ t) : (s.next t crit queue pc enters).threads u = s.threads u :=
  update_of_ne different ..

/-- Who waits after a step in which the thread does not stop waiting. -/
theorem next_waits (still : (s.threads t).pc.waits = true → pc.waits = true) (waits : s.Waits u) :
    (s.next t crit queue pc enters).Waits u := by
  unfold State.Waits at waits ⊢
  by_cases same : u = t
  · rw [same] at waits
    rw [same, next_self]
    exact still waits
  · rw [next_other same]
    exact waits

end Next

variable [Fintype ι]

structure Inv (s : State ι) : Prop where
  queue : Futex.Inv s.queue s.place
  count : s.crit.lockCount + 1 = s.shares
  recursion : s.crit.recursionCount = s.entered
  small : s.crit.lockCount < 2 ^ 31 ∧ s.crit.recursionCount < 2 ^ 31
  units : s.owners + s.crit.semaphore = min 1 s.shares
  named : ∀ t, s.crit.owningThread = some t ↔ (s.threads t).Named
  fits : ∀ t, (s.threads t).Fits s.crit.recursionCount
  wake : s.crit.semaphore = 1 → s.crit.handle = false → (∃ t, s.Waits t) →
    Pending s.queue s.place () s.Waits

theorem shares_le (s : State ι) (t : ι) : (s.threads t).shares ≤ s.shares := le_tally shares s.threads t

theorem owner_le (s : State ι) (t : ι) : (s.threads t).owner ≤ s.owners := le_tally owner s.threads t

/-- Only one thread has the section. -/
theorem alone (few : s.owners ≤ 1) (owner : (s.threads t).owner = 1) (different : u ≠ t) :
    (s.threads u).owner = 0 := by
  have two := add_le_tally Thread.owner s.threads different
  simp only [State.owners] at few
  omega

theorem Inv.owners_le (inv : Inv s) : s.owners ≤ 1 := by
  have := inv.units
  omega

theorem renames_same (inv : Inv s) (same : thread.Named ↔ (s.threads t).Named) :
    Renames s t thread s.crit.owningThread := by
  rw [Renames, same]
  by_cases now : (s.threads t).Named
  · exact .inl ⟨now, (inv.named t).mpr now⟩
  · exact .inr (.inr ⟨now, now, rfl⟩)

theorem Inv.fits_at (inv : Inv s) (here : (s.threads t).pc = p) :
    (⟨p, (s.threads t).enters⟩ : Thread ι).Fits s.crit.recursionCount :=
  here ▸ inv.fits t

/-- All enters are those of the thread that has the section. -/
theorem Inv.recursion_eq (inv : Inv s) (owner : (s.threads t).owner = 1) :
    s.crit.recursionCount = (s.threads t).enters := by
  classical
  have without := tally_update enters s.threads t ⟨.idle, 0⟩
  have none : tally enters (update s.threads t ⟨.idle, 0⟩) = 0 := by
    refine tally_eq_zero.mpr fun u => ?_
    by_cases same : u = t
    · rw [same, update_self]
    · rw [update_of_ne same]
      exact enters_of_owner (alone inv.owners_le owner same)
  rw [none] at without
  rw [inv.recursion]
  exact congrArg Nat.cast (without.symm.trans (Nat.zero_add _))

variable [DecidableEq ι]

theorem Renames.named (renames : Renames s t ⟨pc, enters⟩ crit.owningThread) (inv : Inv s)
    (few : (s.next t crit queue pc enters).owners ≤ 1) (u : ι) :
    crit.owningThread = some u ↔ ((s.next t crit queue pc enters).threads u).Named := by
  by_cases same : u = t
  · subst same
    rw [next_self]
    obtain ⟨now, owner⟩ | ⟨now, -, owner⟩ | ⟨now, before, owner⟩ := renames
    · exact iff_of_true owner now
    · rw [owner]
      exact iff_of_false nofun now
    · rw [owner, inv.named u]
      exact iff_of_false before now
  · obtain ⟨now, owner⟩ | ⟨-, before, owner⟩ | ⟨-, -, owner⟩ := renames
    · rw [owner]
      refine iff_of_false (fun equal => same (Option.some.inj equal).symm) fun also => ?_
      have zero := alone few (by rw [next_self]; exact now.owner) same
      rw [also.owner] at zero
      nomatch zero
    · rw [owner, next_other same]
      refine iff_of_false nofun fun also => ?_
      have first := (inv.named t).mpr before
      have second := (inv.named u).mpr also
      exact same (Option.some.inj (second.symm.trans first))
    · rw [owner, next_other same]
      exact inv.named u

/-- **A step of one thread.** -/
theorem Inv.next (inv : Inv s) (places : Futex.Inv queue (update s.place t pc.place))
    (counts : Counts s t crit pc enters) (renames : Renames s t ⟨pc, enters⟩ crit.owningThread)
    (own : (⟨pc, enters⟩ : Thread ι).Fits crit.recursionCount)
    (kept : crit.recursionCount = s.crit.recursionCount ∨ (s.threads t).owner = 1)
    (wake : crit.semaphore = 1 → crit.handle = false → (∃ u, (s.next t crit queue pc enters).Waits u) →
      Pending queue (update s.place t pc.place) () (s.next t crit queue pc enters).Waits) :
    Inv (s.next t crit queue pc enters) := by
  obtain ⟨lock, recursion, small, units⟩ := counts
  have count := inv.count
  have allUnits := inv.units
  have entered := inv.recursion
  have sharesStep := tally_update shares s.threads t ⟨pc, enters⟩
  have ownersStep := tally_update owner s.threads t ⟨pc, enters⟩
  have enteredStep := tally_update Thread.enters s.threads t ⟨pc, enters⟩
  simp only [State.shares, State.owners, State.entered] at count allUnits entered
  rw [show (⟨pc, enters⟩ : Thread ι).shares = enters + pc.extra from rfl] at sharesStep
  rw [show (⟨pc, enters⟩ : Thread ι).enters = enters from rfl] at enteredStep
  have owners : (s.next t crit queue pc enters).owners + crit.semaphore =
      min 1 (s.next t crit queue pc enters).shares := by
    simp only [State.next, State.shares, State.owners]
    omega
  refine ⟨by rw [next_place]; exact places, ?_, ?_, small, owners, renames.named inv (by omega),
    fun u => ?_, by rw [next_place]; exact wake⟩
  · simp only [State.next, State.shares]
    omega
  · simp only [State.next, State.entered]
    omega
  · by_cases same : u = t
    · rw [same, next_self]
      exact own
    · rw [next_other same]
      obtain equal | owner := kept
      · exact equal ▸ inv.fits u
      · exact (inv.fits u).other (enters_of_owner (alone inv.owners_le owner same))

/-- A step outside of the functions that wait and wake up. -/
theorem Inv.outside (inv : Inv s) (here : s.place t = .done) (early : pc.place.Early)
    (counts : Counts s t crit pc enters) (renames : Renames s t ⟨pc, enters⟩ crit.owningThread)
    (own : (⟨pc, enters⟩ : Thread ι).Fits crit.recursionCount)
    (kept : crit.recursionCount = s.crit.recursionCount ∨ (s.threads t).owner = 1)
    (wake : crit.semaphore = 1 → crit.handle = false → (s.crit.semaphore = 1 ∧ s.crit.handle = false ∧
      ((s.threads t).pc.waits = true → pc.waits = true)) ∨ pc.place.scans false ()) :
    Inv (s.set t crit pc enters) := by
  refine inv.next (inv.queue.start here early) counts renames own kept fun one word ⟨w, waiter⟩ => ?_
  by_cases waits : pc.waits = true
  · -- the thread waits, but is not parked
    exact .inr ⟨t, by rw [State.Waits, next_self]; exact waits, unparked_start here early⟩
  · obtain ⟨one, word, still⟩ | scans := wake one word
    · refine pending_start here early (fun _ => next_waits still) (inv.wake one word ⟨w, ?_⟩)
      by_cases same : w = t
      · rw [State.Waits, same, next_self] at waiter
        exact absurd waiter waits
      · rwa [State.Waits, next_other same] at waiter
    · refine .inl ⟨t, false, ?_⟩
      rw [update_self]
      exact scans

/-! ### Steps that leave the fields alone -/

/-- The place of the thread changes, and its part in the counts stays the same. -/
theorem goto_inv {pc : Pc ι} (inv : Inv s) (here : (s.threads t).pc = p) (outside : p.place = .done)
    (early : pc.place.Early) (same : pc.part = p.part)
    (own : (⟨pc, (s.threads t).enters⟩ : Thread ι).Fits s.crit.recursionCount)
    (waits : p.waits = true → pc.waits = true) : Inv (s.set t s.crit pc (s.threads t).enters) := by
  subst here
  simp only [Pc.part, Prod.mk.injEq] at same
  obtain ⟨extra, owns, named⟩ := same
  exact inv.outside outside early (counts_same extra owns inv.small)
    (renames_same inv (by simp only [Thread.Named, named])) own (.inl rfl)
    fun one word => .inl ⟨one, word, waits⟩

/-- A thread that waits or wakes up others goes on with that. -/
theorem Inv.goes (inv : Inv s) (here : (s.threads t).pc = p)
    (same : pc.part = p.part ∧ pc.waits = p.waits)
    (own : (⟨pc, (s.threads t).enters⟩ : Thread ι).Fits s.crit.recursionCount)
    (places : Futex.Inv queue (update s.place t pc.place))
    (wake : s.crit.semaphore = 1 → s.crit.handle = false → (∃ u, s.Waits u) →
      Pending queue (update s.place t pc.place) () s.Waits) :
    Inv (s.next t s.crit queue pc (s.threads t).enters) := by
  subst here
  simp only [Pc.part, Prod.mk.injEq] at same
  obtain ⟨⟨extra, owns, named⟩, waits⟩ := same
  have still : (s.next t s.crit queue pc (s.threads t).enters).Waits = s.Waits := by
    funext u
    unfold State.Waits
    by_cases same : u = t
    · rw [same, next_self, waits]
    · rw [next_other same]
  refine inv.next places (counts_same extra owns inv.small)
    (renames_same inv (by simp only [Thread.Named, named])) own (.inl rfl) ?_
  rw [still]
  exact wake

theorem Inv.futex {equal : Bool} (inv : Inv s) (here : (s.threads t).pc = p)
    (moved : s.queue.run t equal p.place = (queue, pc.place))
    (same : pc.part = p.part ∧ pc.waits = p.waits)
    (own : (⟨pc, (s.threads t).enters⟩ : Thread ι).Fits s.crit.recursionCount)
    (compares : p.place = .waits () .comparing → equal = true → s.crit.semaphore ≠ 1) :
    Inv (s.next t s.crit queue pc (s.threads t).enters) := by
  subst here
  obtain ⟨rfl, place⟩ := Prod.mk.inj moved
  refine inv.goes rfl same own ?_ fun one word some => ?_
  · rw [← place]
    exact run_inv inv.queue t equal
  · rw [← place]
    exact run_pending inv.queue some (fun u => waits_of_entryAt)
      (fun ⟨comparing, same⟩ => compares comparing same one) (inv.wake one word some)

/-! ### Steps that change the fields -/

variable (inv : Inv s)
include inv

/-- The section was free. -/
theorem acquired_inv (here : (s.threads t).pc = p) (outside : p.place = .done) (owns : p.owns = false)
    (named : p.named = false) (free : s.crit.lockCount = -1) :
    Inv (s.set t { s.crit with lockCount := 0 } .owning (s.threads t).enters) := by
  subst here
  have count := inv.count
  have units := inv.units
  have small := inv.small
  have mine := shares_le s t
  have zero : (s.threads t).shares = 0 := by omega
  have enters : (s.threads t).enters = 0 := (Nat.add_eq_zero_iff.mp zero).1
  have owner : (⟨.owning, (s.threads t).enters⟩ : Thread ι).owner = 1 := if_pos (.inr rfl)
  refine inv.outside outside (.inl rfl) ?_
    (.inr (.inr ⟨not_named _ enters rfl, not_named _ enters named, rfl⟩)) enters (.inl rfl) fun one => ?_
  · simp only [Counts, owner, owner_eq_zero _ enters owns, Pc.extra, true_and]
    omega
  · dsimp only at one
    omega

/-- `LockCount` is incremented, and the section was not free. -/
theorem counted_inv (here : (s.threads t).pc = p) (places : p.place = .done ∧ pc.place = .done)
    (extra : p.extra = 0 ∧ pc.extra = 1) (owns : pc.owns = p.owns) (named : pc.named = p.named)
    (waits : p.waits = false) (own : (⟨pc, (s.threads t).enters⟩ : Thread ι).Fits s.crit.recursionCount)
    (held : s.crit.lockCount ≠ -1) (room : s.crit.lockCount + 1 < 2 ^ 31) :
    Inv (s.set t { s.crit with lockCount := int32 (s.crit.lockCount + 1) } pc (s.threads t).enters) := by
  subst here
  have count := inv.count
  have small := inv.small
  have more : int32 (s.crit.lockCount + 1) = s.crit.lockCount + 1 := int32_eq (by omega)
  refine inv.outside places.1 (.inl places.2) ?_ (renames_same inv (by simp only [Thread.Named, named])) own
    (.inl rfl) fun one word => .inl ⟨one, word, by rw [waits]; nofun⟩
  simp only [Counts, shares, owner, extra, owns, more, true_and]
  omega

/-- The owner has left, but not as often as it has entered. -/
theorem unnested_inv (here : (s.threads t).pc = .unnesting) :
    Inv (s.set t { s.crit with lockCount := int32 (s.crit.lockCount - 1) } .idle (s.threads t).enters) := by
  have count := inv.count
  have small := inv.small
  have enters : 0 < (s.threads t).enters := inv.fits_at here
  have mine := shares_le s t
  have less : int32 (s.crit.lockCount - 1) = s.crit.lockCount - 1 := int32_eq (by omega)
  have owner : (s.threads t).owner = 1 := if_pos (.inl enters)
  have still : (⟨.idle, (s.threads t).enters⟩ : Thread ι).owner = 1 := if_pos (.inl enters)
  refine inv.outside (congrArg Pc.place here) (.inl rfl) ?_
    (.inl ⟨.inl enters, (inv.named t).mpr (.inl enters)⟩) trivial (.inl rfl)
    fun one word => .inl ⟨one, word, by rw [here]; nofun⟩
  simp only [Counts, shares, owner, still, here, Pc.extra, less, true_and] at mine ⊢
  omega

/-- The owner has left for the last time. If nobody waits, then the section is free. -/
theorem released_inv (here : (s.threads t).pc = .decrementing) :
    Inv (s.set t { s.crit with lockCount := int32 (s.crit.lockCount - 1) }
      (if int32 (s.crit.lockCount - 1) ≥ 0 then .unwaiting else .idle) (s.threads t).enters) := by
  have count := inv.count
  have units := inv.units
  have small := inv.small
  have enters : (s.threads t).enters = 0 := inv.fits_at here
  have also := owner_le s t
  have owner : (s.threads t).owner = 1 := if_pos (.inr (by rw [here]; rfl))
  have place : s.place t = .done := congrArg Pc.place here
  have unnamed : ¬(s.threads t).Named := not_named _ enters (by rw [here]; rfl)
  rw [show int32 (s.crit.lockCount - 1) = s.crit.lockCount - 1 from int32_eq (by omega)]
  split_ifs with waited
  · have still : (⟨.unwaiting, (s.threads t).enters⟩ : Thread ι).owner = 1 := if_pos (.inr rfl)
    refine inv.outside place (.inl rfl) ?_ (.inr (.inr ⟨not_named _ enters rfl, unnamed, rfl⟩)) enters
      (.inl rfl) fun one => ?_
    · simp only [Counts, shares, owner, still, here, Pc.extra, true_and]
      omega
    · dsimp only at one
      omega
  · have none := owner_eq_zero (⟨.idle, (s.threads t).enters⟩ : Thread ι) enters rfl
    refine inv.outside place (.inl rfl) ?_ (.inr (.inr ⟨not_named _ enters rfl, unnamed, rfl⟩)) trivial
      (.inl rfl) fun one => ?_
    · simp only [Counts, shares, owner, none, here, Pc.extra, true_and]
      omega
    · dsimp only at one
      omega

/-- A thread that waits takes the section out of the semaphore. -/
theorem taken_inv (here : (s.threads t).pc = p)
    (waits : p.place = .done ∧ p.part = (1, false, false))
    (enters : (s.threads t).enters = 0) (one : s.crit.semaphore = 1) :
    Inv (s.set t { s.crit with semaphore := 0 } .owning (s.threads t).enters) := by
  subst here
  simp only [Pc.part, Prod.mk.injEq] at waits
  obtain ⟨place, extra, owns, named⟩ := waits
  have small := inv.small
  have owner : (⟨.owning, (s.threads t).enters⟩ : Thread ι).owner = 1 := if_pos (.inr rfl)
  refine inv.outside place (.inl rfl) ?_
    (.inr (.inr ⟨not_named _ enters rfl, not_named _ enters named, rfl⟩)) enters (.inl rfl) nofun
  simp only [Counts, shares, owner, owner_eq_zero _ enters owns, extra, one, true_and,
    show (Pc.owning : Pc ι).extra = 1 from rfl]
  omega

/-- The section is handed over. -/
theorem handed_inv (here : (s.threads t).pc = .unwaiting) (zero : s.crit.semaphore = 0)
    (next : (s.crit.handle = true ∧ pc = .idle) ∨ pc = .waking .locking) :
    Inv (s.set t { s.crit with semaphore := 1 } pc (s.threads t).enters) := by
  have small := inv.small
  have enters : (s.threads t).enters = 0 := inv.fits_at here
  have owner : (s.threads t).owner = 1 := if_pos (.inr (by rw [here]; rfl))
  have facts : pc.extra = 0 ∧ pc.owns = false ∧ pc.named = false ∧ pc.place.Early ∧
      (⟨pc, (s.threads t).enters⟩ : Thread ι).Fits s.crit.recursionCount := by
    obtain ⟨-, rfl⟩ | rfl := next
    · exact ⟨rfl, rfl, rfl, .inl rfl, trivial⟩
    · exact ⟨rfl, rfl, rfl, .inr (.inr ⟨_, _, rfl⟩), trivial⟩
  obtain ⟨extra, owns, named, early, own⟩ := facts
  have none := owner_eq_zero (⟨pc, (s.threads t).enters⟩ : Thread ι) enters owns
  refine inv.outside (congrArg Pc.place here) early ?_
    (.inr (.inr ⟨not_named _ enters named, not_named _ enters (by rw [here]; rfl), rfl⟩)) own (.inl rfl)
    fun _ word => ?_
  · simp only [Counts, shares, owner, none, here, extra, zero, true_and,
      show (Pc.unwaiting : Pc ι).extra = 0 from rfl]
    omega
  · obtain ⟨handle, -⟩ | rfl := next
    · rw [handle] at word
      nomatch word
    · exact .inr (.inl rfl)

/-- What the owner does with its own fields. -/
theorem owned_inv {owningThread : Option ι} (here : (s.threads t).pc = p)
    (places : p.place = .done ∧ pc.place = .done) (waits : p.waits = false)
    (before : (s.threads t).owner = 1) (after : (⟨pc, enters⟩ : Thread ι).owner = 1)
    (shares : enters + pc.extra = (s.threads t).enters + p.extra)
    (recursion : recursionCount = enters ∧ recursionCount < 2 ^ 31)
    (renames : Renames s t ⟨pc, enters⟩ owningThread)
    (own : (⟨pc, enters⟩ : Thread ι).Fits recursionCount) :
    Inv (s.set t { s.crit with recursionCount, owningThread } pc enters) := by
  subst here
  have small := inv.small
  have entered := inv.recursion_eq before
  refine inv.outside places.1 (.inl places.2) ?_ renames own (.inr before)
    fun one word => .inl ⟨one, word, by rw [waits]; nofun⟩
  simp only [Counts, Thread.shares, before, after, and_true]
  omega

end Invariant

end FreeWindows.Rtl.CriticalSection
