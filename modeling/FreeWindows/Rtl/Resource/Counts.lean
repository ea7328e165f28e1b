/-
**The counts of a resource.**

What relates the fields of the lock and its semaphores to the threads. Every step changes one thread, so
`next_counts` says what becomes of the counts; the steps that acquire or release the lock, wait or are
woken up are then questions about numbers.
-/

import FreeWindows.Lib.Threads
import FreeWindows.Rtl.Resource.Model

namespace FreeWindows.Rtl.Resource

open Lib Function List RwLock Pc Nat

namespace Pc

/-- The thread is inside of the critical section. -/
def isInside : Pc → Bool
  | inside _ | leaving | parking _ => true
  | _ => false

/-- One for a thread that waits, or is about to. -/
def blocked (mode : Mode) : Pc → Nat
  | parking m | waiting m => if m = mode then 1 else 0
  | _ => 0

/-- One for a thread that was woken up and has not looked at the lock again. -/
def retries (mode : Mode) : Pc → Nat
  | entering op | inside op => if op = .acquire mode .again then 1 else 0
  | _ => 0

/-- The kind of the acquisition that the thread looks at the lock for. -/
def acquires : Pc → Option Mode
  | inside (.acquire mode _) => some mode
  | _ => none

/-- The operation of a thread. -/
def op : Pc → Option Op
  | entering op | inside op => some op
  | _ => none

end Pc

namespace State

variable {ι : Type} [Fintype ι] (s : State ι)

/-- The number of all acquisitions that are not released. -/
def held : Nat := tally (fun thread => thread.holds.length) s.threads

def heldExclusive : Nat := tally (fun thread => thread.holds.count .exclusive) s.threads

def blocked (mode : Mode) : Nat := tally (fun thread => thread.pc.blocked mode) s.threads

/-- The threads that were woken up and have not looked at the lock again. -/
def retrying (mode : Mode) : Nat := tally (fun thread => thread.pc.retries mode) s.threads

end State

section Invariant

variable {ι : Type} [Fintype ι]

/-- The lock is held exclusively. -/
structure Owned (s : State ι) : Prop where
  negative : s.rwl.numberActive < 0
  owner : ∃ t, s.rwl.owningThread = some t ∧ s.rwl.numberActive = -((s.threads t).holds.length : Int) ∧
    s.held = (s.threads t).holds.length
  ungranted : s.rwl.sharedSemaphore + s.retrying .shared = 0

/-- The lock is free or shared. The threads that it was granted to share it already. -/
structure Open (s : State ι) : Prop where
  number : s.rwl.numberActive = s.held + (s.rwl.sharedSemaphore + s.retrying .shared)
  nobody : s.heldExclusive = 0

structure Inv (s : State ι) : Prop where
  entered : ∀ t, s.rwl.rtlCs = some t ↔ (s.threads t).pc.isInside = true
  releases : ∀ t mode, (s.threads t).pc.op = some (.release mode) → mode ∈ (s.threads t).holds
  exclusiveBlocked : s.rwl.exclusiveSemaphore + s.rwl.exclusiveWaiters = s.blocked .exclusive
  sharedBlocked : s.rwl.sharedSemaphore + s.rwl.sharedWaiters = s.blocked .shared
  exclusiveRoom : s.blocked .exclusive ≤ 65535
  sharedRoom : s.blocked .shared ≤ 65535
  small : s.rwl.numberActive.natAbs < 2 ^ 31
  active : Owned s ∨ Open s
  exclusivePending : s.rwl.exclusiveWaiters ≠ 0 →
    s.rwl.numberActive ≠ 0 ∨ 0 < s.rwl.exclusiveSemaphore + s.retrying .exclusive
  sharedPending : s.rwl.sharedWaiters ≠ 0 →
    s.rwl.numberActive < 0 ∨ 0 < s.rwl.exclusiveSemaphore + s.retrying .exclusive ∨
      (0 < s.rwl.numberActive ∧ s.rwl.exclusiveWaiters ≠ 0)

/-- The numbers of the threads at the semaphores and of those woken up, and why those that wait are woken
up. -/
def Numbers (rwl : RwLock ι) (exclusive shared woken : Nat) : Prop :=
  rwl.exclusiveSemaphore + rwl.exclusiveWaiters = exclusive ∧
    rwl.sharedSemaphore + rwl.sharedWaiters = shared ∧ exclusive ≤ 65535 ∧ shared ≤ 65535 ∧
    rwl.numberActive.natAbs < 2 ^ 31 ∧
    (rwl.exclusiveWaiters ≠ 0 → rwl.numberActive ≠ 0 ∨ 0 < rwl.exclusiveSemaphore + woken) ∧
    (rwl.sharedWaiters ≠ 0 → rwl.numberActive < 0 ∨ 0 < rwl.exclusiveSemaphore + woken ∨
      (0 < rwl.numberActive ∧ rwl.exclusiveWaiters ≠ 0))

variable {s : State ι} {t : ι} {p pc : Pc} {holds : List Mode} {mode : Mode} {rwl : RwLock ι}

theorem Inv.numbers (inv : Inv s) :
    Numbers s.rwl (s.blocked .exclusive) (s.blocked .shared) (s.retrying .exclusive) :=
  ⟨inv.exclusiveBlocked, inv.sharedBlocked, inv.exclusiveRoom, inv.sharedRoom, inv.small,
    inv.exclusivePending, inv.sharedPending⟩

/-- The critical section after a step. -/
def Enters (s : State ι) (t : ι) (pc : Pc) (rtlCs : Option ι) : Prop :=
  (rtlCs = some t ↔ pc.isInside = true) ∧ ∀ u, u ≠ t → (rtlCs = some u ↔ s.rwl.rtlCs = some u)

theorem Inv.stays (inv : Inv s) (here : (s.threads t).pc = p) (same : pc.isInside = p.isInside) :
    Enters s t pc s.rwl.rtlCs := by
  refine ⟨?_, fun _ _ => Iff.rfl⟩
  rw [inv.entered t, here, same]

theorem holds_le_held (u : ι) : (s.threads u).holds.length ≤ s.held :=
  le_tally (fun thread => thread.holds.length) s.threads u

theorem heldExclusive_le_held (s : State ι) : s.heldExclusive ≤ s.held :=
  Finset.sum_le_sum fun _ _ => count_le_length ..

theorem retries_le (here : (s.threads t).pc = p) : p.retries .shared ≤ s.retrying .shared :=
  here ▸ le_tally (fun thread => thread.pc.retries .shared) s.threads t

theorem alone_of_held {o : ι} (all : s.held = (s.threads o).holds.length) (other : t ≠ o) :
    (s.threads t).holds = [] := by
  have two := add_le_tally (fun thread => thread.holds.length) s.threads other
  simp only [State.held] at all
  exact length_eq_zero_iff.mp (by omega)

theorem Inv.owned (inv : Inv s) (taken : s.rwl.numberActive < 0) : Owned s :=
  inv.active.resolve_right fun opened => by
    have := opened.number
    omega

variable [DecidableEq ι]

omit [Fintype ι] in
theorem set_self {thread : Thread} : (s.set t rwl thread).threads t = thread := update_self ..

omit [Fintype ι] in
theorem set_other {u : ι} (other : u ≠ t) : (s.set t rwl ⟨pc, holds⟩).threads u = s.threads u :=
  update_of_ne other ..

theorem set_held : (s.set t rwl ⟨pc, holds⟩).held + (s.threads t).holds.length = s.held + holds.length :=
  tally_update _ s.threads t _

theorem set_heldExclusive : (s.set t rwl ⟨pc, holds⟩).heldExclusive + (s.threads t).holds.count .exclusive =
    s.heldExclusive + holds.count .exclusive :=
  tally_update _ s.threads t _

theorem set_blocked (here : (s.threads t).pc = p) (m : Mode) :
    (s.set t rwl ⟨pc, holds⟩).blocked m + p.blocked m = s.blocked m + pc.blocked m :=
  here ▸ tally_update _ s.threads t _

theorem set_retrying (here : (s.threads t).pc = p) (m : Mode) :
    (s.set t rwl ⟨pc, holds⟩).retrying m + p.retries m = s.retrying m + pc.retries m :=
  here ▸ tally_update _ s.threads t _

/-- **A step of one thread.** -/
theorem Inv.next (inv : Inv s) (here : (s.threads t).pc = p) (enters : Enters s t pc rwl.rtlCs)
    (releases : ∀ mode, pc.op = some (.release mode) → mode ∈ holds)
    (numbers : ∀ e i w, e + p.blocked .exclusive = s.blocked .exclusive + pc.blocked .exclusive →
      i + p.blocked .shared = s.blocked .shared + pc.blocked .shared →
      w + p.retries .exclusive = s.retrying .exclusive + pc.retries .exclusive → Numbers rwl e i w)
    (active : Owned (s.set t rwl ⟨pc, holds⟩) ∨ Open (s.set t rwl ⟨pc, holds⟩)) :
    Inv (s.set t rwl ⟨pc, holds⟩) := by
  obtain ⟨exclusive, shared, exclusiveRoom, sharedRoom, small, exclusivePending, sharedPending⟩ :=
    numbers _ _ _ (set_blocked here .exclusive) (set_blocked here .shared) (set_retrying here .exclusive)
  refine ⟨fun u => ?_, fun u => ?_, exclusive, shared, exclusiveRoom, sharedRoom, small, active,
    exclusivePending, sharedPending⟩
  · by_cases same : u = t
    · rw [same, set_self]
      exact enters.1
    · rw [set_other same, ← inv.entered u]
      exact enters.2 u same
  · by_cases same : u = t
    · rw [same, set_self]
      exact releases
    · rw [set_other same]
      exact inv.releases u

theorem next_owned (here : (s.threads t).pc = p) (owner : rwl.owningThread = some t)
    (number : rwl.numberActive = -(holds.length : Int)) (negative : rwl.numberActive < 0)
    (all : s.held = (s.threads t).holds.length)
    (ungranted : rwl.sharedSemaphore + s.retrying .shared + pc.retries .shared = p.retries .shared) :
    Owned (s.set t rwl ⟨pc, holds⟩) := by
  have held := @set_held ι _ s t pc holds rwl _
  have retrying := @set_retrying ι _ s t p pc holds rwl _ here .shared
  refine ⟨negative, ⟨t, owner, ?_, ?_⟩, ?_⟩
  · rw [set_self]
    exact number
  · rw [set_self]
    dsimp only
    omega
  · rw [set_rwl]
    omega

theorem next_open (here : (s.threads t).pc = p)
    (number : rwl.numberActive + (s.threads t).holds.length + p.retries .shared =
      s.held + holds.length + rwl.sharedSemaphore + s.retrying .shared + pc.retries .shared)
    (nobody : (s.set t rwl ⟨pc, holds⟩).heldExclusive = 0) : Open (s.set t rwl ⟨pc, holds⟩) := by
  have held := @set_held ι _ s t pc holds rwl _
  have retrying := @set_retrying ι _ s t p pc holds rwl _ here .shared
  refine ⟨?_, nobody⟩
  rw [set_rwl]
  omega

/-- Nobody acquires or releases the lock. -/
theorem Inv.next_active (inv : Inv s) (here : (s.threads t).pc = p)
    (fields : rwl.numberActive = s.rwl.numberActive ∧ rwl.owningThread = s.rwl.owningThread)
    (granted : rwl.sharedSemaphore + pc.retries .shared = s.rwl.sharedSemaphore + p.retries .shared) :
    Owned (s.set t rwl ⟨pc, (s.threads t).holds⟩) ∨ Open (s.set t rwl ⟨pc, (s.threads t).holds⟩) := by
  obtain ⟨number, owner⟩ := fields
  have retrying := @set_retrying ι _ s t p pc (s.threads t).holds rwl _ here .shared
  refine inv.active.imp (fun owned => ⟨?_, ?_, ?_⟩) fun opened => next_open here ?_ ?_
  · rw [set_rwl, number]
    exact owned.negative
  · have holds : ∀ u, ((s.set t rwl ⟨pc, (s.threads t).holds⟩).threads u).holds = (s.threads u).holds := by
      intro u
      by_cases same : u = t
      · rw [same, set_self]
      · rw [set_other same]
    simp only [set_rwl, number, owner, holds, add_right_cancel set_held]
    exact owned.owner
  · have before := owned.ungranted
    rw [set_rwl]
    omega
  · have before := opened.number
    omega
  · exact (add_right_cancel set_heldExclusive).trans opened.nobody

/-- A step after which all counts are the same. -/
theorem goto_inv {rtlCs : Option ι} (inv : Inv s) (here : (s.threads t).pc = p) (enters : Enters s t pc rtlCs)
    (releases : ∀ mode, pc.op = some (.release mode) → mode ∈ (s.threads t).holds)
    (same : ∀ m, pc.blocked m = p.blocked m ∧ pc.retries m = p.retries m) :
    Inv (s.set t { s.rwl with rtlCs := rtlCs } ⟨pc, (s.threads t).holds⟩) := by
  refine inv.next here enters releases ?_ (inv.next_active here ⟨rfl, rfl⟩ (by rw [(same _).2]))
  intro e i w exclusive shared woken
  rw [(same _).1, add_right_cancel_iff] at exclusive shared
  rw [(same _).2, add_right_cancel_iff] at woken
  rw [exclusive, shared, woken]
  exact inv.numbers

/-! ### Steps inside of the critical section -/

variable {attempt : Attempt}

/-- The thread is the owner from now on, or once more. -/
theorem owned_inv {number : Int} (inv : Inv s)
    (here : (s.threads t).pc = .inside (.acquire mode attempt))
    (fields : rwl = { s.rwl with numberActive := number, owningThread := some t })
    (ungranted : s.rwl.sharedSemaphore + s.retrying .shared = 0)
    (all : s.held = (s.threads t).holds.length) (small : number.natAbs < 2 ^ 31)
    (counts : number = -((s.threads t).holds.length + 1 : Int)) :
    Inv (s.set t rwl ⟨.leaving, mode :: (s.threads t).holds⟩) := by
  subst fields
  obtain ⟨exclusive, shared, exclusiveRoom, sharedRoom, -⟩ := inv.numbers
  have negative : number < 0 := by omega
  have mine := retries_le here
  refine inv.next here (inv.stays here rfl) nofun ?_ (.inl (next_owned here rfl counts negative all ?_))
  · rintro e i w rfl rfl -
    exact ⟨exclusive, shared, exclusiveRoom, sharedRoom, small, fun _ => .inl negative.ne,
      fun _ => .inl negative⟩
  · dsimp only [retries] at mine ⊢
    omega

/-- The lock is shared with one more thread. If it was granted to this thread, it is counted already. -/
theorem shared_inv {number : Int} (inv : Inv s)
    (here : (s.threads t).pc = .inside (.acquire .shared attempt)) (opened : Open s)
    (small : number.natAbs < 2 ^ 31)
    (counts : number + (inside (.acquire .shared attempt)).retries .shared = s.rwl.numberActive + 1) :
    Inv (s.set t { s.rwl with numberActive := number } ⟨.leaving, .shared :: (s.threads t).holds⟩) := by
  obtain ⟨exclusive, shared, exclusiveRoom, sharedRoom, -, -, pending⟩ := inv.numbers
  have before := opened.number
  have mine := retries_le here
  have positive : 0 < number := by omega
  refine inv.next here (inv.stays here rfl) nofun ?_ (.inr (next_open here ?_ ?_))
  · rintro e i w rfl rfl woken
    refine ⟨exclusive, shared, exclusiveRoom, sharedRoom, small, fun _ => .inl positive.ne', ?_⟩
    change w = s.retrying .exclusive at woken
    dsimp only
    omega
  · rw [length_cons]
    dsimp only [retries] at counts ⊢
    omega
  · refine (add_right_cancel (set_heldExclusive.trans ?_)).trans opened.nobody
    rw [count_cons_of_ne (by decide)]

theorem wait_exclusive (inv : Inv s) (here : (s.threads t).pc = .inside (.acquire .exclusive attempt))
    (taken : s.rwl.numberActive ≠ 0) (room : s.blocked .exclusive < 65535) :
    Inv (s.set t { s.rwl with exclusiveWaiters := uint32 (s.rwl.exclusiveWaiters + 1) }
      ⟨.parking .exclusive, (s.threads t).holds⟩) := by
  obtain ⟨exclusive, shared, -, sharedRoom, small, -⟩ := inv.numbers
  rw [uint32, mod_eq_of_lt (by omega)]
  refine inv.next here (inv.stays here rfl) nofun ?_ (inv.next_active here ⟨rfl, rfl⟩ rfl)
  rintro e i w rfl rfl -
  refine ⟨?_, shared, room, sharedRoom, small, fun _ => .inl taken, ?_⟩
  · exact congrArg (· + 1) exclusive
  · dsimp only
    omega

theorem wait_shared (inv : Inv s) (here : (s.threads t).pc = .inside (.acquire .shared attempt))
    (taken : s.rwl.numberActive < 0) (room : s.blocked .shared < 65535) :
    Inv (s.set t { s.rwl with sharedWaiters := uint32 (s.rwl.sharedWaiters + 1) }
      ⟨.parking .shared, (s.threads t).holds⟩) := by
  obtain ⟨exclusive, shared, exclusiveRoom, -, small, -⟩ := inv.numbers
  -- nobody is granted a lock that somebody owns
  have ungranted := (Nat.add_eq_zero_iff.mp (inv.owned taken).ungranted).2
  have mine := retries_le here
  rw [uint32, mod_eq_of_lt (by omega)]
  refine inv.next here (inv.stays here rfl) nofun ?_ (inv.next_active here ⟨rfl, rfl⟩ ?_)
  · rintro e i w rfl rfl -
    exact ⟨exclusive, congrArg (· + 1) shared, exclusiveRoom, room, small, fun _ => .inl taken.ne,
      fun _ => .inl taken⟩
  · rw [le_zero.mp (mine.trans_eq ungranted)]
    rfl

theorem releaseSemaphore_eq {count n : Nat} (room : count + n ≤ 65535) :
    releaseSemaphore count n = count + n :=
  if_neg (not_lt.mpr room)

section Release

variable (inv : Inv s) (here : (s.threads t).pc = .inside (.release mode))
include inv here

/-- What a release leads to, in numbers. -/
theorem release_inv (entered : rwl.rtlCs = s.rwl.rtlCs)
    (numbers : Numbers rwl (s.blocked .exclusive) (s.blocked .shared) (s.retrying .exclusive))
    (active : Owned (s.set t rwl ⟨.leaving, (s.threads t).holds.erase mode⟩) ∨
      Open (s.set t rwl ⟨.leaving, (s.threads t).holds.erase mode⟩)) :
    Inv (s.set t rwl ⟨.leaving, (s.threads t).holds.erase mode⟩) := by
  refine inv.next here (entered ▸ inv.stays here rfl) nofun ?_ active
  rintro e i w rfl rfl rfl
  exact numbers

omit [DecidableEq ι] in
theorem Inv.length_erase : ((s.threads t).holds.erase mode).length + 1 = (s.threads t).holds.length :=
  length_erase_add_one (inv.releases t mode (by rw [here]; rfl))

theorem released_open (entered : rwl.rtlCs = s.rwl.rtlCs)
    (numbers : Numbers rwl (s.blocked .exclusive) (s.blocked .shared) (s.retrying .exclusive))
    (number : rwl.numberActive + 1 = s.held + rwl.sharedSemaphore + s.retrying .shared)
    (nobody : (s.set t rwl ⟨.leaving, (s.threads t).holds.erase mode⟩).heldExclusive = 0) :
    Inv (s.set t rwl ⟨.leaving, (s.threads t).holds.erase mode⟩) := by
  have shorter := inv.length_erase here
  refine release_inv inv here entered numbers (.inr (next_open here ?_ nobody))
  change _ + 0 = _ + 0
  omega

theorem release_open (opened : Open s) :
    Inv (s.set t s.rwl.release ⟨.leaving, (s.threads t).holds.erase mode⟩) := by
  have numbers := inv.numbers
  have before := opened.number
  have shorter := inv.length_erase here
  have mine := @holds_le_held ι _ s t
  have nobody (rwl : RwLock ι) :
      (s.set t rwl ⟨.leaving, (s.threads t).holds.erase mode⟩).heldExclusive = 0 := by
    have counted := @set_heldExclusive ι _ s t .leaving ((s.threads t).holds.erase mode) rwl _
    have less : ((s.threads t).holds.erase mode).count .exclusive ≤ (s.threads t).holds.count .exclusive :=
      (erase_sublist ..).count_le _
    have none := opened.nobody
    omega
  dsimp only [Numbers] at numbers
  simp only [RwLock.release, if_pos (show s.rwl.numberActive > 0 by omega)]
  split
  · simp only [wakeExclusive, releaseSemaphore_eq (show s.rwl.exclusiveSemaphore + 1 ≤ 65535 by omega)]
    refine released_open inv here rfl ?_ ?_ (nobody _) <;> dsimp only [Numbers]
    · omega
    · omega
  · refine released_open inv here rfl ?_ ?_ (nobody _) <;> dsimp only [Numbers]
    · omega
    · omega

end Release

theorem release_owned (inv : Inv s) (here : (s.threads t).pc = .inside (.release mode)) (owned : Owned s) :
    Inv (s.set t s.rwl.release ⟨.leaving, (s.threads t).holds.erase mode⟩) := by
  have numbers := inv.numbers
  have shorter := inv.length_erase here
  obtain ⟨o, owner, number, all⟩ := owned.owner
  have negative := owned.negative
  have granted := owned.ungranted
  obtain rfl : o = t := by
    by_contra different
    rw [alone_of_held all (Ne.symm different)] at shorter
    nomatch shorter
  have last (rwl : RwLock ι) (zero : s.rwl.numberActive + 1 = 0) :
      (s.set o rwl ⟨.leaving, (s.threads o).holds.erase mode⟩).heldExclusive = 0 := by
    have held := @set_held ι _ s o .leaving ((s.threads o).holds.erase mode) rwl _
    refine le_zero.mp ((heldExclusive_le_held _).trans ?_)
    omega
  dsimp only [Numbers] at numbers
  simp only [RwLock.release, if_neg (show ¬s.rwl.numberActive > 0 by omega), if_pos negative]
  split_ifs with zero waiting shared
  · simp only [wakeExclusive, releaseSemaphore_eq (show s.rwl.exclusiveSemaphore + 1 ≤ 65535 by omega)]
    refine released_open inv here rfl ?_ ?_ (last _ zero) <;> dsimp only [Numbers]
    · omega
    · omega
  · -- the lock is granted to all threads that wait to share it
    simp only [releaseSemaphore_eq (show s.rwl.sharedSemaphore + s.rwl.sharedWaiters ≤ 65535 by omega),
      int32_eq (show (s.rwl.sharedWaiters : Int).natAbs < 2 ^ 31 by omega)]
    refine released_open inv here rfl ?_ ?_ (last _ zero) <;> dsimp only [Numbers]
    · omega
    · omega
  · refine released_open inv here rfl ?_ ?_ (last _ zero) <;> dsimp only [Numbers]
    · omega
    · omega
  · refine release_inv inv here rfl ?_ (.inl (next_owned here owner ?_ ?_ all granted)) <;>
      dsimp only [Numbers]
    · omega
    · omega
    · omega

theorem woken_inv (inv : Inv s) (here : (s.threads t).pc = .waiting mode)
    (signaled : s.rwl.semaphore mode ≠ 0) :
    Inv (s.set t (s.rwl.consume mode) ⟨.entering (.acquire mode .again), (s.threads t).holds⟩) := by
  have numbers := inv.numbers
  cases mode with
  | exclusive =>
    refine inv.next here (inv.stays here rfl) nofun ?_ (inv.next_active here ⟨rfl, rfl⟩ rfl)
    intro e i w exclusive shared woken
    simp only [Numbers, semaphore, consume, blocked, retries, reduceIte, reduceCtorEq] at *
    omega
  | shared =>
    refine inv.next here (inv.stays here rfl) nofun ?_ (inv.next_active here ⟨rfl, rfl⟩ ?_)
    · intro e i w exclusive shared woken
      simp only [Numbers, semaphore, consume, blocked, retries, reduceIte, reduceCtorEq] at *
      omega
    · exact Nat.sub_add_cancel (Nat.pos_of_ne_zero signaled)

end Invariant

end FreeWindows.Rtl.Resource
