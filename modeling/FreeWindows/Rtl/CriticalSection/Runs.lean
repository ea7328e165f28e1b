/-
**Runs of a critical section.**

`criticalSection_sound`: in every interleaving in which `LockCount` and `RecursionCount` do not overflow, at
most one thread owns the section, its recursion count is right, and a thread that waits for a free section
is not left asleep. `enter_forever` is what happens otherwise: one thread enters `2^31` times.
-/

import FreeWindows.Lib.Ensures
import FreeWindows.Rtl.CriticalSection.Counts

namespace FreeWindows.Rtl.CriticalSection

open Lib Futex State

section Steps

variable {ι : Type} [Fintype ι] [DecidableEq ι] {s s' : State ι} {t : ι}

/-- A thread is about to increment a counter beyond its largest value. -/
def State.overflows (s : State ι) : Action ι → Bool
  | .run t =>
    match (s.threads t).pc with
    | .incrementing | .tryIncrementing => s.crit.lockCount + 1 ≥ 2 ^ 31
    | .recursed old => old + 1 ≥ 2 ^ 31
    | _ => false
  | _ => false

variable (inv : Inv s)
include inv

variable {old : Int} {p : Pc ι}

/-- The owner counts its first enter, or one more. -/
theorem entered_inv (here : (s.threads t).pc = .recursed old) (room : old + 1 < 2 ^ 31) :
    Inv (s.set t { s.crit with recursionCount := int32 (old + 1) } .idle ((s.threads t).enters + 1)) := by
  obtain ⟨enters, rfl⟩ : 0 < (s.threads t).enters ∧ old = s.crit.recursionCount := inv.fits_at here
  have owner : (s.threads t).owner = 1 := if_pos (.inl enters)
  have recursion := inv.recursion_eq owner
  have more : int32 (s.crit.recursionCount + 1) = s.crit.recursionCount + 1 := int32_eq (by omega)
  refine owned_inv inv here ⟨rfl, rfl⟩ rfl owner (if_pos (.inl (Nat.succ_pos _))) rfl ?_
    (.inl ⟨.inl (Nat.succ_pos _), (inv.named t).mpr (.inl enters)⟩) trivial
  omega

theorem left_inv (here : (s.threads t).pc = .left old) :
    Inv (s.set t { s.crit with recursionCount := int32 (old - 1) }
      (if int32 (old - 1) ≠ 0 then .testing else .clearing) ((s.threads t).enters - 1)) := by
  obtain ⟨enters, rfl⟩ : 0 < (s.threads t).enters ∧ old = s.crit.recursionCount := inv.fits_at here
  have owner : (s.threads t).owner = 1 := if_pos (.inl enters)
  have recursion := inv.recursion_eq owner
  have small := inv.small
  have named : s.crit.owningThread = some t := (inv.named t).mpr (.inl enters)
  have number : s.crit.recursionCount - 1 = ((s.threads t).enters - 1 : Nat) ∧
      s.crit.recursionCount - 1 < 2 ^ 31 := by omega
  rw [show int32 (s.crit.recursionCount - 1) = s.crit.recursionCount - 1 from int32_eq (by omega)]
  split_ifs with nested
  · have some : 0 < (s.threads t).enters - 1 := by omega
    exact owned_inv inv here ⟨rfl, rfl⟩ rfl owner (if_pos (.inl some)) (Nat.sub_add_cancel enters) number
      (.inl ⟨.inl some, named⟩) some
  · exact owned_inv inv here ⟨rfl, rfl⟩ rfl owner (if_pos (.inr rfl)) (Nat.sub_add_cancel enters) number
      (.inl ⟨.inr rfl, named⟩) (show (s.threads t).enters - 1 = 0 by omega)

omit [DecidableEq ι] in
/-- Who is named and about to enter has entered. -/
theorem enters_of_named (here : (s.threads t).pc = p) (unnamed : p.named = false)
    (own : s.crit.owningThread = some t) : 0 < (s.threads t).enters := by
  obtain enters | named := (inv.named t).mp own
  · exact enters
  · rw [here, unnamed] at named
    nomatch named

theorem comparing_inv (here : (s.threads t).pc = .comparing) :
    Inv (s.set t s.crit (if s.crit.owningThread = some t then .recursing else s.waitPc)
      (s.threads t).enters) := by
  split_ifs with own
  · exact goto_inv inv here rfl (.inl rfl) rfl (enters_of_named inv here rfl own) nofun
  · have enters : (s.threads t).enters = 0 := by
      by_contra some
      exact own ((inv.named t).mpr (.inl (Nat.pos_of_ne_zero some)))
    unfold waitPc
    split_ifs
    · exact goto_inv inv here rfl (.inl rfl) rfl enters nofun
    · exact goto_inv inv here rfl (.inl rfl) rfl enters nofun

/-- What a thread does next: no exception is raised. -/
theorem run_inv (t : ι) (room : s.overflows (.run t) = false) : Returns (s.run t) Inv := by
  have count := inv.count
  have units := inv.units
  have recursion := inv.recursion
  simp only [overflows] at room
  unfold run
  dsimp only
  split
  · exact inv
  · next here =>
    split_ifs
    · exact goto_inv inv here rfl (.inl rfl) rfl trivial nofun
    · exact goto_inv inv here rfl (.inl rfl) rfl trivial nofun
  · next here =>
    split_ifs
    · exact goto_inv inv here rfl (.inl rfl) rfl trivial nofun
    · exact goto_inv inv here rfl (.inl rfl) rfl trivial nofun
  · next here =>
    split_ifs
    · exact goto_inv inv here rfl (.inl rfl) rfl trivial nofun
    · exact goto_inv inv here rfl (.inl rfl) rfl trivial nofun
  · next here =>
    split_ifs with free
    · exact acquired_inv inv here rfl rfl rfl free
    · exact goto_inv inv here rfl (.inl rfl) rfl trivial nofun
  · next here =>
    have room : s.crit.lockCount + 1 < 2 ^ 31 := by simpa [here] using room
    have more : int32 (s.crit.lockCount + 1) = s.crit.lockCount + 1 := int32_eq (by omega)
    split_ifs with free
    · rw [free]
      exact acquired_inv inv here rfl rfl rfl (by omega)
    · exact counted_inv inv here ⟨rfl, rfl⟩ ⟨rfl, rfl⟩ rfl rfl rfl trivial (by omega) room
  · next here => exact comparing_inv inv here
  · next here =>
    have fits : (s.threads t).enters = 0 := inv.fits_at here
    split_ifs with one
    · exact taken_inv inv here ⟨rfl, rfl⟩ fits one
    · exact goto_inv inv here rfl (.inr (.inl ⟨_, rfl⟩)) rfl fits fun _ => rfl
  · next pc here =>
    have fits : (s.threads t).enters = 0 := inv.fits_at here
    have compares : (Pc.waiting pc : Pc ι).place = .waits () .comparing →
        decide (s.crit.semaphore = 0) = true → s.crit.semaphore ≠ 1 := by
      intro _ zero one
      rw [one] at zero
      nomatch zero
    obtain ⟨queue, back | ⟨p, waits⟩⟩ := run_waits s.queue t (s.crit.semaphore = 0) () pc
    · rw [back]
      exact inv.futex here back ⟨rfl, rfl⟩ fits compares
    · rw [waits]
      exact inv.futex here waits ⟨rfl, rfl⟩ fits compares
  · next here =>
    split_ifs with some
    · have one : s.crit.semaphore = 1 := by omega
      rw [one]
      exact taken_inv inv here ⟨rfl, rfl⟩ (inv.fits_at here) one
    · exact inv
  · next here =>
    split_ifs with free
    · exact acquired_inv inv here rfl rfl rfl free
    · exact goto_inv inv here rfl (.inl rfl) rfl trivial nofun
  · next here =>
    split_ifs with own spins
    · exact goto_inv inv here rfl (.inl rfl) rfl (enters_of_named inv here rfl own) nofun
    · exact goto_inv inv here rfl (.inl rfl) rfl trivial nofun
    · exact goto_inv inv here rfl (.inl rfl) rfl trivial nofun
  · next here =>
    have fits : 0 < (s.threads t).enters := inv.fits_at here
    have mine := shares_le s t
    rw [here] at room
    rw [Thread.shares, here] at mine
    exact counted_inv inv here ⟨rfl, rfl⟩ ⟨rfl, rfl⟩ rfl rfl rfl fits (by omega) (by simpa using room)
  · next here =>
    have enters : (s.threads t).enters = 0 := inv.fits_at here
    have owner : (s.threads t).owner = 1 := if_pos (.inr (by rw [here]; rfl))
    exact owned_inv inv here ⟨rfl, rfl⟩ rfl owner (if_pos (.inr rfl)) rfl ⟨inv.recursion_eq owner, inv.small.2⟩
      (.inl ⟨.inr rfl, rfl⟩) enters
  · next here =>
    have enters : (s.threads t).enters = 0 := inv.fits_at here
    have named : (s.threads t).Named := .inr (by rw [here]; rfl)
    exact owned_inv inv here ⟨rfl, rfl⟩ rfl named.owner (if_pos (.inl (Nat.succ_pos _))) rfl
      ⟨by rw [enters]; rfl, by decide⟩ (.inl ⟨.inl (Nat.succ_pos _), (inv.named t).mpr named⟩) trivial
  · next here => exact goto_inv inv here rfl (.inl rfl) rfl ⟨inv.fits_at here, rfl⟩ (by rintro ⟨⟩)
  · next here =>
    rw [here] at room
    exact entered_inv inv here (by simpa using room)
  · next here => exact goto_inv inv here rfl (.inl rfl) rfl ⟨inv.fits_at here, rfl⟩ (by rintro ⟨⟩)
  · next here => exact left_inv inv here
  · next here =>
    have fits : 0 < (s.threads t).enters := inv.fits_at here
    have mine : _ ≤ s.entered := le_tally Thread.enters s.threads t
    rw [if_pos (show s.crit.recursionCount > 0 by omega)]
    exact goto_inv inv here rfl (.inl rfl) rfl fits (by rintro ⟨⟩)
  · next here => exact unnested_inv inv here
  · next here =>
    have enters : (s.threads t).enters = 0 := inv.fits_at here
    have named : (s.threads t).Named := .inr (by rw [here]; rfl)
    exact owned_inv inv here ⟨rfl, rfl⟩ rfl named.owner (if_pos (.inr rfl)) rfl
      ⟨inv.recursion_eq named.owner, inv.small.2⟩ (.inr (.inl ⟨not_named _ enters rfl, named, rfl⟩)) enters
  · next here => exact released_inv inv here
  · next here =>
    have mine := owner_le s t
    rw [show (s.threads t).owner = 1 from if_pos (.inr (by rw [here]; rfl))] at mine
    have zero : s.crit.semaphore = 0 := by omega
    rw [zero]
    split_ifs with handle full
    · exact absurd full (by decide)
    · exact handed_inv inv here zero (.inl ⟨handle, rfl⟩)
    · exact handed_inv inv here zero (.inr rfl)
  · next pc here =>
    obtain ⟨queue, back | ⟨p, wakes⟩⟩ := run_wakes s.queue t false () false pc
    · rw [back]
      exact inv.futex here back ⟨rfl, rfl⟩ trivial (by rintro ⟨⟩)
    · rw [wakes]
      exact inv.futex here wakes ⟨rfl, rfl⟩ trivial (by rintro ⟨⟩)

/-- Every step of the system: no exception is raised. -/
theorem step_inv (action : Action ι) (room : s.overflows action = false) :
    Returns (s.step action) Inv := by
  cases action with
  | run t => exact run_inv inv t room
  | enter t =>
    simp only [step]
    split_ifs with idle
    · exact goto_inv inv idle rfl (.inl rfl) rfl trivial nofun
    · exact inv
  | tryEnter t =>
    simp only [step]
    split_ifs with idle
    · exact goto_inv inv idle rfl (.inl rfl) rfl trivial nofun
    · exact inv
  | leave t =>
    simp only [step]
    split_ifs with entered
    · exact goto_inv inv entered.1 rfl (.inl rfl) rfl entered.2 nofun
    · exact inv
  | timeout t =>
    simp only [step]
    split_ifs with sleeping
    · have timeout : (s.place t).timeout = .waits () (.checking true) := by rw [place, sleeping]; rfl
      have fits : (s.threads t).enters = 0 := inv.fits_at sleeping
      refine inv.goes sleeping ⟨rfl, rfl⟩ fits ?_ fun one word some => ?_
      · have queue := timeout_inv inv.queue t
        rw [timeout] at queue
        exact queue
      · have pending := timeout_pending (inv.wake one word some) (t := t)
        rw [timeout] at pending
        exact pending
    · exact inv

end Steps

/-! ### What holds in every interleaving -/

section Sound

variable {ι : Type} [Fintype ι] [DecidableEq ι] {s : State ι}

/-- A thread owns the section from when it is acquired until `LockCount` is decremented for the last
time. -/
def Thread.Owns (thread : Thread ι) : Prop :=
  0 < thread.enters ∨ thread.pc = .owning ∨ thread.pc = .starting ∨ thread.pc = .clearing ∨
    thread.pc = .decrementing

/-- A thread that waits does not sleep, is going to be alerted, or has an entry that some thread is going to
search for. -/
def State.Roused (s : State ι) (t : ι) : Prop :=
  s.place t ≠ .waits () .sleeping ∨ Alerted s.queue s.place t ∨
    (((), t) ∈ s.queue.entries ∧ ∃ v all, (s.place v).scans all ())

/-- A thread is about to hand the section over, or the semaphore has it, or the word has it and some thread
is roused. -/
def State.WakeUp (s : State ι) : Prop :=
  (∃ t, (s.threads t).pc = .unwaiting) ∨
    (s.crit.semaphore = 1 ∧ (s.crit.handle = true ∨ ∃ t, s.Waits t ∧ s.Roused t))

structure Sound (s : State ι) : Prop where
  owner : ∀ t u, (s.threads t).Owns → (s.threads u).Owns → t = u
  recursion : ∀ t, 0 < (s.threads t).enters →
    s.crit.owningThread = some t ∧ s.crit.recursionCount = (s.threads t).enters
  wakes : (∀ t, ¬(s.threads t).Owns) → (∃ t, s.Waits t) → s.WakeUp

variable {thread : Thread ι}

omit [Fintype ι] [DecidableEq ι] in
theorem Thread.Owns.owner_eq (owns : thread.Owns) : thread.owner = 1 := by
  refine if_pos (owns.imp_right fun pc => ?_)
  obtain here | here | here | here := pc <;> rw [here] <;> rfl

omit [Fintype ι] [DecidableEq ι] in
theorem unwaiting_of_owner (owner : 0 < thread.owner) (owns : ¬thread.Owns) :
    thread.pc = .unwaiting := by
  unfold Thread.owner at owner
  split at owner
  · next holds =>
    obtain enters | pc := holds
    · exact absurd (.inl enters) owns
    · unfold Thread.Owns at owns
      cases here : thread.pc <;> simp_all [Pc.owns]
  · nomatch owner

theorem Inv.sound (inv : Inv s) : Sound s := by
  constructor
  · intro t u first second
    by_contra different
    have none := alone inv.owners_le second.owner_eq different
    rw [first.owner_eq] at none
    nomatch none
  · intro t enters
    exact ⟨(inv.named t).mpr (.inl enters), inv.recursion_eq (if_pos (.inl enters))⟩
  · rintro free ⟨t, waits⟩
    have units := inv.units
    have share : 0 < s.shares := by
      refine Nat.lt_of_lt_of_le ?_ (shares_le s t)
      unfold State.Waits at waits
      unfold Thread.shares
      cases here : (s.threads t).pc <;> rw [here] at waits <;> first | exact Nat.succ_pos _ | nomatch waits
    by_cases owners : 0 < s.owners
    · obtain ⟨u, owner⟩ := exists_of_tally_pos owners
      exact .inl ⟨u, unwaiting_of_owner owner (free u)⟩
    · have one : s.crit.semaphore = 1 := by omega
      refine .inr ⟨one, ?_⟩
      cases handle : s.crit.handle with
      | true => exact .inl rfl
      | false =>
        obtain ⟨v, all, scans⟩ | ⟨w, waits, unparked⟩ := inv.wake one handle ⟨t, waits⟩
        · refine .inr ⟨t, waits, ?_⟩
          by_cases sleeping : s.place t = .waits () .sleeping
          · obtain entry | alerted := inv.queue.alerts () t sleeping
            · exact .inr (.inr ⟨entry, v, all, scans⟩)
            · exact .inr (.inl alerted)
          · exact .inl sleeping
        · refine .inr ⟨w, waits, ?_⟩
          by_cases sleeping : s.place w = .waits () .sleeping
          · obtain entry | alerted := inv.queue.alerts () w sleeping
            · exact absurd (.inr ⟨sleeping, entry⟩) unparked
            · exact .inr (.inl alerted)
          · exact .inl sleeping

omit [DecidableEq ι] in
theorem initializeCriticalSection_inv (spinCount : Nat) (handle : Bool) :
    Inv (initializeCriticalSection ι spinCount handle) := by
  have shares : (initializeCriticalSection ι spinCount handle).shares = 0 := tally_eq_zero.mpr fun _ => rfl
  have owners : (initializeCriticalSection ι spinCount handle).owners = 0 := tally_eq_zero.mpr fun _ => rfl
  have entered : (initializeCriticalSection ι spinCount handle).entered = 0 := tally_eq_zero.mpr fun _ => rfl
  refine ⟨⟨fun _ => ⟨nofun, nofun⟩, nofun, List.nodup_nil, nofun⟩, ?_, ?_,
    ⟨show (-1 : Int) < 2 ^ 31 by decide, show (0 : Int) < 2 ^ 31 by decide⟩, ?_, ?_,
    fun _ => trivial, nofun⟩
  · rw [shares]
    rfl
  · rw [entered]
    rfl
  · rw [shares, owners]
    rfl
  · intro t
    refine iff_of_false nofun ?_
    rintro (enters | named)
    · nomatch enters
    · nomatch named

/-- The first thread enters twice, the second one goes to sleep, and the first one leaves twice, until it is
about to hand the section over. -/
def handOver : List (Action (Fin 2)) :=
  [.enter 0, .run 0, .run 0, .run 0, .run 0, .tryEnter 0, .run 0, .run 0, .run 0, .run 0, .run 0,
    .enter 1, .run 1, .run 1, .run 1, .run 1, .run 1, .run 1, .run 1, .leave 0, .run 0, .run 0, .run 0, .run 0,
    .leave 0, .run 0, .run 0, .run 0, .run 0]

end Sound

/-! ### One thread that enters again and again -/

section Overflow

/-- The only thread has entered a number of times. -/
def nested (enters : Nat) : State Unit where
  crit := ⟨enters - 1, int32 enters, some (), false, 0, 0⟩
  queue := ⟨none, [], fun _ => false⟩
  threads := fun _ => ⟨.idle, enters⟩

variable {enters : Nat}

theorem set_unit {s : State Unit} {crit : Crit Unit} {pc : Pc Unit} :
    s.set () crit pc enters = ⟨crit, s.queue, fun _ => ⟨pc, enters⟩⟩ := by
  rw [State.set, State.mk.injEq]
  exact ⟨rfl, rfl, funext fun _ => rfl⟩

theorem enter_first : runAll step (initializeCriticalSection Unit 0 false)
    [.enter (), .run (), .run (), .run (), .run ()] = .ok (nested 1) := by
  have zero : int32 (-1 + 1) = 0 := int32_eq (by decide)
  have one : int32 (1 : Nat) = 1 := int32_eq (by decide)
  simp only [runAll, step, run, initializeCriticalSection, set_unit, Bind.bind, Except.bind, if_true,
    ne_eq, not_true_eq_false, if_false, zero, nested, one]
  rfl

/-- One enter more. The recursion count wraps around at its largest value. -/
theorem enter_again (some : 0 < enters) (small : enters < 2 ^ 31) :
    runAll step (nested enters) [.enter (), .run (), .run (), .run (), .run (), .run ()] =
      .ok (nested (enters + 1)) := by
  have lockCount : int32 (enters - 1 + 1 : Int) = enters := by
    rw [Int.sub_add_cancel]
    exact int32_eq (by omega)
  have positive : ¬(enters : Int) = 0 := by omega
  have same : int32 enters = enters := int32_eq (by omega)
  simp only [runAll, step, run, nested, set_unit, Bind.bind, Except.bind, if_true, ne_eq,
    not_true_eq_false, if_false, lockCount, positive, same, Int.natCast_add, Int.cast_ofNat_Int,
    Int.add_sub_cancel]

theorem enter_many (some : 0 < enters) (bound : enters ≤ 2 ^ 31) :
    ∃ actions, runAll step (initializeCriticalSection Unit 0 false) actions = .ok (nested enters) := by
  induction enters with
  | zero => nomatch some
  | succ enters ih =>
    cases enters with
    | zero => exact ⟨_, enter_first⟩
    | succ enters =>
      obtain ⟨actions, done⟩ := ih (Nat.succ_pos _) (Nat.le_of_succ_le bound)
      refine ⟨actions ++ [.enter (), .run (), .run (), .run (), .run (), .run ()], ?_⟩
      rw [runAll_append, done]
      exact enter_again (Nat.succ_pos _) bound

end Overflow

end FreeWindows.Rtl.CriticalSection
