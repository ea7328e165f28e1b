/-
**Runs of a one-time initialisation.**

`runOnce_sound`: whatever threads call it, in every interleaving of their accesses, only allowed events
happen and no frame is accessed that is gone. No thread is stuck either: the threads that wait for an
initialisation can be released as soon as it is completed, and every call returns once one succeeded.
-/

import FreeWindows.Rtl.RunOnce.Steps

namespace FreeWindows.Rtl.RunOnce

open Lib Function Option State

/-- Some steps lead from one state to the other. -/
def Leads (s s' : State) : Prop := ∃ actions, runAll State.step s actions = .ok s'

theorem Leads.refl (s : State) : Leads s s := ⟨[], rfl⟩

theorem Leads.trans {s₁ s₂ s₃ : State} (first : Leads s₁ s₂) (second : Leads s₂ s₃) : Leads s₁ s₃ := by
  obtain ⟨actions, done⟩ := first
  obtain ⟨more, finished⟩ := second
  refine ⟨actions ++ more, ?_⟩
  rw [runAll_append, done]
  exact finished

theorem Leads.step {s s' : State} {action : Action} (done : s.step action = .ok s') : Leads s s' := by
  refine ⟨[action], ?_⟩
  rw [runAll, done]
  rfl

section Progress

variable {s : State} {t u : Nat}

/-- A step of one thread that is no event. -/
structure Moves (s s' : State) (t : Nat) : Prop where
  leads : Leads s s'
  inv : Inv s'
  others : ∀ v, v ≠ t → s'.pc v = s.pc v
  log : s'.log = s.log

variable (inv : Inv s)
include inv

theorem moves_waking (owing : (s.pc t).debt ≠ 0) :
    ∃ s' next, Moves s s' t ∧ s'.pc t = .waking (s.pc t).debt next := by
  cases here : s.pc t with
  | releasing val =>
    obtain ⟨next, link⟩ := releasing_read inv here
    have done : s.step (.run t) = .ok (s.goto t (.waking val next)) := by
      simp only [step, run, here, link]
    exact ⟨_, next, ⟨.step done, (step_inv inv (.run t) trivial).post done,
      fun v other => update_of_ne other .., rfl⟩, update_self ..⟩
  | waking val next => exact ⟨s, next, ⟨.refl s, inv, fun _ _ => rfl, rfl⟩, here⟩
  | _ =>
    rw [here] at owing
    exact absurd rfl owing

theorem moves_waiting {addr : Nat} (asleep : (s.pc u).asleep = some addr) :
    ∃ s' call, Moves s s' u ∧ s'.pc u = .waiting call ∧ (s.pc u).call = some call ∧
      call.addr = addr := by
  cases here : s.pc u with
  | queued call =>
    have done : s.step (.run u) = .ok (s.goto u (.waiting call)) := by
      simp only [step, run, here]
    rw [here] at asleep
    exact ⟨_, call, ⟨.step done, (step_inv inv (.run u) trivial).post done,
      fun v other => update_of_ne other .., rfl⟩, update_self .., rfl,
      some.inj asleep⟩
  | waiting call =>
    rw [here] at asleep
    exact ⟨s, call, ⟨.refl s, inv, fun _ _ => rfl, rfl⟩, here, rfl, some.inj asleep⟩
  | _ =>
    rw [here] at asleep
    cases asleep

/-- The first of the threads that are to be released can be released. -/
theorem release_first {rest : List Nat} (list : owed t s.log = u :: rest) :
    ∃ s', Leads s s' ∧ Inv s' ∧ (∀ v call, (s.pc v).call = some call → (s'.pc v).call = some call) ∧
      (∃ call, s'.pc u = .beginning call) ∧ stage s'.log = stage s.log ∧ owed t s'.log = rest ∧
      s'.log = if rest = [] then .finished t :: .released t u :: s.log else .released t u :: s.log := by
  have linked := inv.linked (some t)
  rw [show held s.log (some t) = u :: rest from list] at linked
  obtain ⟨asleep, -⟩ := linked
  obtain ⟨call, called, addr⟩ := Pc.call_of_asleep asleep
  have owing : (s.pc t).debt ≠ 0 := fun zero => (inv.frames.placed u call called).2.1 (addr.trans zero)
  have calling : ∀ {v call}, (s.pc v).call = some call → v ≠ t := by
    rintro v call calls rfl
    exact owing (Pc.debt_of_call calls)
  have different := calling called
  obtain ⟨s₁, next, first, waking⟩ := moves_waking inv owing
  have unmoved : s₁.pc u = s.pc u := first.others u different
  obtain ⟨s₂, again, second, waiting, same, key⟩ := moves_waiting first.inv (unmoved ▸ asleep)
  obtain rfl : again = call := by
    rw [unmoved, called] at same
    exact (some.inj same).symm
  rw [← second.others t different.symm] at waking
  have log : s₂.log = s.log := second.log.trans first.log
  have final : next = 0 ↔ rest = [] := by
    have behind := second.inv.linked (some t)
    have relies := second.inv.relies t
    rw [log, show held s.log (some t) = u :: rest from list] at behind
    simp only [head, waking, Pc.debt] at behind
    rw [waking] at relies
    obtain ⟨-, after, link, behind⟩ := behind
    obtain rfl : after = next := some.inj (link.symm.trans relies.2)
    constructor
    · rintro rfl
      exact second.inv.frames.eq_nil behind
    · rintro rfl
      exact behind
  let s₃ := s₂.goto u (.beginning again) |>.emit (.released t u) |>.releaseFrom t next
  have done : s₂.step (.pair t u) = .ok s₃ := by
    simp only [step, waking, waiting, key]
    exact if_pos rfl
  have pc : s₃.pc = update (update s₂.pc u (.beginning again)) t (Pc.releaseFrom next) := by
    obtain ⟨log, result, -⟩ := releaseFrom_spec (s₂.goto u (.beginning again) |>.emit (.released t u))
      t next
    exact congrArg pc result
  have woken : s₃.pc u = .beginning again := by
    rw [pc, update_of_ne different, update_self]
  refine ⟨s₃, (first.leads.trans second.leads).trans (.step done),
    (step_inv second.inv (.pair t u) trivial).post done, ?_, ⟨again, woken⟩, ?_⟩
  · intro v other calls
    by_cases same : v = u
    · subst same
      rw [woken, ← calls, called]
      rfl
    · rw [pc, update_of_ne (calling calls), update_of_ne same,
        second.others v same, first.others v (calling calls)]
      exact calls
  · have ended : s₃.log = if rest = [] then .finished t :: .released t u :: s.log
        else .released t u :: s.log := by
      rw [← log]
      by_cases zero : next = 0
      · rw [if_pos (final.mp zero)]
        simp only [s₃, releaseFrom, if_pos zero]
        rfl
      · rw [if_neg (mt final.mpr zero)]
        simp only [s₃, releaseFrom, if_neg zero]
        rfl
    refine ⟨?_, ?_, ended⟩ <;> rw [ended] <;> split
    · rfl
    · rfl
    · simp [owed, list]
    · simp [owed, list]

/-- All threads that are to be released can be released, the first one first. -/
theorem release_all {us : List Nat} (list : owed t s.log = us) (some : us ≠ []) :
    ∃ s', Leads s s' ∧ Inv s' ∧
      s'.log = .finished t :: (us.map (Event.released t)).reverse ++ s.log := by
  induction us generalizing s with
  | nil => exact absurd rfl some
  | cons u rest ih =>
    obtain ⟨s₁, leads, inv₁, -, -, -, left, log⟩ := release_first inv list
    by_cases last : rest = []
    · refine ⟨s₁, leads, inv₁, ?_⟩
      rw [log, if_pos last, last]
      rfl
    · obtain ⟨s₂, later, inv₂, log₂⟩ := ih inv₁ left last
      refine ⟨s₂, leads.trans later, inv₂, ?_⟩
      rw [log₂, log, if_neg last]
      simp

variable {call : Call} {context : Nat}

/-- A thread in a list can be released. -/
theorem listed_begins {pre post : List Nat} (list : owed u s.log = pre ++ t :: post)
    (called : (s.pc t).call = some call) :
    ∃ s', Leads s s' ∧ Inv s' ∧ s'.pc t = .beginning call ∧ stage s'.log = stage s.log := by
  induction pre generalizing s with
  | nil =>
    obtain ⟨s₁, leads, inv₁, calls, ⟨also, here⟩, staged, -⟩ := release_first inv list
    have same := calls t call called
    rw [here] at same
    cases same
    exact ⟨s₁, leads, inv₁, here, staged⟩
  | cons v pre ih =>
    obtain ⟨s₁, leads, inv₁, calls, -, staged, left, -⟩ := release_first inv list
    obtain ⟨s₂, later, inv₂, here, same⟩ := ih inv₁ left (calls t call called)
    exact ⟨s₂, leads.trans later, inv₂, here, same.trans staged⟩

/-- After a successful initialisation every call can return. -/
theorem call_returns (called : (s.pc t).call = some call) (done : stage s.log = .done context) :
    ∃ s', Leads s s' ∧ s'.log.head? =
      some (.returned t call .success (if call.wanted then some context else none)) := by
  have begins : ∃ s', Leads s s' ∧ Inv s' ∧ s'.pc t = .beginning call ∧ stage s'.log = stage s.log := by
    have two := (inv.word_done done).1
    have unclaimed : s.ptr ≠ 0 := by
      rintro zero
      rw [zero] at two
      exact absurd two (by decide)
    have retry (stepped : s.step (.run t) = .ok (s.goto t (.beginning call))) :
        ∃ s', Leads s s' ∧ Inv s' ∧ s'.pc t = .beginning call ∧ stage s'.log = stage s.log :=
      ⟨_, .step stepped, (step_inv inv (.run t) trivial).post stepped, update_self .., rfl⟩
    have listed (asleep : (s.pc t).asleep ≠ none) :
        ∃ s', Leads s s' ∧ Inv s' ∧ s'.pc t = .beginning call ∧ stage s'.log = stage s.log := by
      obtain ⟨holder, member⟩ := (inv.asleep t).mp asleep
      cases holder with
      | none =>
        rw [@Inv.held_eq_nil s inv none (by simp [head, two])] at member
        cases member
      | some u =>
        obtain ⟨pre, post, list⟩ := List.append_of_mem member
        exact listed_begins inv list called
    cases here : s.pc t with
    | beginning c =>
      rw [here] at called
      cases called
      exact ⟨s, .refl s, inv, here, rfl⟩
    | claiming c =>
      rw [here] at called
      cases called
      exact retry (by simp [step, run, here, unclaimed])
    | enqueueing c val =>
      have relies := inv.relies t
      rw [here] at called relies
      cases called
      refine retry ?_
      have changed : s.ptr ≠ val := by
        rintro rfl
        exact absurd (relies.1.symm.trans two) (by decide)
      simp [step, run, here, changed]
    | queued c => exact listed (by rw [here]; exact Option.some_ne_none _)
    | waiting c => exact listed (by rw [here]; exact Option.some_ne_none _)
    | _ =>
      rw [here] at called
      cases called
  obtain ⟨s₁, leads, inv₁, here, staged⟩ := begins
  have plain := (inv₁.frames.placed t call (by rw [here]; rfl)).1
  obtain ⟨two, rfl⟩ := inv₁.word_done (staged.trans done)
  have stepped : s₁.step (.run t) = .ok (s₁.leave t call .success (some (pointer s₁.ptr))) := by
    simp [step, run, here, beginInitialize, plain, two]
  exact ⟨_, leads.trans (.step stepped), rfl⟩

end Progress

theorem runOnceInitialize_inv : Inv runOnceInitialize := by
  refine ⟨⟨nofun, nofun⟩, fun _ => trivial, fun t => ⟨False.elim, nofun⟩, rfl, ?_, ?_, trivial⟩
  · intro holder
    cases holder <;> rfl
  · intro u
    refine ⟨fun asleep => absurd rfl asleep, ?_⟩
    rintro ⟨holder, member⟩
    cases holder <;> nomatch member

/-- **One-time initialisation.** In every interleaving of plain calls no access faults, at most one
thread is to initialise, and only allowed events happen. A thread was released as often as it was
queued, but for one time if it is in a list now. Those that a thread has to release can be released
one after the other, and after a successful initialisation every call can return its context. -/
theorem runOnce_sound (actions : List Action) (plain : ∀ action ∈ actions, action.Plain) :
    ∃ s, runAll State.step runOnceInitialize actions = .ok s ∧
      (∀ t u, (s.pc t).Initialises → (s.pc u).Initialises → t = u) ∧
      Conforms s.log ∧
      (∀ u, timesQueued u s.log = timesReleased u s.log ∨
        (timesQueued u s.log = timesReleased u s.log + 1 ∧ ∃ holder, u ∈ held s.log holder)) ∧
      (∀ t, owed t s.log ≠ [] → ∃ s', Leads s s' ∧
        s'.log = .finished t :: ((owed t s.log).map (Event.released t)).reverse ++ s.log) ∧
      ∀ t call context, (s.pc t).call = some call → stage s.log = .done context →
        ∃ s', Leads s s' ∧ s'.log.head? =
          some (.returned t call .success (if call.wanted then some context else none)) := by
  obtain ⟨s, done, inv⟩ := (ensures_runAll_of (fun s action inv plain => step_inv inv action plain)
    runOnceInitialize_inv plain).returns
  have lists := inv.conforms.lists
  refine ⟨s, done, ?_, inv.conforms, ?_, ?_, fun t call context called => call_returns inv called⟩
  · intro t u first second
    rw [inv.initialises] at first second
    exact Stage.running.inj (first.symm.trans second)
  · intro u
    by_cases listed : ∃ holder, u ∈ held s.log holder
    · obtain ⟨holder, member⟩ := listed
      exact .inr ⟨lists.listed u holder member, holder, member⟩
    · exact .inl (lists.unlisted u fun holder member => listed ⟨holder, member⟩)
  · intro t owing
    obtain ⟨s', leads, -, log⟩ := release_all inv rfl owing
    exact ⟨s', leads, log⟩

/-- The second thread waits for the initialisation of the first one. -/
def twoThreads : List Action :=
  [.call 0 ⟨8, {}, true⟩, .run 0, .run 0, .call 1 ⟨16, {}, true⟩, .run 1, .run 1, .run 1,
    .complete 0 {} 32, .run 0, .run 0, .run 0, .pair 0 1, .run 1]

theorem runOnce_sound_twoThreads : ∃ s, runAll State.step runOnceInitialize twoThreads = .ok s ∧
    s.log = [.returned 1 ⟨16, {}, true⟩ .success (some 32), .finished 0, .released 0 1,
      .completed 0 (some 32), .queued 1, .begun 0] ∧ Conforms s.log := by
  obtain ⟨s, done, -, conforms, -⟩ := runOnce_sound twoThreads (by simp [twoThreads, Action.Plain])
  refine ⟨s, done, ?_, conforms⟩
  have log : (runAll step runOnceInitialize twoThreads).toOption.map log = some
      [.returned 1 ⟨16, {}, true⟩ .success (some 32), .finished 0, .released 0 1,
        .completed 0 (some 32), .queued 1, .begun 0] := rfl
  rw [done] at log
  exact some.inj log

end FreeWindows.Rtl.RunOnce
