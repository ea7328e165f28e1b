/-
**Runs of a deterministic machine that can fail.**

A machine takes an action in a state and returns the next state or an error. `Runs step ok s t`
says that `t` is reached from `s` by actions each of which met the condition `ok` in the state it
was taken in.

* `Runs.invariant`: what holds at the start and is kept by every step that meets the condition
  holds wherever such a run leads;
* `runAll`, `runs_of_runAll`: a run given by the list of its actions, which can be computed;
* `runAll_total`: machines that never fail;
* `Keeps`, `Meets`, `keeps_iff_meets`: which runs have a property after every step;
* `checked`, `runs_of_checked`: the same with the condition checked at every step;
* `exists_ok_of_check`, `exists_some_of_check`: runs that are evaluated;
* `bind_eq_ok`: inversion of a computation that did not fail;
* `observe_update`: a part of a state that is replaced by one that looks the same.
-/

import Mathlib

namespace FreeWindows.Lib

variable {α ε : Type}

theorem bind_eq_ok {β : Type} {first : Except ε α} {next : α → Except ε β} {b : β} :
    (first >>= next) = .ok b ↔ ∃ a, first = .ok a ∧ next a = .ok b := by
  cases first with
  | error e =>
    constructor
    · intro same
      cases same
    · rintro ⟨a, same, _⟩
      cases same
  | ok a =>
    refine ⟨fun done => ⟨a, rfl, done⟩, ?_⟩
    rintro ⟨a, same, done⟩
    cases same
    exact done

theorem observe_update {ι γ : Type} [DecidableEq ι] (observe : α → γ) {parts : ι → α} {i : ι} {a : α}
    (same : observe a = observe (parts i)) (j : ι) :
    observe (Function.update parts i a j) = observe (parts j) := by
  rw [Function.apply_update fun _ => observe, same, Function.update_eq_self i fun j => observe (parts j)]

/-- A computation that can be evaluated returns a value with a property that can be decided. -/
theorem exists_ok_of_check {x : Except ε α} (p : α → Prop) [DecidablePred p]
    (holds : x.toOption.any (fun a => decide (p a)) = true) : ∃ a, x = .ok a ∧ p a := by
  cases x with
  | error e => cases holds
  | ok a => exact ⟨a, rfl, of_decide_eq_true holds⟩

theorem exists_some_of_check {x : Option α} (p : α → Prop) [DecidablePred p]
    (holds : x.any (fun a => decide (p a)) = true) : ∃ a, x = some a ∧ p a := by
  cases x with
  | none => cases holds
  | some a => exact ⟨a, rfl, of_decide_eq_true holds⟩

section Machine

variable {σ : Type} (step : σ → α → Except ε σ) (ok : σ → α → Prop)

/-- `t` is reached from `s` by steps that all meet the condition. -/
inductive Runs : σ → σ → Prop where
  | refl (s : σ) : Runs s s
  | tail {s t u : σ} (action : α) (run : Runs s t) (meets : ok t action)
      (done : step t action = .ok u) : Runs s u

variable {step ok} {s t : σ} {actions : List α}

/-- **The invariant rule.** -/
theorem Runs.invariant (run : Runs step ok s t) (inv : σ → Prop) (start : inv s)
    (kept : ∀ s a t, inv s → ok s a → step s a = .ok t → inv t) : inv t := by
  induction run with
  | refl => exact start
  | tail action _ meets done ih => exact kept _ action _ ih meets done

/-- The state after a list of actions. -/
def runAll (step : σ → α → Except ε σ) : σ → List α → Except ε σ
  | s, [] => .ok s
  | s, a :: rest => do
    let t ← step s a
    runAll step t rest

theorem runAll_append (s : σ) (actions later : List α) :
    runAll step s (actions ++ later) = runAll step s actions >>= fun t => runAll step t later := by
  induction actions generalizing s with
  | nil => rfl
  | cons a rest ih =>
    show (step s a >>= fun t => runAll step t (rest ++ later)) = _
    simp only [ih]
    exact (bind_assoc (step s a) _ _).symm

/-- A machine that never fails can run on. -/
theorem runAll_total (total : ∀ s a, ∃ t, step s a = .ok t) (s : σ) (actions : List α) :
    ∃ t, runAll step s actions = .ok t := by
  induction actions generalizing s with
  | nil => exact ⟨s, rfl⟩
  | cons a rest ih =>
    obtain ⟨mid, first⟩ := total s a
    obtain ⟨t, later⟩ := ih mid
    exact ⟨t, bind_eq_ok.mpr ⟨mid, first, later⟩⟩

/-- Every action can be taken and leads to a good state. -/
def Keeps (step : σ → α → Except ε σ) (good : σ → Prop) : σ → List α → Prop
  | _, [] => True
  | s, a :: rest => ∃ t, step s a = .ok t ∧ good t ∧ Keeps step good t rest

/-- Every action meets the condition in the state that it is taken in. -/
def Meets (step : σ → α → Except ε σ) (ok : σ → α → Prop) : σ → List α → Prop
  | _, [] => True
  | s, a :: rest => ok s a ∧ ∀ t, step s a = .ok t → Meets step ok t rest

theorem keeps_true_iff :
    Keeps step (fun _ => True) s actions ↔ ∃ t, runAll step s actions = .ok t := by
  induction actions generalizing s with
  | nil => exact iff_of_true trivial ⟨s, rfl⟩
  | cons a rest ih =>
    constructor
    · rintro ⟨mid, first, -, later⟩
      obtain ⟨t, done⟩ := ih.mp later
      exact ⟨t, bind_eq_ok.mpr ⟨mid, first, done⟩⟩
    · rintro ⟨t, done⟩
      obtain ⟨mid, first, later⟩ := bind_eq_ok.mp done
      exact ⟨mid, first, trivial, ih.mpr ⟨t, later⟩⟩

/-- **The exact condition**: if the steps that meet it are those that lead to a good state, then the
runs whose steps meet it are those with good states only. The invariant may look at the actions that
are left. -/
theorem keeps_iff_meets {good : σ → Prop} (inv : List α → σ → Prop)
    (kept : ∀ s a rest, inv (a :: rest) s → ok s a → ∃ t, step s a = .ok t ∧ good t ∧ inv rest t)
    (needed : ∀ s a rest t, inv (a :: rest) s → step s a = .ok t → good t → ok s a)
    (start : inv actions s) : Keeps step good s actions ↔ Meets step ok s actions := by
  induction actions generalizing s with
  | nil => exact Iff.rfl
  | cons a rest ih =>
    constructor
    · rintro ⟨t, done, fine, later⟩
      have meets := needed s a rest t start done fine
      refine ⟨meets, fun t' done' => ?_⟩
      obtain ⟨u, same, _, still⟩ := kept s a rest start meets
      cases done'.symm.trans done
      cases same.symm.trans done
      exact (ih still).mp later
    · rintro ⟨meets, later⟩
      obtain ⟨t, done, fine, still⟩ := kept s a rest start meets
      exact ⟨t, done, fine, (ih still).mpr (later t done)⟩

/-- A run of one step more at its start. -/
theorem Runs.head {u : σ} {action : α} (meets : ok s action) (done : step s action = .ok t)
    (run : Runs step ok t u) : Runs step ok s u := by
  induction run with
  | refl => exact Runs.tail action (Runs.refl _) meets done
  | tail later _ laterMeets laterDone ih => exact Runs.tail later ih laterMeets laterDone

/-- A computed run, without a condition on its steps. -/
theorem runs_of_runAll (done : runAll step s actions = .ok t) :
    Runs step (fun _ _ => True) s t := by
  induction actions generalizing s with
  | nil =>
    cases done
    exact Runs.refl _
  | cons a rest ih =>
    obtain ⟨mid, first, later⟩ := bind_eq_ok.mp done
    exact Runs.head trivial first (ih later)

/-- A step whose condition is checked. -/
def checked (step : σ → α → Except ε σ) (ok : σ → α → Prop) [∀ s a, Decidable (ok s a)] (s : σ)
    (a : α) : Option σ :=
  if ok s a then (step s a).toOption else none

theorem runs_of_checked [∀ s a, Decidable (ok s a)]
    (done : actions.foldlM (checked step ok) s = some t) : Runs step ok s t := by
  induction actions generalizing s with
  | nil =>
    cases done
    exact Runs.refl _
  | cons a rest ih =>
    obtain ⟨mid, first, later⟩ := Option.bind_eq_some_iff.mp done
    unfold checked at first
    split at first
    next meets =>
      cases result : step s a with
      | error e => rw [result] at first; cases first
      | ok t =>
        rw [result] at first
        cases first
        exact Runs.head meets result (ih later)
    next => cases first

end Machine

end FreeWindows.Lib
