/-
**Postconditions of computations that can fail.**

`Ensures allowed x post`: the computation `x` returns a value with `post`, or fails with an error
that is `allowed`. So one statement says both what a computation returns and how it cannot fail.

* `ensures_bind`, `ensures_map`, `Ensures.mono`, `Ensures.allow`: sequences, and weaker statements;
* `Ensures.post`, `Ensures.not_error`, `Ensures.returns`: what it says about one outcome;
* `Gives`: the same for computations that fail without an error;
* `ensures_runAll`, `ensures_runAll_of`: an invariant that every step, or every step of some kind,
  ensures holds wherever a run leads.
-/

import FreeWindows.Lib.Run

namespace FreeWindows.Lib

/-- The computation returns a value with `post` or fails with an allowed error. -/
def Ensures {ε α : Type} (allowed : ε → Prop) (x : Except ε α) (post : α → Prop) : Prop :=
  match x with
  | .ok a => post a
  | .error e => allowed e

/-- The computation returns a value with `post`. -/
abbrev Returns {ε α : Type} (x : Except ε α) (post : α → Prop) : Prop := Ensures (fun _ => False) x post

/-- If the computation returns, then a value with `post`. -/
abbrev Yields {ε α : Type} (x : Except ε α) (post : α → Prop) : Prop := Ensures (fun _ => True) x post

section Ensures

variable {ε α β : Type} {allowed : ε → Prop} {σ ι : Type} {x : Except ε α} {step : σ → ι → Except ε σ}
  {inv : σ → Prop} {s : σ}

theorem ensures_bind {next : α → Except ε β} {mid : α → Prop} {post : β → Prop}
    (first : Ensures allowed x mid) (later : ∀ a, mid a → Ensures allowed (next a) post) :
    Ensures allowed (x >>= next) post := by
  cases x with
  | ok a => exact later a first
  | error e => exact first

theorem ensures_map {f : α → β} {post : β → Prop} (ensures : Ensures allowed x fun a => post (f a)) :
    Ensures allowed (x.map f) post := by
  cases x with
  | ok a => exact ensures
  | error e => exact ensures

theorem Ensures.mono {strong weak : α → Prop} (ensures : Ensures allowed x strong)
    (imp : ∀ a, strong a → weak a) : Ensures allowed x weak := by
  cases x with
  | ok a => exact imp a ensures
  | error e => exact ensures

theorem Ensures.allow {allowed' : ε → Prop} {post : α → Prop} (ensures : Ensures allowed x post)
    (imp : ∀ e, allowed e → allowed' e) : Ensures allowed' x post := by
  cases x with
  | ok a => exact ensures
  | error e => exact imp e ensures

theorem Ensures.mapError {ε' : Type} {allowed' : ε' → Prop} {f : ε → ε'} {post : α → Prop}
    (ensures : Ensures allowed x post) (imp : ∀ e, allowed e → allowed' (f e)) :
    Ensures allowed' (x.mapError f) post := by
  cases x with
  | ok a => exact ensures
  | error e => exact imp e ensures

theorem Ensures.post {post : α → Prop} (ensures : Ensures allowed x post) {a : α} (done : x = .ok a) :
    post a := by
  subst done
  exact ensures

theorem Ensures.not_error {post : α → Prop} (ensures : Ensures allowed x post) {e : ε}
    (forbidden : ¬ allowed e) : x ≠ .error e := by
  rintro rfl
  exact forbidden ensures

theorem Ensures.returns {post : α → Prop} (ensures : Returns x post) :
    ∃ a, x = .ok a ∧ post a := by
  cases x with
  | ok a => exact ⟨a, rfl, ensures⟩
  | error e => exact ensures.elim

/-- What every step ensures from itself, a run of such steps ensures. -/
theorem ensures_runAll_of {ok : ι → Prop} (keeps : ∀ s a, inv s → ok a → Ensures allowed (step s a) inv)
    (start : inv s) {actions : List ι} (all : ∀ a ∈ actions, ok a) :
    Ensures allowed (runAll step s actions) inv := by
  induction actions generalizing s with
  | nil => exact start
  | cons a rest ih =>
    exact ensures_bind (keeps s a start (all a (List.mem_cons_self ..))) fun t kept =>
      ih kept fun b member => all b (List.mem_cons_of_mem _ member)

theorem ensures_runAll (keeps : ∀ s a, inv s → Ensures allowed (step s a) inv) (start : inv s)
    (actions : List ι) : Ensures allowed (runAll step s actions) inv :=
  ensures_runAll_of (fun s a inv (_ : True) => keeps s a inv) start fun _ _ => trivial

end Ensures

/-- If there is a value, then one with `post`. -/
def Gives {α : Type} (x : Option α) (post : α → Prop) : Prop :=
  match x with
  | some a => post a
  | none => True

section Gives

variable {α β : Type} {x : Option α} {p : α → Prop} {last : β → Prop}

theorem gives_of (all : ∀ a, x = some a → p a) : Gives x p := by
  cases x with
  | none => exact trivial
  | some a => exact all a rfl

theorem Gives.post (gives : Gives x p) {a : α} (done : x = some a) : p a := by
  subst done
  exact gives

theorem Gives.mono {q : α → Prop} (gives : Gives x p) (imp : ∀ a, p a → q a) : Gives x q :=
  gives_of fun a done => imp a (gives.post done)

theorem gives_bind {next : α → Option β} (first : Gives x p) (later : ∀ a, p a → Gives (next a) last) :
    Gives (x >>= next) last := by
  cases x with
  | none => exact trivial
  | some a => exact later a first

theorem gives_map {f : α → β} (gives : Gives x fun a => last (f a)) : Gives (x.map f) last := by
  cases x with
  | none => exact trivial
  | some a => exact gives

end Gives

end FreeWindows.Lib
