/-
**Operations that take effect at one moment.**

Threads call operations of a shared object. An operation of an atomic object takes effect at some moment
between its call and its return, and what it returns is determined by the state of the object at that
moment. A log has the calls and returns, and the moments when the operations take effect; it conforms if
the events of each thread are in order and the returns are right. The calls and returns of a log that
conforms are what is called a linearizable history, and the other events are its linearization.

* `state`: the object after the operations that took effect, in their order;
* `status`: where a thread is;
* `Conforms`: the log is one of an atomic object.
-/

import Mathlib

namespace FreeWindows.Lib

/-- A sequential object: the operations, and what the caller gets to see of an outcome. -/
structure Object (σ ω ρ ν : Type) where
  start : σ
  apply : ω → σ → ρ × σ
  answer : ρ → ν

namespace Object

inductive Event (ι ω ν : Type)
  | called (t : ι) (op : ω)
  | committed (t : ι) (op : ω)
  | returned (t : ι) (answer : ν)
deriving DecidableEq, Repr

inductive Status (ω ρ : Type)
  | idle
  | called (op : ω)
  | committed (op : ω) (outcome : ρ)
deriving DecidableEq, Repr

/-- Who makes the event. -/
def Event.thread {ι ω ν : Type} : Event ι ω ν → ι
  | called t _ | committed t _ | returned t _ => t

variable {σ ω ρ ν ι : Type} (object : Object σ ω ρ ν)

/-- The state after the operations that took effect. The last event comes first. -/
def state : List (Event ι ω ν) → σ
  | [] => object.start
  | .committed _ op :: log => (object.apply op (state log)).2
  | _ :: log => state log

variable [DecidableEq ι]

def status (t : ι) : List (Event ι ω ν) → Status ω ρ
  | [] => .idle
  | event :: log =>
    if event.thread = t then
      match event with
      | .called _ op => .called op
      | .committed _ op => .committed op (object.apply op (object.state log)).1
      | .returned _ _ => .idle
    else status t log

/-- What an atomic object can do next. -/
def Allowed (log : List (Event ι ω ν)) : Event ι ω ν → Prop
  | .called t _ => object.status t log = .idle
  | .committed t op => object.status t log = .called op
  | .returned t answer => ∃ op outcome, object.status t log = .committed op outcome ∧
      object.answer outcome = answer

def Conforms : List (Event ι ω ν) → Prop
  | [] => True
  | event :: log => object.Allowed log event ∧ Conforms log

variable {object} {t u : ι} {op : ω} {log : List (Event ι ω ν)}

theorem status_other {event : Event ι ω ν} (other : event.thread ≠ t) :
    object.status t (event :: log) = object.status t log :=
  if_neg other

@[simp] theorem status_called : object.status t (.called t op :: log) = .called op :=
  if_pos rfl

@[simp] theorem status_committed :
    object.status t (.committed t op :: log) = .committed op (object.apply op (object.state log)).1 :=
  if_pos rfl

@[simp] theorem status_returned {answer : ν} : object.status t (.returned t answer :: log) = .idle :=
  if_pos rfl

end Object

end FreeWindows.Lib
