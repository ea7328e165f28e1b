/-
**One-time initialisation.**

`RTL_RUN_ONCE` is one word. Its two low bits say how far the initialisation is, and the rest of it is
the context or the head of the list of the waiting threads. The links of this list are local variables
of `RtlRunOnceBeginInitialize` in the frames of the threads that wait.

Threads run interleaved, one access to the shared memory at a time. `stack` holds the variables `next`
of the frames that exist, and to read one that is gone is a fault. A state keeps the events so far, the
latest one first.
-/

import FreeWindows.Lib.Run

namespace FreeWindows.Rtl.RunOnce

open Function

inductive Status
  | success
  | pending
  | unsuccessful
  | invalidParameter
deriving DecidableEq, Repr

structure Flags where
  checkOnly : Bool := false
  async : Bool := false
  initFailed : Bool := false
deriving DecidableEq, Repr

/-- The state bits, `val & 3`. -/
def bits (val : Nat) : Nat := val % 4

/-- The pointer, `val & ~3`. -/
def pointer (val : Nat) : Nat := val / 4 * 4

/-- A call of `RtlRunOnceBeginInitialize`: the address of its variable `next`, its flags, and whether
it asks for the context. -/
structure Call where
  addr : Nat
  flags : Flags
  wanted : Bool
deriving DecidableEq, Repr

/-- Where a thread is. `completing` and `exchanging` have the context that the initialisation is
completed with, or none if it failed. -/
inductive Pc
  | idle
  | beginning (call : Call)
  | claiming (call : Call)
  | enqueueing (call : Call) (val : Nat)
  | queued (call : Call)
  | waiting (call : Call)
  | pending
  | refused
  | completing (context : Option Nat) (async : Bool)
  | exchanging (context : Option Nat) (async : Bool) (val : Nat)
  | releasing (val : Nat)
  | waking (val next : Nat)
deriving DecidableEq, Repr

inductive Event
  | begun (t : Nat)
  | returned (t : Nat) (call : Call) (status : Status) (context : Option Nat)
  | queued (t : Nat)
  | completed (t : Nat) (context : Option Nat)
  | released (t u : Nat)
  | finished (t : Nat)
deriving DecidableEq, Repr

structure State where
  ptr : Nat
  stack : Nat → Option Nat
  pc : Nat → Pc
  log : List Event

/-- A frame that does not exist is accessed. -/
inductive Fault
  | dangling
deriving DecidableEq, Repr

namespace State

variable (s : State)

def goto (t : Nat) (pc : Pc) : State := { s with pc := update s.pc t pc }

def emit (event : Event) : State := { s with log := event :: s.log }

/-- The variable `next` of a frame is set; none when the frame goes. -/
def store (addr : Nat) (next : Option Nat) : State :=
  { s with stack := update s.stack addr next }

/-- `RtlRunOnceBeginInitialize` returns. The thread that is told to initialise goes on from there. -/
def leave (t : Nat) (call : Call) (status : Status) (context : Option Nat) : State :=
  let s := s.store call.addr none
  if status = .pending then s.goto t .pending |>.emit (.begun t)
  else s.goto t .idle |>.emit (.returned t call status (if call.wanted then context else none))

/-- `RtlRunOnceBeginInitialize` from where it reads the word. -/
def beginInitialize (t : Nat) (call : Call) : State :=
  let val := s.ptr
  if call.flags.checkOnly then
    if call.flags.async then s.leave t call .invalidParameter none
    else if bits val ≠ 2 then s.leave t call .unsuccessful none
    else s.leave t call .success (some (pointer val))
  else match bits val with
    | 0 => s.goto t (.claiming call)
    | 1 =>
      if call.flags.async then s.leave t call .invalidParameter none
      else s.store call.addr (some (pointer val)) |>.goto t (.enqueueing call val)
    | 2 => s.leave t call .success (some (pointer val))
    | _ =>
      if !call.flags.async then s.leave t call .invalidParameter none
      else s.leave t call .pending none

/-- The end of the loop over the waiting threads. -/
def releaseFrom (t val : Nat) : State :=
  if val = 0 then s.goto t .idle |>.emit (.finished t) else s.goto t (.releasing val)

/-- The word of a completed initialisation. -/
def wordOf : Option Nat → Nat
  | some context => context ||| 2
  | none => 0

/-- The next access to the shared memory of a thread. -/
def run (t : Nat) : Except Fault State :=
  match s.pc t with
  | .beginning call => .ok (s.beginInitialize t call)
  | .claiming call =>
    if s.ptr = 0 then
      .ok ({ s with ptr := if call.flags.async then 3 else 1 }.leave t call .pending none)
    else .ok (s.goto t (.beginning call))
  | .enqueueing call val =>
    if s.ptr = val then
      .ok ({ s with ptr := call.addr ||| 1 }.goto t (.queued call) |>.emit (.queued t))
    else .ok (s.goto t (.beginning call))
  | .queued call => .ok (s.goto t (.waiting call))
  | .completing context async =>
    match bits s.ptr with
    | 1 => .ok (s.goto t (.exchanging context async s.ptr))
    | 3 =>
      if !async then .ok (s.goto t .refused) else .ok (s.goto t (.exchanging context async s.ptr))
    | _ => .ok (s.goto t .refused)
  | .exchanging context async val =>
    if s.ptr = val then
      let s := { s with ptr := wordOf context }.emit (.completed t context)
      if bits val = 1 then .ok (s.releaseFrom t (pointer val))
      else .ok (s.goto t .idle |>.emit (.finished t))
    else .ok (s.goto t (.completing context async))
  | .releasing val =>
    match s.stack val with
    | none => .error .dangling
    | some next => .ok (s.goto t (.waking val next))
  | _ => .ok s

/-- `RtlRunOnceComplete` up to its loop. -/
def complete (t : Nat) (flags : Flags) (context : Nat) : State :=
  if bits context ≠ 0 then s.goto t .refused
  else if flags.initFailed then
    if context ≠ 0 then s.goto t .refused
    else if flags.async then s.goto t .refused
    else s.goto t (.completing none flags.async)
  else s.goto t (.completing (some context) flags.async)

end State

/-- What can happen. A frame starts at an address where no other one is. -/
inductive Action
  | call (t : Nat) (call : Call)
  | run (t : Nat)
  | complete (t : Nat) (flags : Flags) (context : Nat)
  | pair (t u : Nat)

/-- What is not possible has no effect. `pair` is the keyed event: `NtReleaseKeyedEvent` of the first
thread meets `NtWaitForKeyedEvent` of the second one with the same key. -/
def State.step (s : State) : Action → Except Fault State
  | .call t call =>
    if s.pc t = .idle ∧ call.addr ≠ 0 ∧ bits call.addr = 0 ∧ s.stack call.addr = none then
      .ok (s.store call.addr (some 0) |>.goto t (.beginning call))
    else .ok s
  | .run t => s.run t
  | .complete t flags context =>
    if s.pc t = .pending then .ok (s.complete t flags context) else .ok s
  | .pair t u =>
    match s.pc t, s.pc u with
    | .waking val next, .waiting call =>
      if call.addr = val then
        .ok (s.goto u (.beginning call) |>.emit (.released t u) |>.releaseFrom t next)
      else .ok s
    | _, _ => .ok s

/-- `RtlRunOnceInitialize`, and threads that have not called anything. -/
def runOnceInitialize : State where
  ptr := 0
  stack := fun _ => none
  pc := fun _ => .idle
  log := []

/-- The calls do not ask for a check or for an asynchronous initialisation. -/
def Action.Plain : Action → Prop
  | .call _ entered => entered.flags = {}
  | .complete _ flags _ => flags.async = false
  | _ => True

end FreeWindows.Rtl.RunOnce
