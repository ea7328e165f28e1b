/-
**The word and the frames of a one-time initialisation.**

What holds between the steps: the word, the frames and the program counters of the threads agree with
the events. A list of threads is followed from its head through the variables `next` of its threads,
so every thread in a list is still in its call. `Inv.unlisted`, `Inv.quiet` and `Inv.goto` are for steps
that leave the lists alone.
-/

import FreeWindows.Rtl.RunOnce.Events

namespace FreeWindows.Rtl.RunOnce

open Lib Function Pc State

/-! ### The word -/

theorem or_eq_add {a b : Nat} (aligned : bits a = 0) (small : b < 4) : a ||| b = a + b := by
  have split : a = 2 ^ 2 * (a / 4) := by
    simp only [bits] at aligned
    omega
  rw [split]
  exact (Nat.two_pow_add_eq_or_of_lt small (a / 4)).symm

theorem bits_or {a b : Nat} (aligned : bits a = 0) (small : b < 4) : bits (a ||| b) = b := by
  rw [or_eq_add aligned small]
  simp only [bits] at aligned ⊢
  omega

theorem pointer_or {a b : Nat} (aligned : bits a = 0) (small : b < 4) : pointer (a ||| b) = a := by
  rw [or_eq_add aligned small]
  simp only [bits, pointer] at aligned ⊢
  omega

/-! ### The invariant -/

namespace Pc

/-- The call of `RtlRunOnceBeginInitialize` that the thread is in. -/
def call : Pc → Option Call
  | beginning call | claiming call | enqueueing call _ | queued call | waiting call => some call
  | _ => none

/-- The address by which a thread is in a list. -/
def asleep : Pc → Option Nat
  | queued call | waiting call => some call.addr
  | _ => none

/-- The first of the threads that this thread has to release. -/
def debt : Pc → Nat
  | releasing val | waking val _ => val
  | _ => 0

/-- The thread was told to initialise and has not completed the initialisation. -/
def Initialises : Pc → Prop
  | pending | refused | completing .. | exchanging .. => True
  | _ => False

end Pc

def AlignedContext (context : Option Nat) : Prop := ∀ c, context = some c → bits c = 0

/-- What a thread relies on. -/
def Local (stack : Nat → Option Nat) : Pc → Prop
  | .enqueueing call val => bits val = 1 ∧ stack call.addr = some (pointer val)
  | .completing context async => AlignedContext context ∧ async = false
  | .exchanging context async val => AlignedContext context ∧ async = false ∧ bits val = 1
  | .releasing val => val ≠ 0
  | .waking val next => val ≠ 0 ∧ stack val = some next
  | _ => True

/-- The threads in a list that starts at an address. -/
def Linked (s : State) : Nat → List Nat → Prop
  | head, [] => head = 0
  | head, u :: rest =>
    (s.pc u).asleep = some head ∧ ∃ next, s.stack head = some next ∧ Linked s next rest

def State.head (s : State) : Option Nat → Nat
  | none => if bits s.ptr = 1 then pointer s.ptr else 0
  | some t => (s.pc t).debt

/-- The word agrees with the events. -/
def Word (ptr : Nat) : Stage → Prop
  | .fresh => ptr = 0
  | .running _ => bits ptr = 1
  | .done context => bits context = 0 ∧ ptr = context ||| 2

/-- Every frame exists, at an address of its own. -/
structure Frames (s : State) : Prop where
  placed : ∀ t call, (s.pc t).call = some call →
    call.flags = {} ∧ call.addr ≠ 0 ∧ bits call.addr = 0 ∧ s.stack call.addr ≠ none
  apart : ∀ t u first second, (s.pc t).call = some first → (s.pc u).call = some second →
    first.addr = second.addr → t = u

structure Inv (s : State) : Prop where
  frames : Frames s
  relies : ∀ t, Local s.stack (s.pc t)
  initialises : ∀ t, (s.pc t).Initialises ↔ stage s.log = .running t
  word : Word s.ptr (stage s.log)
  linked : ∀ holder, Linked s (s.head holder) (held s.log holder)
  asleep : ∀ u, (s.pc u).asleep ≠ none ↔ ∃ holder, u ∈ held s.log holder
  conforms : Conforms s.log

section Lemmas

variable {s s' : State} {t u head addr : Nat} {p q : Pc} {us : List Nat}

theorem Pc.call_of_asleep (asleep : p.asleep = some addr) :
    ∃ call, p.call = some call ∧ call.addr = addr := by
  cases p <;> simp only [Pc.asleep, Option.some.injEq, reduceCtorEq] at asleep
  · exact ⟨_, rfl, asleep⟩
  · exact ⟨_, rfl, asleep⟩

theorem Pc.debt_of_call {call : Call} (called : p.call = some call) : p.debt = 0 := by
  cases p <;> first | rfl | nomatch called

theorem Linked.congr (linked : Linked s head us) (same : ∀ u ∈ us, ∀ addr,
    (s.pc u).asleep = some addr → (s'.pc u).asleep = some addr ∧ s'.stack addr = s.stack addr) :
    Linked s' head us := by
  induction us generalizing head with
  | nil => exact linked
  | cons u rest ih =>
    obtain ⟨asleep, next, link, behind⟩ := linked
    obtain ⟨still, kept⟩ := same u (List.mem_cons_self ..) head asleep
    exact ⟨still, next, kept.trans link, ih behind fun v member => same v (List.mem_cons_of_mem _ member)⟩

theorem Linked.asleep_of_ne (linked : Linked s head us) (nonzero : head ≠ 0) :
    ∃ u rest, us = u :: rest ∧ (s.pc u).asleep = some head := by
  cases us with
  | nil => exact absurd linked nonzero
  | cons u rest => exact ⟨u, rest, rfl, linked.1⟩

theorem Frames.of_calls (frames : Frames s) (calls : ∀ u call, (s'.pc u).call = some call →
    (s.pc u).call = some call ∧ s'.stack call.addr ≠ none) : Frames s' where
  placed u call called := by
    obtain ⟨plain, nonzero, aligned, -⟩ := frames.placed u call (calls u call called).1
    exact ⟨plain, nonzero, aligned, (calls u call called).2⟩
  apart u v first second called also :=
    frames.apart u v first second (calls u first called).1 (calls v second also).1

/-- A thread returns from its call, or stays in it. -/
theorem Frames.move (frames : Frames s) (pc : s'.pc = update s.pc t p) (stack : s'.stack = s.stack)
    (call : ∀ c, p.call = some c → (s.pc t).call = some c) : Frames s' := by
  refine frames.of_calls fun u c called => ?_
  have before : (s.pc u).call = some c := by
    rw [pc] at called
    by_cases same : u = t
    · rw [same, update_self] at called
      exact same ▸ call c called
    · rwa [update_of_ne same] at called
  rw [stack]
  exact ⟨before, (frames.placed u c before).2.2.2⟩

/-- What a thread relies on is in its frame or in that of a thread in a list. -/
theorem Inv.relies_of_cells (inv : Inv s)
    (cells : ∀ v addr, (s.pc v).asleep = some addr → s'.stack addr = s.stack addr)
    (own : ∀ call, (s.pc u).call = some call → s'.stack call.addr = s.stack call.addr) :
    Local s'.stack (s.pc u) := by
  have before := inv.relies u
  cases now : s.pc u with
  | enqueueing call val =>
    rw [now] at before
    exact ⟨before.1, (own call (by rw [now]; rfl)).trans before.2⟩
  | waking val next =>
    rw [now] at before
    have linked := inv.linked (some u)
    simp only [head, now, debt] at linked
    obtain ⟨v, -, -, sleeping⟩ := linked.asleep_of_ne before.1
    exact ⟨before.1, (cells v val sleeping).trans before.2⟩
  | _ =>
    rw [now] at before
    exact before

section Step

variable (here : s.pc t = q)
  (others : ∀ u call, u ≠ t → (s.pc u).call = some call → s'.stack call.addr = s.stack call.addr)
  (own : ∀ addr, q.asleep = some addr → s'.stack addr = s.stack addr)
include here others own

/-- The cells of the lists are in frames. -/
theorem cells_of_frames (u addr : Nat) (sleeping : (s.pc u).asleep = some addr) :
    s'.stack addr = s.stack addr := by
  by_cases same : u = t
  · exact own addr (by rwa [← here, ← same])
  · obtain ⟨call, called, rfl⟩ := call_of_asleep sleeping
    exact others u call same called

/-- A step of one thread that leaves the lists and the frames of the others as they are. -/
theorem Inv.unlisted (inv : Inv s) (p : Pc) (pc : s'.pc = update s.pc t p)
    (asleep : p.asleep = q.asleep) (heads : ∀ holder, s'.head holder = s.head holder)
    (initialises : ∀ u, (s'.pc u).Initialises ↔ stage s'.log = .running u)
    (word : Word s'.ptr (stage s'.log)) (frames : Frames s') (relies : Local s'.stack p)
    (holds : held s'.log = held s.log) (conforms : Conforms s'.log) : Inv s' := by
  have sleeps (u : Nat) : (s'.pc u).asleep = (s.pc u).asleep := by
    rw [pc, observe_update Pc.asleep (here ▸ asleep)]
  have cells := cells_of_frames here others own
  refine ⟨frames, ?_, initialises, word, ?_, ?_, conforms⟩
  · rw [pc, forall_update_iff s.pc fun _ => Local s'.stack]
    exact ⟨relies, fun u other => inv.relies_of_cells cells fun call => others u call other⟩
  · intro holder
    rw [heads, holds]
    exact (inv.linked holder).congr fun u _ addr sleeping =>
      ⟨(sleeps u).trans sleeping, cells u addr sleeping⟩
  · intro u
    rw [holds, sleeps]
    exact inv.asleep u

/-- A step of one thread that also leaves the word as it is. -/
theorem Inv.quiet (inv : Inv s) (p : Pc) (pc : s'.pc = update s.pc t p)
    (ptr : s'.ptr = s.ptr) (asleep : p.asleep = q.asleep) (debt : p.debt = q.debt)
    (initialises : p.Initialises ↔ q.Initialises) (frames : Frames s') (relies : Local s'.stack p)
    (staged : stage s'.log = stage s.log) (holds : held s'.log = held s.log)
    (conforms : Conforms s'.log) : Inv s' := by
  refine inv.unlisted here others own p pc asleep ?_ ?_ ?_ frames relies holds conforms
  · intro holder
    cases holder with
    | none => simp only [head, ptr]
    | some u => rw [head, head, pc, observe_update Pc.debt (here ▸ debt)]
  · intro u
    rw [staged, ← inv.initialises u, pc, observe_update Pc.Initialises (here ▸ propext initialises)]
  · rw [ptr, staged]
    exact inv.word

end Step

/-- A step of one thread that changes no cell. -/
theorem Inv.goto (inv : Inv s) (here : s.pc t = q) (relies : Local s.stack p)
    (call : p.call = q.call := by rfl) (asleep : p.asleep = q.asleep := by rfl)
    (debt : p.debt = q.debt := by rfl) (initialises : p.Initialises ↔ q.Initialises := by rfl) :
    Inv (s.goto t p) := by
  refine inv.quiet here (fun _ _ _ _ => rfl) (fun _ _ => rfl) p rfl rfl asleep debt initialises
    (inv.frames.move rfl rfl fun c called => ?_) relies rfl rfl inv.conforms
  rw [here, ← call, called]

/-- A thread returns from a call in which it is in no list. -/
theorem Frames.leave {call : Call} (frames : Frames s) (called : (s.pc t).call = some call)
    (pc : s'.pc = update s.pc t p) (gone : p.call = none)
    (stack : s'.stack = update s.stack call.addr none) :
    Frames s' ∧ ∀ u other, u ≠ t → (s.pc u).call = some other →
      s'.stack other.addr = s.stack other.addr := by
  have others : ∀ u other, u ≠ t → (s.pc u).call = some other →
      s'.stack other.addr = s.stack other.addr := by
    intro u other different also
    rw [stack, update_of_ne fun same => different (frames.apart u t other call also called same)]
  refine ⟨frames.of_calls fun u other also => ?_, others⟩
  by_cases same : u = t
  · rw [same, pc, update_self, gone] at also
    cases also
  · rw [pc, update_of_ne same] at also
    rw [others u other same also]
    exact ⟨also, (frames.placed u other also).2.2.2⟩

/-- No frame is at the address zero, so a list from there is empty. -/
theorem Frames.eq_nil (frames : Frames s) (linked : Linked s 0 us) : us = [] := by
  cases us with
  | nil => rfl
  | cons u rest =>
    obtain ⟨call, called, addr⟩ := call_of_asleep linked.1
    exact absurd addr (frames.placed u call called).2.1

theorem Inv.held_eq_nil (inv : Inv s) {holder : Option Nat} (zero : s.head holder = 0) :
    held s.log holder = [] :=
  inv.frames.eq_nil (zero ▸ inv.linked holder)

end Lemmas

end FreeWindows.Rtl.RunOnce
