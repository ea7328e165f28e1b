/-
**The events of a one-time initialisation.**

`stage`, `waiters` and `owed` are what an observer of the events knows, and `Allowed` says which events
may follow: an initialisation is only begun when none is running or done, a call only returns the
context of the one that is done, and a thread that completes an initialisation releases those that
were queued, one after the other.

* `Conforms.lists`: in a history of allowed events no thread is in two lists, and every thread is
  released as often as it was queued, unless it is in a list.
-/

import FreeWindows.Rtl.RunOnce.Model

namespace FreeWindows.Rtl.RunOnce

open List

inductive Stage
  | fresh
  | running (t : Nat)
  | done (context : Nat)
deriving DecidableEq, Repr

/-- How far the initialisation is. -/
def stage : List Event → Stage
  | [] => .fresh
  | .begun t :: _ => .running t
  | .completed _ (some context) :: _ => .done context
  | .completed _ none :: _ => .fresh
  | _ :: log => stage log

/-- The threads that were queued since the initialisation was begun, the last one first. -/
def waiters : List Event → List Nat
  | [] => []
  | .begun _ :: _ => []
  | .completed _ _ :: _ => []
  | .queued t :: log => t :: waiters log
  | _ :: log => waiters log

/-- The threads that a thread has to release: those that were queued when it completed the
initialisation, without those that it has released since. -/
def owed (t : Nat) : List Event → List Nat
  | [] => []
  | .completed u _ :: log => if u = t then waiters log else owed t log
  | .released u v :: log => if u = t then (owed t log).erase v else owed t log
  | _ :: log => owed t log

/-- The events that may follow. -/
def Allowed (log : List Event) : Event → Prop
  | .begun _ => stage log = .fresh
  | .returned _ call status context =>
    ∃ done, stage log = .done done ∧ status = .success ∧
      context = if call.wanted then some done else none
  | .queued t => (∃ u, stage log = .running u) ∧ t ∉ waiters log ∧ ∀ u, t ∉ owed u log
  | .completed t _ => stage log = .running t ∧ owed t log = []
  | .released t u => (owed t log).head? = some u
  | .finished t => owed t log = []

/-- Every event was allowed when it happened. -/
def Conforms : List Event → Prop
  | [] => True
  | event :: log => Allowed log event ∧ Conforms log

/-- The lists: that of the running initialisation, and for every thread those that it has to
release. -/
def held (log : List Event) : Option Nat → List Nat
  | none => waiters log
  | some t => owed t log

/-- How often a thread was queued. -/
def timesQueued (u : Nat) (log : List Event) : Nat := log.countP (· = .queued u)

def Event.Releases (u : Nat) : Event → Bool
  | .released _ v => v = u
  | _ => false

/-- How often a thread was released. -/
def timesReleased (u : Nat) (log : List Event) : Nat := log.countP (Event.Releases u)

section Lists

variable {log : List Event} {t u : Nat}

theorem held_begun (t : Nat) (log : List Event) (none : waiters log = []) :
    held (.begun t :: log) = held log := by
  funext holder
  cases holder with
  | none => exact none.symm
  | some u => rfl

theorem held_returned (t : Nat) (call : Call) (status : Status) (context : Option Nat)
    (log : List Event) : held (.returned t call status context :: log) = held log := by
  funext holder
  cases holder <;> rfl

theorem held_finished (t : Nat) (log : List Event) : held (.finished t :: log) = held log := by
  funext holder
  cases holder <;> rfl

theorem held_completed (t : Nat) (context : Option Nat) (log : List Event) (holder : Option Nat) :
    held (.completed t context :: log) holder = if holder = none then [] else
      if holder = some t then held log none else held log holder := by
  cases holder with
  | none => rfl
  | some v =>
    by_cases same : v = t
    · simp [held, owed, same]
    · simp [held, owed, same, Ne.symm same]

theorem held_released (t u : Nat) (log : List Event) (holder : Option Nat) :
    held (.released t u :: log) holder =
      if holder = some t then (held log holder).erase u else held log holder := by
  cases holder with
  | none => rfl
  | some v =>
    by_cases same : v = t
    · simp [held, owed, same]
    · simp [held, owed, same, Ne.symm same]

theorem mem_held_queued {holder : Option Nat} : u ∈ held (.queued t :: log) holder ↔
    (u = t ∧ holder = none) ∨ u ∈ held log holder := by
  cases holder with
  | none => exact mem_cons.trans (by simp only [and_true]; rfl)
  | some v => exact ⟨.inr, fun found => found.resolve_left nofun⟩

/-- What the lists are like. -/
structure Lists (log : List Event) : Prop where
  nodup : ∀ holder, (held log holder).Nodup
  exclusive : ∀ first second u, u ∈ held log first → u ∈ held log second → first = second
  unqueued : (∀ r, stage log ≠ .running r) → waiters log = []
  listed : ∀ u holder, u ∈ held log holder → timesQueued u log = timesReleased u log + 1
  unlisted : ∀ u, (∀ holder, u ∉ held log holder) → timesQueued u log = timesReleased u log

theorem Lists.same {event : Event} (lists : Lists log) (holds : held (event :: log) = held log)
    (running : (∀ r, stage (event :: log) ≠ .running r) → waiters log = [])
    (queued : ∀ u, timesQueued u (event :: log) = timesQueued u log)
    (released : ∀ u, timesReleased u (event :: log) = timesReleased u log) : Lists (event :: log) where
  nodup := holds ▸ lists.nodup
  exclusive := holds ▸ lists.exclusive
  unqueued idle := (congrFun holds none).trans (running idle)
  listed u holder member := by
    rw [queued, released]
    exact lists.listed u holder (holds ▸ member)
  unlisted u absent := by
    rw [queued, released]
    exact lists.unlisted u (holds ▸ absent)

theorem Lists.queue (lists : Lists log) (running : ∃ r, stage log = .running r)
    (absent : ∀ holder, t ∉ held log holder) : Lists (.queued t :: log) := by
  have released : ∀ u, timesReleased u (.queued t :: log) = timesReleased u log := fun u =>
    countP_cons_of_neg nofun
  have again : timesQueued t (.queued t :: log) = timesQueued t log + 1 :=
    countP_cons_of_pos (by simp)
  have queued : ∀ u, u ≠ t → timesQueued u (.queued t :: log) = timesQueued u log := fun u other =>
    countP_cons_of_neg (by simpa using Ne.symm other)
  refine ⟨?_, ?_, ?_, ?_, ?_⟩
  · intro holder
    cases holder with
    | none => exact nodup_cons.mpr ⟨absent none, lists.nodup none⟩
    | some u => exact lists.nodup (some u)
  · intro a b u inA inB
    rw [mem_held_queued] at inA inB
    rcases inA with ⟨rfl, rfl⟩ | inA <;> rcases inB with ⟨same, rfl⟩ | inB
    · rfl
    · exact absurd inB (absent b)
    · exact absurd (same ▸ inA) (absent a)
    · exact lists.exclusive a b u inA inB
  · obtain ⟨r, running⟩ := running
    exact fun none => absurd running (none r)
  · intro u holder member
    rw [released]
    by_cases same : u = t
    · rw [same, again, lists.unlisted t absent]
    · rw [queued u same]
      exact lists.listed u holder ((mem_held_queued.mp member).resolve_left fun own => same own.1)
  · intro u out
    have other : u ≠ t := fun same => out none (mem_held_queued.mpr (.inl ⟨same, rfl⟩))
    rw [queued u other, released]
    exact lists.unlisted u fun holder member => out holder (mem_held_queued.mpr (.inr member))

variable {context : Option Nat}

/-- Every list after a completion is one of the lists before. -/
theorem mem_held_of_completed {holder : Option Nat}
    (member : u ∈ held (.completed t context :: log) holder) :
    u ∈ held log (if holder = some t then none else holder) := by
  rw [held_completed] at member
  split at member
  · nomatch member
  · split at member
    · next same => simpa [same] using member
    · next other => simpa [other] using member

theorem exists_held_completed (paid : owed t log = []) :
    (∃ holder, u ∈ held (.completed t context :: log) holder) ↔ ∃ holder, u ∈ held log holder := by
  constructor
  · rintro ⟨holder, member⟩
    exact ⟨_, mem_held_of_completed member⟩
  · rintro ⟨holder, member⟩
    cases holder with
    | none => exact ⟨some t, by simpa [held_completed] using member⟩
    | some v =>
      -- the thread itself had no list before
      have other : v ≠ t := by
        rintro rfl
        rw [show held log (some v) = [] from paid] at member
        nomatch member
      exact ⟨some v, by simpa [held_completed, other] using member⟩

theorem Lists.complete (lists : Lists log) (paid : owed t log = []) :
    Lists (.completed t context :: log) := by
  refine ⟨?_, ?_, fun _ => rfl, ?_, ?_⟩
  · intro holder
    rw [held_completed]
    split
    · exact nodup_nil
    · split
      · exact lists.nodup none
      · exact lists.nodup holder
  · intro a b u inA inB
    have equal := lists.exclusive _ _ u (mem_held_of_completed inA) (mem_held_of_completed inB)
    rw [held_completed] at inA inB
    grind
  · intro u holder member
    exact lists.listed u _ (mem_held_of_completed member)
  · intro u out
    refine lists.unlisted u fun holder member => ?_
    obtain ⟨other, found⟩ := (exists_held_completed paid).mpr ⟨holder, member⟩
    exact out other found

/-- The thread that is released is in no other list. -/
theorem Lists.held_erase (lists : Lists log) (first : (owed t log).head? = some u)
    (holder : Option Nat) : held (.released t u :: log) holder = (held log holder).erase u := by
  have mine : u ∈ held log (some t) := mem_of_head? first
  rw [held_released]
  split
  · rfl
  · next other =>
    exact (erase_of_not_mem fun member => other (lists.exclusive _ _ u member mine)).symm

theorem Lists.release (lists : Lists log) (first : (owed t log).head? = some u) :
    Lists (.released t u :: log) := by
  have queued : ∀ v, timesQueued v (.released t u :: log) = timesQueued v log := fun v =>
    countP_cons_of_neg (by simp)
  have again : timesReleased u (.released t u :: log) = timesReleased u log + 1 :=
    countP_cons_of_pos (by simp [Event.Releases])
  have released : ∀ v, v ≠ u → timesReleased v (.released t u :: log) = timesReleased v log :=
    fun v other => countP_cons_of_neg (by simpa [Event.Releases] using Ne.symm other)
  have mine : u ∈ held log (some t) := mem_of_head? first
  have members : ∀ v holder, v ∈ held (.released t u :: log) holder ↔ v ≠ u ∧ v ∈ held log holder := by
    intro v holder
    rw [lists.held_erase first, (lists.nodup holder).mem_erase_iff]
  refine ⟨?_, ?_, lists.unqueued, ?_, ?_⟩
  · intro holder
    rw [lists.held_erase first]
    exact (lists.nodup holder).erase u
  · intro a b v inA inB
    exact lists.exclusive a b v ((members v a).mp inA).2 ((members v b).mp inB).2
  · intro v holder member
    obtain ⟨other, before⟩ := (members v holder).mp member
    rw [queued, released v other]
    exact lists.listed v holder before
  · intro v out
    by_cases same : v = u
    · rw [same, queued, again]
      exact lists.listed u _ mine
    · rw [queued, released v same]
      exact lists.unlisted v fun holder member => out holder ((members v holder).mpr ⟨same, member⟩)

theorem Conforms.lists (conforms : Conforms log) : Lists log := by
  induction log with
  | nil =>
    have none : ∀ u holder, u ∉ held [] holder := by
      intro u holder
      cases holder <;> nofun
    refine ⟨fun holder => ?_, fun _ _ u member => absurd member (none u _), fun _ => rfl,
      fun u _ member => absurd member (none u _), fun _ _ => rfl⟩
    cases holder <;> exact nodup_nil
  | cons event log ih =>
    obtain ⟨allowed, before⟩ := conforms
    have lists := ih before
    cases event with
    | begun t =>
      have unqueued : waiters log = [] := by
        refine lists.unqueued fun r running => ?_
        rw [show stage log = .fresh from allowed] at running
        nomatch running
      exact lists.same (held_begun t log unqueued) (fun _ => unqueued)
        (fun _ => countP_cons_of_neg (by simp)) fun _ => countP_cons_of_neg nofun
    | returned t call status context =>
      exact lists.same (held_returned ..) lists.unqueued (fun _ => countP_cons_of_neg (by simp))
        fun _ => countP_cons_of_neg nofun
    | queued t =>
      refine lists.queue allowed.1 fun holder => ?_
      cases holder with
      | none => exact allowed.2.1
      | some u => exact allowed.2.2 u
    | completed t context => exact lists.complete allowed.2
    | released t u => exact lists.release allowed
    | finished t =>
      exact lists.same (held_finished ..) lists.unqueued (fun _ => countP_cons_of_neg (by simp))
        fun _ => countP_cons_of_neg nofun

end Lists

end FreeWindows.Rtl.RunOnce
