/-
**No message is lost or handed out twice, and when the port is signaled.**

What `step_spec` says of one action, for whole runs in which `depth` does not wrap:

* `messages_of_runs`: threads that follow the protocol get the messages in order and exactly once;
* `port_signaled_iff`: whatever the threads do, the sync object is signaled over an empty queue if a
  wait takes the last message, and only then.
-/

import FreeWindows.Completion.Steps

namespace FreeWindows.Completion

open Lib Server

/-- **Messages are handed out in order and exactly once.** In every run of threads that follow the
protocol, each action is carried out; the messages that were handed out to threads, followed by those
in the queue, are the messages that were added; each thread has received the messages handed out to it
in this order, except for the one that is parked with it; and `depth` is the length of the queue. No
thread that is not suspended waits while there is a message. -/
theorem messages_of_runs {s : Server}
    (run : Runs Server.step (fun s action => Follows s action ∧ s.Counts action) Server.initial s) :
    (∀ action, Follows s action → s.Counts action → ∃ s', s.step action = .ok s') ∧
    s.handed.map Prod.snd ++ s.port.queue = s.added ∧
    (∀ id, forThread id s.received ++ (s.parked id).toList = forThread id s.handed) ∧
    s.port.depth.toNat = s.port.queue.length ∧
    ∀ id, (s.threads id).wait.isSome → (s.threads id).suspend = 0 → s.port.queue = [] := by
  obtain ⟨settled, ledger⟩ := run.invariant (fun s => s.Settled ∧ s.Ledger)
    ⟨settled_initial, fun _ => ⟨rfl, nofun⟩⟩ fun s action t ⟨settled, ledger⟩ ⟨follows, counts⟩ done => by
      have carries := (step_spec settled counts).post done
      exact ⟨carries.settled, carries.ledger follows ledger⟩
  refine ⟨fun action _ counts => (step_spec settled counts).returns.imp fun _ => And.left,
    settled.linked.order, fun id => (ledger id).delivered, settled.linked.depth, fun id isWaiting resumed => ?_⟩
  obtain idle | suspended | empty := settled.served id
  · rw [idle] at isWaiting
    cases isWaiting
  · exact absurd resumed suspended
  · exact empty

/-- Two threads wait, one of them suspended; of three messages the other one gets the first by its
wait and the second by removing it, before the suspended one goes on. -/
def someActions : List Action :=
  [.remove 0 false, .select 0 true false timeoutInfinite, .remove 1 false,
    .select 1 true false timeoutInfinite, .suspend 1, .add ⟨1, 0, 0, 0⟩, .add ⟨2, 0, 0, 0⟩,
    .add ⟨3, 0, 0, 0⟩, .getThreadCompletion 0, .remove 0 false, .resume 1]

theorem messages_of_runs_someActions :
    ∃ s, someActions.foldlM (checked Server.step fun s action => Follows s action ∧ s.Counts action)
        Server.initial = some s ∧
      s.received.map (fun entry => (entry.1, entry.2.ckey)) = [(0, 1), (0, 2)] ∧
      (s.parked 1).map Message.ckey = some 3 ∧ s.handed.map Prod.snd ++ s.port.queue = s.added := by
  obtain ⟨s, done, received, parked⟩ := exists_some_of_check
    (x := someActions.foldlM (checked step fun s action => Follows s action ∧ s.Counts action) initial)
    (fun s => s.received.map (fun entry => (entry.1, entry.2.ckey)) = [(0, 1), (0, 2)] ∧
      (s.parked 1).map Message.ckey = some 3) (by decide +kernel)
  exact ⟨s, done, received, parked, (messages_of_runs (runs_of_checked done)).2.1⟩

/-- **The port is signaled if and only if there is a message**, after every action of a run, if and
only if no action lets a wait take the last message. -/
theorem port_signaled_iff (actions : List Action)
    (counts : Meets Server.step Server.Counts Server.initial actions) :
    Keeps Server.step Server.Signaled Server.initial actions ↔
      Meets Server.step (fun s action => ¬s.TakesLast action) Server.initial actions := by
  refine keeps_iff_meets
    (fun actions s => s.Settled ∧ s.Signaled ∧ Meets Server.step Server.Counts s actions) ?_ ?_
    ⟨settled_initial, iff_of_false nofun fun message => message rfl, counts⟩
  · rintro s action rest ⟨settled, signaled, counts, later⟩ keeps
    obtain ⟨t, done, carries⟩ := (step_spec settled counts).returns
    have still := (carries.signaled signaled).mpr keeps
    exact ⟨t, done, still, carries.settled, still, later t done⟩
  · rintro s action rest t ⟨settled, signaled, counts, -⟩ done isSignaled
    exact (((step_spec settled counts).post done).signaled signaled).mp isSignaled

/-- A message is added and removed. -/
theorem port_signaled_iff_removed : Keeps Server.step Server.Signaled Server.initial
    [.add ⟨1, 0, 0, 0⟩, .remove 0 false, .remove 0 false] := by
  refine (port_signaled_iff _ ?_).mpr
    ⟨not_false, fun _ _ => ⟨not_false, fun _ _ => ⟨not_false, fun _ _ => trivial⟩⟩⟩
  exact ⟨by decide, fun _ _ => ⟨trivial, fun _ _ => ⟨trivial, fun _ _ => trivial⟩⟩⟩

/-- A thread asks for a message and gets a handle to wait on; a message is added before it waits, and
the wait takes the message. The port stays signaled. -/
theorem signaled_over_empty_queue : ∃ s, runAll Server.step Server.initial
    [.remove 0 false, .add ⟨1, 0, 0, 0⟩, .select 0 true false timeoutInfinite] = .ok s ∧
      s.port.sync = true ∧ s.port.queue = [] :=
  exists_ok_of_check (fun s : Server => s.port.sync = true ∧ s.port.queue = []) (by decide +kernel)

end FreeWindows.Completion
