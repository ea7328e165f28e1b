/-
**Runs of a singly linked list.**

`slist_linearizable`: in every interleaving the log is one of an atomic stack, which the list in memory
represents. A thread may be arbitrarily slow, as long as the sequence number does not get around while it
goes from reading it to exchanging the header.
-/

import FreeWindows.Lib.Run
import FreeWindows.Rtl.SList.Invariant

namespace FreeWindows.Rtl.SList

open Lib Function List Object State

section Steps

variable {ι : Type} [DecidableEq ι] {bits : Nat} {s : State ι} {t : ι}

theorem Inv.stack_eq_nil (inv : Inv bits s) (none : s.header.next = 0) : s.stack = [] := by
  have first := inv.chain.head
  have nonzero := inv.nonzero
  cases contents : s.stack with
  | nil => rfl
  | cons entry rest =>
    rw [contents] at first nonzero
    exact absurd (mem_cons.mpr (.inl (none.symm.trans first))) nonzero

theorem status_emit {event : Event ι} (own : event.thread = t) (u : ι) (different : u ≠ t) :
    (s.emit event).status u = s.status u :=
  status_other (own ▸ different.symm)

theorem status_committed (s : State ι) (t : ι) (op : Op) :
    (s.emit (.committed t op)).status t = .committed op (apply op s.stack).1 :=
  Object.status_committed

variable {op : Op} {pc : Pc} {seen : Nat} {new : Header} (inv : Inv bits s)
include inv

/-- An operation takes effect on an empty list, which it leaves alone. -/
theorem empty_inv (called : s.status t = .called op) (empty : s.header.next = 0)
    (nothing : apply op [] = (⟨0, []⟩, []))
    (fits : (s.emit (.committed t op)).status t = .committed op ⟨0, []⟩ →
      Fits bits (s.emit (.committed t op)) t pc) : Inv bits ((s.emit (.committed t op)).goto t pc) := by
  have nil := inv.stack_eq_nil empty
  have stack : (s.emit (.committed t op)).stack = s.stack := by
    show (apply op s.stack).2 = s.stack
    rw [nil, nothing]
  have status : (s.emit (.committed t op)).status t = .committed op ⟨0, []⟩ := by
    rw [status_committed, nil, nothing]
  refine inv.step ⟨called, inv.conforms⟩ stack inv.chain inv.nonzero inv.nodup inv.depth inv.sequence rfl
    (status_emit rfl) (fun _ _ _ _ => rfl) (.inl ⟨rfl, rfl, fun _ _ => rfl⟩) (fun _ => .inl) ?_ ?_ (fits status)
  · rw [status]
    nofun
  · rw [status]
    nofun

theorem returned_inv {pointer : Nat} (here : s.pcs t = .returning pointer) :
    Inv bits ((s.emit (.returned t pointer)).goto t .idle) := by
  have fits := inv.fits t
  rw [here] at fits
  obtain ⟨op, outcome, committed, answer, -⟩ := fits
  have status : (s.emit (.returned t pointer)).status t = .idle := status_returned
  refine inv.step ⟨⟨op, outcome, committed, answer⟩, inv.conforms⟩ rfl inv.chain inv.nonzero inv.nodup inv.depth
    inv.sequence rfl (status_emit rfl) (fun _ _ _ _ => rfl) (.inl ⟨rfl, rfl, fun _ _ => rfl⟩) (fun _ => .inl)
    ?_ ?_ status
  · rw [status]
    nofun
  · rw [status]
    nofun

/-- An operation is called, with entries that nobody else uses. -/
theorem called_inv (here : s.pcs t = .idle) (distinct : op.entries.Nodup) (nonzero : 0 ∉ op.entries)
    (free : ∀ entry ∈ op.entries, s.Free entry)
    (linked : ∀ front last, op = .push front last → Path s.memory (front.headD last) front last)
    (fits : Fits bits (s.emit (.called t op)) t pc) : Inv bits ((s.emit (.called t op)).goto t pc) := by
  have idle := inv.fits t
  rw [here] at idle
  have status : (s.emit (.called t op)).status t = .called op := status_called
  refine inv.step ⟨idle, inv.conforms⟩ rfl inv.chain inv.nonzero inv.nodup inv.depth inv.sequence rfl
    (status_emit rfl) (fun _ _ _ _ => rfl) (.inl ⟨rfl, rfl, fun _ _ => rfl⟩) (fun _ => .inl) ?_ ?_ fits
  · rw [status]
    exact fun entry member => ⟨(free entry member).1, fun u _ => (free entry member).2 u⟩
  · rw [status]
    intro front last same
    cases same
    exact ⟨distinct, nonzero, linked front last rfl⟩

/-- The last entry is linked to the first one of the list. -/
theorem linked_inv {front : List Nat} {last : Nat} {old : Header}
    (called : s.status t = .called (.push front last)) (fact : Seen bits s old.sequence seen) :
    Inv bits ({ s with memory := update s.memory last (some old.next) }.goto t
      (.exchanging (.push front last) (pushHeader bits old front last) old seen)) := by
  have mine : last ∈ held (s.status t) := by
    rw [called]
    exact mem_append_right _ (mem_singleton_self _)
  have others : ∀ entry, entry ≠ last → update s.memory last (some old.next) entry = s.memory entry :=
    fun entry different => update_of_ne different ..
  have unlisted : ∀ entry ∈ s.stack, update s.memory last (some old.next) entry = s.memory entry := by
    intro entry member
    refine others entry ?_
    rintro rfl
    exact inv.apart t entry mine member
  refine inv.step inv.conforms rfl (inv.chain.congr unlisted) inv.nonzero inv.nodup inv.depth inv.sequence rfl
    (fun _ _ => rfl) ?_ (.inl ⟨rfl, rfl, unlisted⟩) (fun _ => .inl) inv.own ?_
    ⟨called, fact, rfl, update_self ..⟩
  · intro u different entry member
    refine others entry ?_
    rintro rfl
    exact different (inv.separate u t entry member mine)
  · intro front' last' also
    cases called.symm.trans also
    obtain ⟨distinct, some, path⟩ := inv.pushes t front last called
    refine ⟨distinct, some, path.congr fun entry member => others entry ?_⟩
    rintro rfl
    exact (nodup_append.mp distinct).2.2 entry member entry (mem_singleton_self _) rfl

/-- The header is exchanged, and the operation takes effect. -/
theorem commit_inv {outcome : Outcome} {stack : List Nat} (called : s.status t = .called op)
    (applied : apply op s.stack = (outcome, stack)) (chain : Path s.memory new.next stack 0)
    (nonzero : 0 ∉ stack) (nodup : stack.Nodup) (depth : new.depth = stack.length % 2 ^ 16)
    (sequence : new.sequence = (s.header.sequence + 1) % 2 ^ bits)
    (from? : ∀ entry ∈ stack, entry ∈ s.stack ∨ entry ∈ op.entries)
    (obtained : ∀ entry ∈ outcome.obtained, entry ∈ s.stack ∧ entry ∉ stack)
    (answer : outcome.pointer = s.header.next)
    (flushed : op = .flush → Path s.memory s.header.next outcome.obtained 0) :
    Inv bits (({ s with header := new, changes := s.changes + 1 }.emit (.committed t op)).goto t
      (.returning s.header.next)) := by
  have status : ({ s with header := new, changes := s.changes + 1 }.emit (.committed t op)).status t =
      .committed op outcome := by
    rw [status_committed]
    exact congrArg (fun out => Object.Status.committed op out.1) applied
  refine inv.step ⟨called, inv.conforms⟩ (congrArg Prod.snd applied) chain nonzero nodup depth ?_ rfl
    (fun u different => status_other different.symm) (fun _ _ _ _ => rfl) (.inr (Nat.lt_succ_self _))
    ?_ ?_ ?_ ⟨op, outcome, status, answer, flushed⟩
  · show new.sequence = (s.changes + 1) % 2 ^ bits
    rw [sequence, inv.sequence, Nat.mod_add_mod]
  · rw [called]
    exact from?
  · rw [status]
    intro entry member
    refine ⟨(obtained entry member).2, fun u _ also => ?_⟩
    exact inv.apart u entry also (obtained entry member).1
  · rw [status]
    nofun

theorem exchanged_inv (here : s.pcs t = .exchanging op new s.header seen)
    (room : s.changes < seen + 2 ^ bits) :
    Inv bits (({ s with header := new, changes := s.changes + 1 }.emit (.committed t op)).goto t
      (.returning s.header.next)) := by
  have fits := inv.fits t
  rw [here] at fits
  obtain ⟨called, fact, ready⟩ := fits
  have depth := inv.depth
  have first := inv.chain.head
  cases op with
  | push front last =>
    obtain ⟨rfl, linked⟩ := ready
    obtain ⟨distinct, some, path⟩ := inv.pushes t front last called
    have apart : ∀ entry ∈ front ++ [last], entry ∉ s.stack := by
      intro entry member
      refine inv.apart t entry ?_
      rw [called]
      exact member
    have split : front ++ last :: s.stack = (front ++ [last]) ++ s.stack := by simp
    refine commit_inv inv called rfl (path.append ⟨rfl, s.header.next, linked, inv.chain⟩) ?_ ?_ ?_ rfl ?_ nofun
      first.symm nofun
    · rw [split, mem_append, not_or]
      exact ⟨some, inv.nonzero⟩
    · rw [split, nodup_append]
      exact ⟨distinct, inv.nodup, fun a member b also same => apart a member (same ▸ also)⟩
    · show (s.header.depth + (front.length + 1)) % 2 ^ 16 = _
      rw [depth, Nat.mod_add_mod, split, length_append, length_append, length_singleton, Nat.add_comm]
    · rw [split]
      exact fun entry member => (mem_append.mp member).symm
  | pop =>
    -- the sequence number did not get around, so the link is the one of the first entry
    have unchanged : s.changes = seen := by
      have same : s.changes % 2 ^ bits = seen % 2 ^ bits := inv.sequence.symm.trans fact.1
      have before := fact.2
      have distance : (s.changes - seen) % 2 ^ bits = 0 := Nat.sub_mod_eq_zero_of_mod_eq same
      rw [Nat.mod_eq_of_lt (by omega)] at distance
      omega
    obtain ⟨next, linked, rfl⟩ := ready.2 unchanged rfl
    have chain := inv.chain
    have nonzero := inv.nonzero
    have nodup := inv.nodup
    cases contents : s.stack with
    | nil =>
      rw [contents] at first
      exact absurd first ready.1
    | cons entry rest =>
      rw [contents] at first chain nonzero nodup depth
      obtain ⟨-, link, also, later⟩ := chain
      rw [first] at linked
      cases linked.symm.trans also
      have applied : apply .pop s.stack = (⟨entry, [entry]⟩, rest) := by rw [contents]; rfl
      refine commit_inv inv called applied later (fun zero => nonzero (mem_cons_of_mem _ zero))
        (nodup_cons.mp nodup).2 ?_ rfl ?_ ?_ first.symm nofun
      · show (s.header.depth + 2 ^ 16 - 1) % 2 ^ 16 = rest.length % 2 ^ 16
        rw [depth, length_cons]
        omega
      · rw [contents]
        exact fun a member => .inl (mem_cons_of_mem _ member)
      · intro a member
        rw [mem_singleton.mp member, contents]
        exact ⟨mem_cons_self .., (nodup_cons.mp nodup).1⟩
  | flush =>
    obtain rfl := ready
    exact commit_inv inv called rfl rfl nofun nodup_nil rfl rfl nofun (fun a member => ⟨member, nofun⟩)
      first.symm fun _ => inv.chain

theorem readNext_inv (called : s.status t = .called op)
    (fits : ∀ s' : State ι, s'.changes = s.changes → Begun s' t op s.header.next → Fits bits s' t pc) :
    Inv bits ((s.readNext t op).goto t pc) := by
  unfold readNext
  split_ifs with empty
  · obtain ⟨rfl, none⟩ := empty
    refine empty_inv inv called none rfl fun status => fits _ rfl ?_
    rw [Begun, if_pos ⟨rfl, none⟩]
    exact status
  · refine inv.goto (fits _ rfl ?_)
    rw [Begun, if_neg empty]
    exact called

theorem prepare_inv {old : Header} (here : s.pcs t = .preparing op new old seen) :
    Inv bits (s.prepare bits t op new old seen) := by
  have fits := inv.fits t
  rw [here] at fits
  obtain ⟨begun, fact⟩ := fits
  cases op with
  | push front last => exact linked_inv inv begun fact
  | pop =>
    unfold prepare
    dsimp only
    split_ifs with none
    · rw [Begun, if_pos ⟨rfl, none⟩] at begun
      exact inv.goto ⟨.pop, ⟨0, []⟩, begun, rfl, nofun⟩
    · rw [Begun, if_neg fun empty => none empty.2] at begun
      split
      · next next linked => exact inv.goto ⟨begun, fact, none, fun _ _ => ⟨next, linked, rfl⟩⟩
      · next fault =>
        refine inv.goto ⟨begun, fact, none, fun _ same => ?_⟩
        -- the first entry of the stack is not gone
        have chain := inv.chain
        rw [same] at chain
        cases contents : s.stack with
        | nil =>
          rw [contents] at chain
          exact absurd chain none
        | cons entry rest =>
          rw [contents] at chain
          obtain ⟨rfl, link, linked, -⟩ := chain
          rw [fault] at linked
          cases linked
  | flush => exact inv.goto ⟨begun, fact, rfl⟩

theorem run_inv (t : ι) (nextFirst : Bool)
    (room : ∀ op new old seen, s.pcs t = .exchanging op new old seen → s.changes < seen + 2 ^ bits) :
    Inv bits (s.run bits t nextFirst) := by
  have fits := inv.fits t
  unfold run
  cases here : s.pcs t with
  | idle => exact inv
  | checking =>
    rw [here] at fits
    dsimp only
    split_ifs with empty
    · exact empty_inv inv fits empty rfl fun status => ⟨.flush, ⟨0, []⟩, status, rfl, fun _ => rfl⟩
    · exact inv.goto fits
  | reading op new =>
    rw [here] at fits
    dsimp only
    split_ifs
    · exact readNext_inv inv fits fun _ _ begun => begun
    · exact inv.goto ⟨fits, inv.sequence, le_rfl⟩
  | readingRest op new next =>
    rw [here] at fits
    exact inv.goto ⟨fits, inv.sequence, le_rfl⟩
  | readingNext op new depth sequence seen =>
    rw [here] at fits
    exact readNext_inv inv fits.1 fun s' changes begun => ⟨begun, fits.2.1, changes ▸ fits.2.2⟩
  | preparing op new old seen => exact prepare_inv inv here
  | exchanging op new old seen =>
    rw [here] at fits
    dsimp only
    split_ifs with same
    · subst same
      exact exchanged_inv inv here (room op new _ seen here)
    · exact inv.goto fits.1
  | returning pointer => exact returned_inv inv here

/-- The program uses an entry for something else. -/
theorem write_inv {entry : Nat} (free : s.Free entry) (value : Option Nat) :
    Inv bits { s with memory := update s.memory entry value } := by
  have listed : ∀ a ∈ s.stack, update s.memory entry value a = s.memory a := by
    intro a member
    refine update_of_ne ?_ ..
    rintro rfl
    exact free.1 member
  have used : ∀ t, ∀ a ∈ held (s.status t), update s.memory entry value a = s.memory a := by
    intro t a member
    refine update_of_ne ?_ ..
    rintro rfl
    exact free.2 t member
  refine ⟨inv.conforms, inv.chain.congr listed, inv.nonzero, inv.nodup, inv.depth, inv.sequence, inv.apart,
    inv.separate, ?_, fun t => (inv.fits t).frame inv rfl (used t) (.inl ⟨rfl, rfl, listed⟩)⟩
  intro t front last called
  obtain ⟨distinct, some, path⟩ := inv.pushes t front last called
  refine ⟨distinct, some, path.congr fun a member => used t a ?_⟩
  have before : s.status t = .called (.push front last) := called
  rw [before]
  exact mem_append_left _ member

/-- The entries that are pushed are linked up to the last one. -/
def Op.Linked (memory : Nat → Option Nat) : Op → Prop
  | push front last => Path memory (front.headD last) front last
  | _ => True

/-- What is assumed about a step. The program pushes entries that are not on the list and not in use
otherwise, and only uses others for something else. The header is changed fewer than `2^bits` times between
when a thread reads the sequence number and when it exchanges the header. -/
def Proper (bits : Nat) (s : State ι) : Action ι → Prop
  | .call _ op _ =>
    op.entries.Nodup ∧ 0 ∉ op.entries ∧ op.Linked s.memory ∧ ∀ entry ∈ op.entries, s.Free entry
  | .run t _ =>
    match s.pcs t with
    | .exchanging _ _ _ seen => s.changes < seen + 2 ^ bits
    | _ => True
  | .write entry _ => s.Free entry

theorem step_inv {s' : State ι} (action : Action ι) (proper : Proper bits s action)
    (done : s.step bits action = .ok s') : Inv bits s' := by
  cases action with
  | call t op new =>
    simp only [step] at done
    split at done <;> cases done
    · next idle =>
      obtain ⟨distinct, nonzero, linked, free⟩ := proper
      have called : (s.emit (.called t op)).status t = .called op := status_called
      refine called_inv inv idle distinct nonzero free ?_ ?_
      · rintro front last rfl
        exact linked
      · split_ifs with flush
        · exact flush ▸ called
        · exact called
    · exact inv
  | run t nextFirst =>
    cases done
    refine run_inv inv t nextFirst fun op new old seen here => ?_
    simp only [Proper, here] at proper
    exact proper
  | write entry value =>
    cases done
    exact write_inv inv proper value

end Steps

/-! ### Linearizability -/

section Sound

variable {ι : Type}

/-- The entries that were pushed, as often as they were. -/
def pushed : List (Event ι) → List Nat
  | [] => []
  | .committed _ op :: log => op.entries ++ pushed log
  | _ :: log => pushed log

/-- The entries that a pop or a flush has got. -/
def obtained : List (Event ι) → List Nat
  | [] => []
  | .committed _ op :: log => (apply op (stackObject.state log)).1.obtained ++ obtained log
  | _ :: log => obtained log

theorem apply_perm (op : Op) (stack : List Nat) :
    (op.entries ++ stack).Perm ((apply op stack).1.obtained ++ (apply op stack).2) := by
  cases op with
  | push front last => simp [Op.entries, apply]
  | pop => cases stack <;> exact .refl _
  | flush => simp [Op.entries, apply]

/-- Every entry that was pushed is on the stack or was obtained, and only once. -/
theorem pushed_perm (log : List (Event ι)) : (pushed log).Perm (obtained log ++ stackObject.state log) := by
  induction log with
  | nil => exact .refl _
  | cons event log ih =>
    cases event with
    | committed t op =>
      have taken := apply_perm op (stackObject.state log)
      calc op.entries ++ pushed log
        _ |>.Perm (op.entries ++ (obtained log ++ stackObject.state log)) := ih.append_left _
        _ |>.Perm (obtained log ++ (op.entries ++ stackObject.state log)) := perm_append_comm_assoc ..
        _ |>.Perm (obtained log ++ ((apply op (stackObject.state log)).1.obtained ++
            (apply op (stackObject.state log)).2)) := taken.append_left _
        _ |>.Perm ((apply op (stackObject.state log)).1.obtained ++ (obtained log ++
            (apply op (stackObject.state log)).2)) := perm_append_comm_assoc ..
        _ |>.Perm ((apply op (stackObject.state log)).1.obtained ++ obtained log ++
            (apply op (stackObject.state log)).2) := by rw [append_assoc]
    | called t op => exact ih
    | returned t answer => exact ih

variable [DecidableEq ι] {bits : Nat} {memory : Nat → Option Nat} {s : State ι}

/-- The log is one of an atomic stack, and the list in memory has the entries of the stack. Each entry that
was pushed has been obtained, or is on the list. A flush gets a list that has all its entries. -/
structure Sound (s : State ι) : Prop where
  linearizable : stackObject.Conforms s.log
  list : Path s.memory s.header.next s.stack 0
  distinct : s.stack.Nodup
  depth : s.header.depth = s.stack.length % 2 ^ 16
  conserved : (pushed s.log).Perm (obtained s.log ++ s.stack)
  flushed : ∀ t pointer outcome, s.pcs t = .returning pointer → s.status t = .committed .flush outcome →
    Path s.memory pointer outcome.obtained 0

theorem Inv.sound (inv : Inv bits s) : Sound s := by
  refine ⟨inv.conforms, inv.chain, inv.nodup, inv.depth, pushed_perm s.log, ?_⟩
  intro t pointer outcome here flushed
  have fits := inv.fits t
  rw [here] at fits
  obtain ⟨op, result, committed, -, list⟩ := fits
  cases committed.symm.trans flushed
  exact list rfl

theorem initializeSListHead_inv : Inv bits (initializeSListHead ι memory) where
  conforms := trivial
  chain := rfl
  nonzero := nofun
  nodup := nodup_nil
  depth := rfl
  sequence := (Nat.zero_mod _).symm
  apart _ := nofun
  separate _ _ := nofun
  pushes _ _ _ := nofun
  fits _ := rfl

/-- **Interlocked lists are linearizable.** -/
theorem slist_linearizable (run : Runs (State.step bits) (Proper bits) (initializeSListHead ι memory) s) :
    Sound s :=
  (run.invariant (Inv bits) initializeSListHead_inv fun _ action _ inv proper done =>
    step_inv inv action proper done).sound

instance [Fintype ι] (s : State ι) (entry : Nat) : Decidable (s.Free entry) :=
  inferInstanceAs (Decidable (_ ∧ _))

instance (op : Op) : Decidable (op.Linked memory) :=
  match op with
  | .push _ _ => Path.decidable ..
  | .pop | .flush => isTrue trivial

instance [Fintype ι] (s : State ι) (action : Action ι) : Decidable (Proper bits s action) :=
  match action with
  | .call _ _ _ => inferInstanceAs (Decidable (_ ∧ _))
  | .write _ _ => inferInstanceAs (Decidable (s.Free _))
  | .run t _ =>
    match here : s.pcs t with
    | .exchanging _ _ _ seen => decidable_of_iff (s.changes < seen + 2 ^ bits) (by simp only [Proper, here])
    | .idle | .checking | .reading _ _ | .readingRest _ _ _ | .readingNext _ _ _ _ _ | .preparing _ _ _ _
    | .returning _ => isTrue (by simp only [Proper, here])

local instance neZero2 : NeZero 2 := ⟨by decide⟩

/-- One thread has read the header with the first entry 1, and the other one pops that entry and pushes the
entries 2 and 1 before the first one goes on. -/
def interrupted : List (Action (Fin 2)) :=
  let op (t : Fin 2) (o : Op) : List (Action (Fin 2)) :=
    [.call t o ⟨7, 7, 7⟩, .run t true, .run t true, .run t true, .run t true, .run t true]
  op 1 (.push [] 1) ++ [.call 0 .pop ⟨7, 7, 7⟩, .run 0 true, .run 0 true, .run 0 true] ++ op 1 .pop ++
    [.write 2 (some 3)] ++ op 1 (.push [] 2) ++ op 1 (.push [] 1) ++
    [.run 0 true, .run 0 false, .run 0 false, .run 0 false, .run 0 false]

/-- The exchange fails although the first entry is the same, and is made again. -/
theorem slist_linearizable_interrupted : ∃ s : State (Fin 2),
    Runs (State.step 16) (Proper 16) (initializeSListHead (Fin 2) fun _ => none) s ∧
      s.pcs 0 = .returning 1 ∧ s.stack = [2] ∧ s.header.next = 2 ∧ s.header.depth = 1 ∧ s.changes = 5 ∧
      Sound s := by
  obtain ⟨s, done, returning, stack, next, depth, changes⟩ := exists_some_of_check
    (x := interrupted.foldlM (checked (step 16) (Proper 16)) (initializeSListHead (Fin 2) fun _ => none))
    (fun s => s.pcs 0 = .returning 1 ∧ s.stack = [2] ∧ s.header.next = 2 ∧ s.header.depth = 1 ∧ s.changes = 5)
    (by decide +kernel)
  have run := runs_of_checked done
  exact ⟨s, run, returning, stack, next, depth, changes, slist_linearizable run⟩

end Sound

end FreeWindows.Rtl.SList
