/-
**The steps of a one-time initialisation.**

* `claim_inv`, `enqueue_inv`, `complete_inv`: the three exchanges of the word;
* `pair_inv`: a release meets a wait;
* `step_inv`: every step keeps the invariant, and none faults.
-/

import FreeWindows.Lib.Ensures
import FreeWindows.Rtl.RunOnce.Invariant

namespace FreeWindows.Rtl.RunOnce

open Lib Function Option State Stage

section Steps

variable {s s' : State} {t u : Nat} {p : Pc}

theorem Inv.word_done (inv : Inv s) {context : Nat} (done : stage s.log = .done context) :
    bits s.ptr = 2 ∧ context = pointer s.ptr := by
  have word := inv.word
  rw [done] at word
  obtain ⟨aligned, same⟩ := word
  rw [same, bits_or aligned (by decide), pointer_or aligned (by decide)]
  exact ⟨rfl, rfl⟩

theorem Inv.word_cases (inv : Inv s) :
    (bits s.ptr = 0 ∧ s.ptr = 0 ∧ stage s.log = .fresh) ∨
    (bits s.ptr = 1 ∧ ∃ r, stage s.log = .running r) ∨
    (bits s.ptr = 2 ∧ stage s.log = .done (pointer s.ptr)) := by
  have word := inv.word
  cases staged : stage s.log with
  | fresh =>
    rw [staged] at word
    exact .inl ⟨congrArg bits word, word, rfl⟩
  | running r =>
    rw [staged] at word
    exact .inr (.inl ⟨word, r, rfl⟩)
  | done context =>
    obtain ⟨two, rfl⟩ := inv.word_done staged
    exact .inr (.inr ⟨two, rfl⟩)

theorem Inv.running_of_bits (inv : Inv s) (one : bits s.ptr = 1) : ∃ r, stage s.log = .running r := by
  obtain ⟨zero, -⟩ | ⟨-, running⟩ | ⟨two, -⟩ := inv.word_cases
  · exact absurd (zero.symm.trans one) (by decide)
  · exact running
  · exact absurd (two.symm.trans one) (by decide)

variable {call : Call} {val : Nat}

theorem beginInitialize_inv (inv : Inv s) (here : s.pc t = .beginning call) :
    Inv (s.beginInitialize t call) := by
  have called : (s.pc t).call = some call := by rw [here]; rfl
  obtain ⟨plain, nonzero, aligned, present⟩ := inv.frames.placed t call called
  simp only [beginInitialize, plain, Bool.false_eq_true, if_false]
  obtain ⟨zero, -⟩ | ⟨one, -⟩ | ⟨two, done⟩ := inv.word_cases
  · rw [zero]
    exact inv.goto here trivial
  · rw [one]
    have others : ∀ u other, u ≠ t → (s.pc u).call = some other →
        update s.stack call.addr (some (pointer s.ptr)) other.addr = s.stack other.addr :=
      fun u other different also =>
        update_of_ne (fun same => different (inv.frames.apart u t other call also called same)) ..
    refine inv.quiet here others nofun (.enqueueing call s.ptr) rfl rfl rfl rfl Iff.rfl ?_
      ⟨one, update_self ..⟩ rfl rfl inv.conforms
    refine inv.frames.of_calls fun u other also => ?_
    by_cases same : u = t
    · subst same
      have entered : other = call := by
        simpa [goto, State.store, Pc.call] using also.symm
      subst entered
      refine ⟨called, ?_⟩
      simp [goto, State.store]
    · have before : (s.pc u).call = some other := by
        simpa [goto, State.store, update_of_ne same] using also
      refine ⟨before, ?_⟩
      simp only [goto, State.store]
      rw [others u other same before]
      exact (inv.frames.placed u other before).2.2.2
  · rw [two]
    obtain ⟨frames, others⟩ :=
      @Frames.leave s (s.leave t call .success (some (pointer s.ptr))) t .idle call inv.frames called rfl rfl rfl
    exact inv.quiet here others nofun .idle rfl rfl rfl rfl Iff.rfl frames trivial rfl (held_returned ..)
      ⟨⟨pointer s.ptr, done, rfl, rfl⟩, inv.conforms⟩

/-- The word is claimed: the thread initialises. -/
theorem claim_inv (inv : Inv s) (here : s.pc t = .claiming call) (zero : s.ptr = 0) :
    Inv ({ s with ptr := 1 }.leave t call .pending none) := by
  have called : (s.pc t).call = some call := by rw [here]; rfl
  have fresh : stage s.log = .fresh := by
    obtain ⟨-, -, fresh⟩ | ⟨one, -⟩ | ⟨two, -⟩ := inv.word_cases
    · exact fresh
    · rw [zero] at one
      exact absurd one (by decide)
    · rw [zero] at two
      exact absurd two (by decide)
  have unqueued : waiters s.log = [] :=
    @Inv.held_eq_nil s inv none (by simp only [head, zero]; rfl)
  obtain ⟨frames, others⟩ := @Frames.leave s ({ s with ptr := 1 }.leave t call .pending none) t
    .pending call inv.frames called rfl rfl rfl
  refine inv.unlisted here others (by rintro _ ⟨⟩) .pending rfl rfl ?_ ?_ rfl frames trivial
    (held_begun t s.log unqueued) ⟨fresh, inv.conforms⟩
  · intro holder
    cases holder with
    | none => simp [head, leave, goto, emit, State.store, zero, bits, pointer]
    | some u =>
      by_cases same : u = t
      · simp [head, leave, goto, emit, same, here, Pc.debt]
      · simp [head, leave, goto, emit, State.store, update_of_ne same]
  · intro u
    show (update s.pc t .pending u).Initialises ↔ running t = .running u
    by_cases same : u = t
    · rw [same, update_self]
      exact ⟨fun _ => rfl, fun _ => trivial⟩
    · rw [update_of_ne same, inv.initialises, fresh]
      exact ⟨by rintro ⟨⟩, fun equal => absurd (running.inj equal).symm same⟩

/-- The thread is queued: its variable `next` has the head of the list, and it becomes the head. -/
theorem enqueue_inv (inv : Inv s) (here : s.pc t = .enqueueing call val) (unchanged : s.ptr = val) :
    Inv ({ s with ptr := call.addr ||| 1 }.goto t (.queued call) |>.emit (.queued t)) := by
  have called : (s.pc t).call = some call := by rw [here]; rfl
  obtain ⟨plain, nonzero, aligned, present⟩ := inv.frames.placed t call called
  have relies := inv.relies t
  rw [here] at relies
  obtain ⟨one, link⟩ := relies
  obtain ⟨r, running⟩ := inv.running_of_bits (unchanged ▸ one)
  have absent : ∀ holder, t ∉ held s.log holder := fun holder member =>
    (inv.asleep t).mpr ⟨holder, member⟩ (by rw [here]; rfl)
  let s' := { s with ptr := call.addr ||| 1 }.goto t (.queued call) |>.emit (.queued t)
  have self : s'.pc t = .queued call := update_self ..
  have other : ∀ u, u ≠ t → s'.pc u = s.pc u := fun u different => update_of_ne different ..
  have kept : ∀ {head us}, t ∉ us → Linked s head us → Linked s' head us := by
    intro head us out linked
    refine linked.congr fun u member addr sleeping => ⟨?_, rfl⟩
    rw [other u fun same => out (same ▸ member)]
    exact sleeping
  show Inv s'
  refine ⟨inv.frames.move rfl rfl fun c also => called.trans also, ?_, ?_, ?_, ?_, ?_, ⟨⟨r, running⟩, ?_⟩,
    inv.conforms⟩
  · exact (forall_update_iff s.pc fun _ => Local s.stack).mpr ⟨trivial, fun u _ => inv.relies u⟩
  · intro u
    exact (iff_of_eq (observe_update Pc.Initialises (by rw [here]; rfl) u)).trans (inv.initialises u)
  · show Word s'.ptr (stage s.log)
    rw [running]
    exact bits_or aligned (by decide)
  · intro holder
    cases holder with
    | none =>
      have head : s'.head none = call.addr := by
        show (if bits (call.addr ||| 1) = 1 then pointer (call.addr ||| 1) else 0) = call.addr
        rw [if_pos (bits_or aligned (by decide)), pointer_or aligned (by decide)]
      have before : s.head none = pointer val := by
        simp only [State.head, unchanged, one, if_true]
      rw [head]
      refine ⟨by rw [self]; rfl, pointer val, link, ?_⟩
      rw [← before]
      exact kept (absent none) (inv.linked none)
    | some u =>
      have head : s'.head (some u) = s.head (some u) := observe_update Pc.debt (by rw [here]; rfl) u
      rw [head]
      exact kept (absent (some u)) (inv.linked (some u))
  · intro u
    show _ ↔ ∃ holder, u ∈ held (.queued t :: s.log) holder
    simp only [mem_held_queued]
    by_cases same : u = t
    · rw [same, self]
      exact ⟨fun _ => ⟨none, .inl ⟨rfl, rfl⟩⟩, fun _ => Option.some_ne_none _⟩
    · rw [other u same, inv.asleep]
      simp only [same, false_and, false_or]
  · exact ⟨absent none, fun u => absent (some u)⟩

/-- Where a thread is that has the threads from `val` on to release. -/
def Pc.releaseFrom (val : Nat) : Pc := if val = 0 then .idle else .releasing val

theorem Pc.releaseFrom_spec (val : Nat) :
    (Pc.releaseFrom val).call = none ∧ (Pc.releaseFrom val).asleep = none ∧
      (Pc.releaseFrom val).debt = val ∧ ¬(Pc.releaseFrom val).Initialises ∧
      ∀ stack, Local stack (Pc.releaseFrom val) := by
  unfold Pc.releaseFrom
  split
  · next zero => exact ⟨rfl, rfl, zero.symm, id, fun _ => trivial⟩
  · next nonzero => exact ⟨rfl, rfl, rfl, id, fun _ => nonzero⟩

/-- The end of the loop is an event that changes nothing. -/
theorem releaseFrom_spec (s : State) (t val : Nat) :
    ∃ log, s.releaseFrom t val = { s.goto t (Pc.releaseFrom val) with log := log } ∧
      stage log = stage s.log ∧ held log = held s.log ∧
      (Conforms s.log → (val = 0 → owed t s.log = []) → Conforms log) := by
  unfold releaseFrom Pc.releaseFrom
  split
  · next zero =>
    exact ⟨.finished t :: s.log, rfl, rfl, held_finished .., fun before none => ⟨none zero, before⟩⟩
  · exact ⟨s.log, rfl, rfl, rfl, fun before _ => before⟩

theorem bits_wordOf {context : Option Nat} (aligned : AlignedContext context) :
    bits (wordOf context) ≠ 1 := by
  cases context with
  | none => decide
  | some c =>
    simp only [wordOf, bits_or (aligned c rfl) (by decide : 2 < 4)]
    decide

variable (inv : Inv s)
include inv

/-- The initialisation is completed: the thread takes over the list. -/
theorem complete_inv {context : Option Nat} (here : s.pc t = .exchanging context false val)
    (unchanged : s.ptr = val) :
    Inv (({ s with ptr := wordOf context }.emit (.completed t context)).releaseFrom t
      (pointer val)) := by
  have relies := inv.relies t
  rw [here] at relies
  obtain ⟨aligned, -, one⟩ := relies
  have running : stage s.log = .running t := (inv.initialises t).mp (by rw [here]; trivial)
  have paid : owed t s.log = [] := @Inv.held_eq_nil s inv (some t) (by simp only [head, here]; rfl)
  obtain ⟨uncalled, awake, debt, finished, fine⟩ := Pc.releaseFrom_spec (pointer val)
  obtain ⟨log, result, staged, holds, conforms⟩ := releaseFrom_spec
    ({ s with ptr := wordOf context }.emit (.completed t context)) t (pointer val)
  rw [result]
  let s' : State := { ({ s with ptr := wordOf context }.emit (.completed t context)).goto t
    (Pc.releaseFrom (pointer val)) with log := log }
  have self : s'.pc t = Pc.releaseFrom (pointer val) := update_self ..
  have other : ∀ u, u ≠ t → s'.pc u = s.pc u := fun u different => update_of_ne different ..
  have sleeps (u : Nat) : (s'.pc u).asleep = (s.pc u).asleep :=
    observe_update Pc.asleep (awake.trans (congrArg Pc.asleep here).symm) u
  have kept : ∀ {head us}, Linked s head us → Linked s' head us :=
    fun linked => linked.congr fun u _ addr sleeping => ⟨(sleeps u).trans sleeping, rfl⟩
  show Inv s'
  refine ⟨inv.frames.move rfl rfl (by rw [uncalled]; rintro _ ⟨⟩), ?_, ?_, ?_, ?_, ?_, ?_⟩
  · exact (forall_update_iff s.pc fun _ => Local s.stack).mpr ⟨fine _, fun u _ => inv.relies u⟩
  · intro u
    have ended : stage log ≠ .running u := by
      rw [staged]
      cases context <;> rintro ⟨⟩
    refine iff_of_false (fun initialises => ?_) ended
    by_cases same : u = t
    · rw [same, self] at initialises
      exact finished initialises
    · rw [other u same, inv.initialises, running] at initialises
      exact same (Stage.running.inj initialises).symm
  · show Word _ (stage log)
    rw [staged]
    cases context with
    | none => rfl
    | some c => exact ⟨aligned c rfl, rfl⟩
  · intro holder
    show Linked s' _ (held log holder)
    rw [holds, emit, held_completed]
    cases holder with
    | none =>
      show Linked s' (if bits (wordOf context) = 1 then _ else 0) []
      rw [if_neg (bits_wordOf aligned)]
      rfl
    | some v =>
      by_cases same : v = t
      · subst same
        have before := inv.linked none
        simp only [head, unchanged, one, if_true] at before
        simp only [head, self, debt, if_true, reduceCtorEq, if_false]
        exact kept before
      · simp only [head, other v same, reduceCtorEq, if_false, some.injEq, same]
        exact kept (inv.linked (some v))
  · intro u
    rw [sleeps, inv.asleep]
    show _ ↔ ∃ holder, u ∈ held log holder
    rw [holds]
    exact (exists_held_completed paid).symm
  · refine conforms ⟨⟨running, paid⟩, inv.conforms⟩ fun zero => ?_
    have unqueued : waiters s.log = [] := @Inv.held_eq_nil s inv none (by
      simp only [head, unchanged, one, if_true, zero])
    simp [emit, owed, unqueued]

/-- The release of a thread meets its wait: it is the first one of those to be released. -/
theorem pair_inv {next : Nat} (here : s.pc t = .waking val next) (there : s.pc u = .waiting call)
    (key : call.addr = val) :
    Inv (s.goto u (.beginning call) |>.emit (.released t u) |>.releaseFrom t next) := by
  have relies := inv.relies t
  rw [here] at relies
  obtain ⟨nonzero, link⟩ := relies
  have linked := inv.linked (some t)
  simp only [head, here, Pc.debt] at linked
  obtain ⟨v, rest, list, sleeping⟩ := linked.asleep_of_ne nonzero
  obtain ⟨other, called, same⟩ := Pc.call_of_asleep sleeping
  obtain rfl : v = u := inv.frames.apart v u other call called (by rw [there]; rfl) (same.trans key.symm)
  have different : v ≠ t := by
    rintro rfl
    rw [there] at here
    cases here
  rw [list] at linked
  obtain ⟨-, after, read, behind⟩ := linked
  obtain rfl : after = next := some.inj (read.symm.trans link)
  have lists := inv.conforms.lists
  have first : (owed t s.log).head? = some v := by
    rw [show owed t s.log = v :: rest from list]
    rfl
  obtain ⟨uncalled, awake, debt, finished, fine⟩ := Pc.releaseFrom_spec after
  obtain ⟨log, result, staged, holds, conforms⟩ := releaseFrom_spec
    (s.goto v (.beginning call) |>.emit (.released t v)) t after
  rw [result]
  replace holds : ∀ holder, held log holder = (held s.log holder).erase v := fun holder => by
    rw [holds]
    exact lists.held_erase first holder
  let s' : State := { (s.goto v (.beginning call) |>.emit (.released t v)).goto t (Pc.releaseFrom after)
    with log := log }
  have self : s'.pc t = Pc.releaseFrom after := update_self ..
  have woken : s'.pc v = .beginning call :=
    (update_of_ne different ..).trans (update_self ..)
  have others : ∀ w, w ≠ t → w ≠ v → s'.pc w = s.pc w := fun w first second =>
    (update_of_ne first ..).trans (update_of_ne second ..)
  have sleeps : ∀ w, w ≠ v → (s'.pc w).asleep = (s.pc w).asleep := by
    intro w unequal
    by_cases equal : w = t
    · rw [equal, self, awake, here]
      rfl
    · rw [others w equal unequal]
  have kept : ∀ {head us}, v ∉ us → Linked s head us → Linked s' head us :=
    fun out linked => linked.congr fun w member addr sleeping =>
      ⟨(sleeps w fun equal => out (equal ▸ member)).trans sleeping, rfl⟩
  have members : ∀ w holder, w ∈ held log holder ↔ w ≠ v ∧ w ∈ held s.log holder := by
    intro w holder
    rw [holds, (lists.nodup holder).mem_erase_iff]
  show Inv s'
  have began : Frames (s.goto v (.beginning call)) :=
    inv.frames.move rfl rfl (by rw [there]; exact fun _ => id)
  refine ⟨began.move rfl rfl (by rw [uncalled]; rintro _ ⟨⟩), ?_, ?_, ?_, ?_, ?_, ?_⟩
  · refine (forall_update_iff _ fun _ => Local s.stack).mpr ⟨fine _, fun w _ => ?_⟩
    exact (forall_update_iff s.pc (b := .beginning call) fun _ => Local s.stack).mpr
      ⟨trivial, fun w _ => inv.relies w⟩ w
  · intro w
    show _ ↔ stage log = .running w
    rw [staged]
    refine .trans ?_ (inv.initialises w)
    by_cases equal : w = t
    · rw [equal, self, here]
      exact iff_of_false finished id
    · rw [show s'.pc w = _ from update_of_ne equal ..]
      exact iff_of_eq (observe_update Pc.Initialises (by rw [there]; rfl) w)
  · show Word s.ptr (stage log)
    rw [staged]
    exact inv.word
  · intro holder
    show Linked s' _ (held log holder)
    have out : v ∉ held log holder := fun member => ((members v holder).mp member).1 rfl
    by_cases mineToo : holder = some t
    · subst mineToo
      rw [holds, list, List.erase_cons_head] at out ⊢
      simp only [head, self, debt]
      exact kept out behind
    · have heads : s'.head holder = s.head holder := by
        cases holder with
        | none => rfl
        | some w =>
          have equal : w ≠ t := fun equal => mineToo (congrArg some equal)
          rw [head, show s'.pc w = _ from update_of_ne equal ..]
          exact observe_update Pc.debt (by rw [there]; rfl) w
      have foreign : v ∉ held s.log holder :=
        fun member => mineToo (lists.exclusive holder (some t) v member (List.mem_of_head? first))
      rw [heads, holds, List.erase_of_not_mem foreign]
      exact kept foreign (inv.linked holder)
  · intro w
    show _ ↔ ∃ holder, w ∈ held log holder
    simp only [members, exists_and_left]
    by_cases first : w = v
    · rw [first, woken]
      exact iff_of_false (fun asleep => asleep rfl) fun found => found.1 rfl
    · rw [sleeps w first, inv.asleep]
      exact ⟨fun found => ⟨first, found⟩, fun found => found.2⟩
  · refine conforms ⟨first, inv.conforms⟩ fun zero => ?_
    have last : rest = [] := inv.frames.eq_nil (zero ▸ behind)
    simp [emit, goto, owed, show owed t s.log = v :: rest from list, last]

theorem releasing_read (here : s.pc t = .releasing val) : ∃ next, s.stack val = some next := by
  have nonzero := inv.relies t
  have linked := inv.linked (some t)
  rw [here] at nonzero
  simp only [head, here, Pc.debt] at linked
  obtain ⟨u, rest, list, -⟩ := linked.asleep_of_ne nonzero
  rw [list] at linked
  obtain ⟨-, next, link, -⟩ := linked
  exact ⟨next, link⟩

theorem run_inv (t : Nat) : Returns (s.run t) Inv := by
  have relies := inv.relies t
  unfold run
  split
  · next call here => exact beginInitialize_inv inv here
  · next call here =>
    have plain := (inv.frames.placed t call (by rw [here]; rfl)).1
    split_ifs with zero async
    · rw [plain] at async
      nomatch async
    · exact claim_inv inv here zero
    · exact inv.goto here trivial
  · next call val here =>
    split
    · next unchanged => exact enqueue_inv inv here unchanged
    · exact inv.goto here trivial
  · next call here =>
    exact inv.goto here trivial
  · next context async here =>
    rw [here] at relies
    obtain ⟨aligned, rfl⟩ := relies
    have refused : Inv (s.goto t .refused) :=
      inv.goto here trivial
    split
    · next one =>
      exact inv.goto here ⟨aligned, rfl, one⟩
    · exact refused
    · exact refused
  · next context async val here =>
    rw [here] at relies
    obtain ⟨aligned, rfl, one⟩ := relies
    split_ifs with unchanged
    · exact complete_inv inv here unchanged
    · exact inv.goto here ⟨aligned, rfl⟩
  · next val here =>
    rw [here] at relies
    obtain ⟨next, link⟩ := releasing_read inv here
    rw [link]
    exact inv.goto here ⟨relies, link⟩
  · exact inv

theorem call_inv (here : s.pc t = .idle) (plain : call.flags = {}) (nonzero : call.addr ≠ 0)
    (aligned : bits call.addr = 0) (free : s.stack call.addr = none) :
    Inv (s.store call.addr (some 0) |>.goto t (.beginning call)) := by
  have others : ∀ u other, (s.pc u).call = some other → other.addr ≠ call.addr := by
    intro u other also same
    exact (inv.frames.placed u other also).2.2.2 (same ▸ free)
  have cells : ∀ u other, u ≠ t → (s.pc u).call = some other →
      update s.stack call.addr (some 0) other.addr = s.stack other.addr :=
    fun u other _ also => update_of_ne (others u other also) ..
  let s' := s.store call.addr (some 0) |>.goto t (.beginning call)
  have self : s'.pc t = .beginning call := update_self ..
  have unmoved : ∀ u, u ≠ t → s'.pc u = s.pc u := fun u different => update_of_ne different ..
  refine inv.quiet here cells nofun (.beginning call) rfl rfl rfl rfl Iff.rfl (?_ : Frames s') trivial rfl rfl
    inv.conforms
  constructor
  · intro u other also
    by_cases same : u = t
    · rw [same, self] at also
      cases also
      exact ⟨plain, nonzero, aligned, by simp [s', State.store, goto]⟩
    · rw [unmoved u same] at also
      obtain ⟨flags, proper, even, present⟩ := inv.frames.placed u other also
      exact ⟨flags, proper, even, (cells u other same also).trans_ne present⟩
  · intro u v first second called also equal
    by_cases same : u = t <;> by_cases same' : v = t
    · exact same.trans same'.symm
    · rw [same, self] at called
      cases called
      rw [unmoved v same'] at also
      exact absurd equal.symm (others v second also)
    · rw [same', self] at also
      cases also
      rw [unmoved u same] at called
      exact absurd equal (others u first called)
    · rw [unmoved u same] at called
      rw [unmoved v same'] at also
      exact inv.frames.apart u v first second called also equal

theorem step_inv (action : Action) (plain : action.Plain) : Returns (s.step action) Inv := by
  cases action with
  | call t call =>
    simp only [step]
    split
    · next possible => exact call_inv inv possible.1 plain possible.2.1 possible.2.2.1 possible.2.2.2
    · exact inv
  | run t => exact run_inv inv t
  | complete t flags context =>
    simp only [step]
    split
    · next here =>
      have refused : Inv (s.goto t .refused) :=
        inv.goto here trivial
      have completing : ∀ context, AlignedContext context → Inv (s.goto t (.completing context flags.async)) :=
        fun context aligned => inv.goto here ⟨aligned, plain⟩
      unfold complete
      split_ifs with unaligned failed nonzero async
      · exact refused
      · exact refused
      · exact refused
      · exact completing none nofun
      · refine completing (some context) fun c same => ?_
        cases same
        exact not_not.mp unaligned
    · exact inv
  | pair t u =>
    simp only [step]
    split
    · next val next call here there =>
      split
      · next key => exact pair_inv inv here there key
      · exact inv
    · exact inv

end Steps

end FreeWindows.Rtl.RunOnce
