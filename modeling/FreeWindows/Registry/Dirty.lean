/-
**Dirty keys and what is saved.**

`save_branch` skips a branch whose root is clean. What it would write depends on the keys `Within`
the branch only: those that are reached from the root through keys that are not volatile. If these are
kept (`KeptWithin`), a file that was written before `Holds` them still (`KeptWithin.holds`). A dirty
key has a dirty parent, or a volatile one (`Upward`), so a change within a branch that leaves its key
dirty leaves the root dirty (`Within.dirty`). `make_dirty` restores this after a change of one key, and
`make_clean` keeps it (`makeDirty_upward`, `Cleaned.upward`).
-/

import FreeWindows.Registry.Create

namespace FreeWindows.Registry

open List Heap

/-! ### The keys of a branch -/

/-- The key is reached from `b` through keys that are not volatile. -/
inductive Within (heap : Heap) (b : Nat) : Nat → Prop
  | self : Within heap b b
  | child {p c : Nat} (inside : Within heap b p) (parent : (heap.key c).parent = some p)
      (nonvolatile : (heap.key c).flags.volatile = false) : Within heap b c

/-- The subkeys that are saved. -/
def savedSubkeys (heap : Heap) (k : Nat) : List Nat :=
  (heap.key k).subkeys.filter fun c => !(heap.key c).flags.volatile

/-- The key has the same link flag, values and saved subkeys in both heaps, and it has not lost all of
its subkeys. -/
structure KeptAt (heap heap' : Heap) (k : Nat) : Prop where
  symlink : (heap'.key k).flags.symlink = (heap.key k).flags.symlink
  values : (heap'.key k).values = (heap.key k).values
  subkeys : savedSubkeys heap' k = savedSubkeys heap k
  bare : (heap'.key k).subkeys = [] → (heap.key k).subkeys = []

section Within

variable {heap heap' : Heap} {b k p c : Nat}

theorem Within.le (inside : Within heap b k) : b ≤ k := by
  induction inside with
  | self => exact le_refl b
  | child _ parent _ ih => exact le_trans ih (le_of_lt (heap.linked _ _ parent).1)

theorem Within.nonvolatile (inside : Within heap b k)
    (root : (heap.key b).flags.volatile = false) : (heap.key k).flags.volatile = false := by
  cases inside with
  | self => exact root
  | child _ _ nonvolatile => exact nonvolatile

theorem Within.trans (first : Within heap b k) (second : Within heap k c) : Within heap b c := by
  induction second with
  | self => exact first
  | child _ parent nonvolatile ih => exact .child ih parent nonvolatile

/-- A path is still there if the keys up to its end have the same parents. -/
theorem Within.transport (inside : Within heap b k)
    (same : ∀ i, i ≤ k → ∀ p, (heap.key i).parent = some p → (heap.key i).flags.volatile = false →
      (heap'.key i).parent = some p ∧ (heap'.key i).flags.volatile = false) : Within heap' b k := by
  induction inside with
  | self => exact .self
  | child inside parent nonvolatile ih =>
    have older := (heap.linked _ _ parent).1
    obtain ⟨parent', nonvolatile'⟩ := same _ le_rfl _ parent nonvolatile
    exact .child (ih fun i le => same i (le_trans le (le_of_lt older))) parent' nonvolatile'

theorem OnlyDirty.within (only : OnlyDirty heap heap') (inside : Within heap b k) : Within heap' b k :=
  inside.transport fun i _ _ parent nonvolatile =>
    ⟨(only.parent i).trans parent, (only.volatile i).trans nonvolatile⟩

theorem OnlyDirty.symm (only : OnlyDirty heap heap') : OnlyDirty heap' heap :=
  ⟨⟨only.casemap.symm, only.next.symm, fun k => (only.objName k).symm,
    fun k => (only.subkeys k).symm, fun k => (only.nbSubkeys k).symm⟩, fun k => (only.settled k).symm⟩

/-- The walk from a key to its parents that decides `Within`. -/
def isWithin (heap : Heap) (b k : Nat) : Bool :=
  if k = b then true
  else if (heap.key k).flags.volatile then false
  else
    match _ : (heap.key k).parent with
    | none => false
    | some p => isWithin heap b p
termination_by k
decreasing_by exact (heap.linked k p ‹_›).1

theorem isWithin_iff : isWithin heap b k = true ↔ Within heap b k := by
  fun_induction isWithin heap b k with
  | case1 => exact iff_of_true rfl .self
  | case2 k other volatile =>
    refine iff_of_false (by decide) fun inside => ?_
    cases inside with
    | self => exact other rfl
    | child _ _ nonvolatile =>
      rw [volatile] at nonvolatile
      cases nonvolatile
  | case3 k other _ none =>
    refine iff_of_false (by decide) fun inside => ?_
    cases inside with
    | self => exact other rfl
    | child _ parent _ =>
      rw [none] at parent
      cases parent
  | case4 k other nonvolatile p parent ih =>
    rw [ih]
    refine ⟨fun inside => .child inside parent (Bool.eq_false_iff.mpr nonvolatile), fun inside => ?_⟩
    cases inside with
    | self => exact absurd rfl other
    | child inside own _ =>
      rw [parent] at own
      cases own
      exact inside

instance (heap : Heap) (b k : Nat) : Decidable (Within heap b k) :=
  decidable_of_iff _ isWithin_iff

theorem mem_savedSubkeys (ordered : Ordered heap) : c ∈ savedSubkeys heap k ↔
    (heap.key c).parent = some k ∧ (heap.key c).flags.volatile = false := by
  simp [savedSubkeys, ordered.exactly]

/-! ### Branches that keep their content -/

theorem KeptAt.trans {heap'' : Heap} (first : KeptAt heap heap' k) (second : KeptAt heap' heap'' k) :
    KeptAt heap heap'' k :=
  ⟨second.symlink.trans first.symlink, second.values.trans first.values,
    second.subkeys.trans first.subkeys, first.bare ∘ second.bare⟩

/-- **The branch has the same content in both heaps**; the name of its root does not matter. -/
def KeptWithin (heap heap' : Heap) (b : Nat) : Prop :=
  ∀ i, Within heap b i → KeptAt heap heap' i ∧ (i ≠ b → (heap'.key i).name = (heap.key i).name)

section Kept

variable (kept : KeptWithin heap heap' b) (ordered : Ordered heap) (ordered' : Ordered heap')
include kept ordered ordered'

theorem KeptWithin.child_iff (inside : Within heap b p) :
    (heap'.key c).parent = some p ∧ (heap'.key c).flags.volatile = false ↔
      (heap.key c).parent = some p ∧ (heap.key c).flags.volatile = false := by
  rw [← mem_savedSubkeys ordered, ← mem_savedSubkeys ordered', (kept p inside).1.subkeys]

/-- It has the same keys. -/
theorem KeptWithin.within_iff : Within heap' b k ↔ Within heap b k := by
  constructor
  · intro inside
    induction inside with
    | self => exact .self
    | child _ parent nonvolatile ih =>
      obtain ⟨parent, nonvolatile⟩ := (kept.child_iff ordered ordered' ih).mp ⟨parent, nonvolatile⟩
      exact .child ih parent nonvolatile
  · intro inside
    induction inside with
    | self => exact .self
    | child inside parent nonvolatile ih =>
      obtain ⟨parent, nonvolatile⟩ := (kept.child_iff ordered ordered' inside).mpr ⟨parent, nonvolatile⟩
      exact .child ih parent nonvolatile

theorem KeptWithin.trans {heap'' : Heap} (second : KeptWithin heap' heap'' b) :
    KeptWithin heap heap'' b := fun i inside => by
  obtain ⟨here, name⟩ := kept i inside
  obtain ⟨later, name'⟩ := second i ((kept.within_iff ordered ordered').mpr inside)
  exact ⟨here.trans later, fun notRoot => (name' notRoot).trans (name notRoot)⟩

omit ordered ordered' in
theorem KeptWithin.sub (inside : Within heap b k) : KeptWithin heap heap' k := fun i below => by
  refine ⟨(kept i (inside.trans below)).1, fun notRoot => (kept i (inside.trans below)).2 ?_⟩
  have := inside.le
  have := below.le
  omega

theorem KeptWithin.pathBelow (inside : Within heap b k) : heap'.pathBelow b k = heap.pathBelow b k := by
  induction inside with
  | self => rw [Heap.pathBelow, Heap.pathBelow, if_pos rfl, if_pos rfl]
  | @child p c inside parent nonvolatile ih =>
    have younger := (heap.linked c p parent).1
    have notRoot : c ≠ b := by
      have := inside.le
      omega
    obtain ⟨parent', -⟩ := (kept.child_iff ordered ordered' inside).mpr ⟨parent, nonvolatile⟩
    rw [heap.pathBelow_child notRoot parent, heap'.pathBelow_child notRoot parent', ih,
      (kept c (.child inside parent nonvolatile)).2 notRoot]

end Kept

theorem OnlyDirty.keptAt (only : OnlyDirty heap heap') (k : Nat) : KeptAt heap heap' k where
  symlink := congrArg (·.flags.symlink) (only.settled k)
  values := congrArg (·.values) (only.settled k)
  subkeys := by
    rw [savedSubkeys, savedSubkeys, only.subkeys]
    exact filter_congr fun c _ => by rw [only.volatile]
  bare empty := (only.subkeys k).symm.trans empty

theorem OnlyDirty.keptWithin (only : OnlyDirty heap heap') (b : Nat) : KeptWithin heap heap' b :=
  fun i _ => ⟨only.keptAt i, fun _ => only.name i⟩

/-! ### The file of a branch -/

theorem within_iff_child : Within heap b k ↔ k = b ∨
    ∃ c, (heap.key c).parent = some b ∧ (heap.key c).flags.volatile = false ∧ Within heap c k := by
  constructor
  · intro inside
    induction inside with
    | self => exact .inl rfl
    | @child p c _ parent nonvolatile ih =>
      rcases ih with rfl | ⟨d, parent', nonvolatile', inside⟩
      · exact .inr ⟨c, parent, nonvolatile, .self⟩
      · exact .inr ⟨d, parent', nonvolatile', .child inside parent nonvolatile⟩
  · rintro (rfl | ⟨c, parent, nonvolatile, inside⟩)
    · exact .self
    · exact (Within.child .self parent nonvolatile).trans inside

theorem mem_visited (ordered : Ordered heap) :
    k ∈ heap.visited b ↔ (heap.key b).flags.volatile = false ∧ Within heap b k := by
  fun_induction Heap.visited heap b with
  | case1 b volatile => simp [volatile]
  | case2 b nonvolatile ih =>
    rw [and_iff_right (Bool.eq_false_iff.mpr nonvolatile), mem_cons, mem_flatMap, within_iff_child]
    refine or_congr_right ⟨?_, ?_⟩
    · rintro ⟨c, -, member⟩
      exact ⟨c, (ordered.exactly b c).mp c.2, (ih c).mp member⟩
    · rintro ⟨c, parent, inside⟩
      have member := (ordered.exactly b c).mpr parent
      exact ⟨⟨c, member⟩, mem_attach .., (ih ⟨c, member⟩).mpr inside⟩

/-- **The keys that are written.** -/
theorem mem_writtenKeys (ordered : Ordered heap) (root : (heap.key b).flags.volatile = false) :
    k ∈ heap.writtenKeys b ↔ Within heap b k ∧ (heap.key k).written = true := by
  rw [Heap.writtenKeys, mem_filter, mem_visited ordered, and_iff_right root]

/-- There is something to write for the key or for one below it, whatever classes they have. -/
def Mentioned (heap : Heap) (k : Nat) : Prop :=
  ∃ c, Within heap k c ∧ ((heap.key c).values ≠ [] ∨ (heap.key c).flags.symlink = true ∨
    (heap.key c).subkeys = [])

/-- **What the file of a branch holds.** After a header it has sections with the paths, links and values
of keys within the branch: of all that have values or are links, and of one at or below each key that
is `Mentioned`. The times, the classes and the path of the branch itself are those of the last save. -/
def Holds (heap : Heap) (b : Nat) (text : List UInt8) : Prop :=
  ∃ (old : Heap) (arch : Arch) (modif : Nat → Int) (keys : List Nat),
    text = old.fileHeader arch b ++ keys.flatMap (fun k =>
      keySection (heap.pathBelow b k) { heap.key k with cls := (old.key k).cls } (modif k)) ∧
    (∀ k ∈ keys, Within heap b k) ∧
    (∀ k, Within heap b k → (heap.key k).values ≠ [] ∨ (heap.key k).flags.symlink = true → k ∈ keys) ∧
    ∀ k, Within heap b k → Mentioned heap k → ∃ c ∈ keys, Within heap k c

/-- A file that was written when the branch had the same content. -/
theorem KeptWithin.holds (kept : KeptWithin heap heap' b) (ordered : Ordered heap)
    (ordered' : Ordered heap') (root : (heap.key b).flags.volatile = false) (modif : Nat → Int)
    (arch : Arch) : Holds heap' b (heap.saveAllSubkeys modif arch b) := by
  have keys := fun k => mem_writtenKeys (k := k) ordered root
  have within := fun k => kept.within_iff (k := k) ordered ordered'
  refine ⟨heap, arch, modif, heap.writtenKeys b, ?_, fun k member => ?_, fun k inside own => ?_,
    fun k inside mentioned => ?_⟩
  · rw [Heap.saveAllSubkeys, Heap.saveSubkeys_eq]
    congr 1
    refine flatMap_congr fun k member => ?_
    obtain ⟨inside, -⟩ := (keys k).mp member
    rw [Heap.saveKey, kept.pathBelow ordered ordered' inside]
    exact keySection_congr _ _ (kept k inside).1.symlink (kept k inside).1.values
  · exact (within k).mpr ((keys k).mp member).1
  · have inside := (within k).mp inside
    rw [(kept k inside).1.values, (kept k inside).1.symlink] at own
    refine (keys k).mpr ⟨inside, ?_⟩
    simp only [Key.written, decide_eq_true_eq]
    tauto
  · have inside := (within k).mp inside
    obtain ⟨c, below, own⟩ := mentioned
    have below' := ((kept.sub inside).within_iff ordered ordered').mp below
    have here := (kept c (inside.trans below')).1
    refine ⟨c, (keys c).mpr ⟨inside.trans below', ?_⟩, below⟩
    rw [here.values, here.symlink] at own
    have bare := here.bare
    simp only [Key.written, decide_eq_true_eq]
    tauto

end Within

/-! ### Dirty keys -/

/-- A dirty key has a dirty parent or a volatile one, if it has a parent. -/
def Upward (heap : Heap) : Prop :=
  ∀ c p, (heap.key c).parent = some p → (heap.key c).flags.dirty = true →
    (heap.key p).flags.dirty = true ∨ (heap.key p).flags.volatile = true

section Dirty

variable {heap heap' : Heap} {b k : Nat}

/-- **A dirty key within a branch** makes its root dirty. -/
theorem Within.dirty (inside : Within heap b k) (upward : Upward heap)
    (root : (heap.key b).flags.volatile = false) (dirty : (heap.key k).flags.dirty = true) :
    (heap.key b).flags.dirty = true := by
  induction inside with
  | self => exact dirty
  | child inside parent _ ih =>
    refine ih ((upward _ _ parent dirty).resolve_right ?_)
    rw [inside.nonvolatile root]
    decide

theorem Heap.setDirty_dirty (heap : Heap) (k : Nat) (dirty : Bool) (i : Nat) :
    ((heap.setFlags k fun flags => { flags with dirty }).key i).flags.dirty =
      if i = k then dirty else (heap.key i).flags.dirty := by
  rw [setFlags, modify, set_key]
  split <;> rfl

theorem Heap.makeDirty_mono (heap : Heap) (k i : Nat) (dirty : (heap.key i).flags.dirty = true) :
    ((heap.makeDirty k).key i).flags.dirty = true := by
  have set : ∀ heap : Heap, ∀ k, (heap.key i).flags.dirty = true →
      ((heap.setFlags k fun flags => { flags with dirty := true }).key i).flags.dirty = true := by
    intro heap k dirty
    rw [setDirty_dirty]
    split
    · rfl
    · exact dirty
  fun_induction makeDirty heap k with
  | case1 => exact dirty
  | case2 heap k => exact set heap k dirty
  | case3 heap k _ _ p _ ih => exact ih (set heap k dirty)

theorem Heap.makeDirty_self (heap : Heap) (k : Nat) :
    ((heap.makeDirty k).key k).flags.dirty = true ∨ (heap.key k).flags.volatile = true := by
  unfold makeDirty
  split
  next done => exact done
  next =>
    split
    · exact .inl (by rw [setDirty_dirty, if_pos rfl])
    · exact .inl (makeDirty_mono _ _ _ (by rw [setDirty_dirty, if_pos rfl]))

/-- After `KEY_DIRTY` is set on a key, the rule is open only for that key itself. -/
theorem setDirty_nearly
    (nearly : ∀ c p, (heap.key c).parent = some p → (heap.key c).flags.dirty = true →
      p = k ∨ (heap.key p).flags.dirty = true ∨ (heap.key p).flags.volatile = true) (c p : Nat)
    (parent : ((heap.setFlags k fun flags => { flags with dirty := true }).key c).parent = some p)
    (dirty : ((heap.setFlags k fun flags => { flags with dirty := true }).key c).flags.dirty = true) :
    (heap.key k).parent = some p ∨
      ((heap.setFlags k fun flags => { flags with dirty := true }).key p).flags.dirty = true ∨
      ((heap.setFlags k fun flags => { flags with dirty := true }).key p).flags.volatile = true := by
  have only := heap.setDirty_onlyDirty k true
  rw [only.parent] at parent
  rw [heap.setDirty_dirty] at dirty
  rw [heap.setDirty_dirty, only.volatile]
  split at dirty
  next self => exact .inl (self ▸ parent)
  next =>
    rcases nearly c p parent dirty with rfl | dirty' | volatile
    · exact .inr (.inl (if_pos rfl))
    · refine .inr (.inl ?_)
      split
      · rfl
      · exact dirty'
    · exact .inr (.inr volatile)

/-- **`make_dirty`** restores the rule after a change below the key. -/
theorem makeDirty_upward (heap : Heap) (k : Nat)
    (nearly : ∀ c p, (heap.key c).parent = some p → (heap.key c).flags.dirty = true →
      p = k ∨ (heap.key p).flags.dirty = true ∨ (heap.key p).flags.volatile = true) :
    Upward (heap.makeDirty k) := by
  fun_induction makeDirty heap k with
  | case1 heap k done =>
    intro c p parent dirty
    rcases nearly c p parent dirty with rfl | rest
    · exact done
    · exact rest
  | case2 heap k _ heap' none =>
    intro c p parent dirty
    refine (setDirty_nearly nearly c p parent dirty).resolve_left ?_
    rw [none]
    rintro ⟨⟩
  | case3 heap k _ heap' q above ih =>
    refine ih fun c p parent dirty => (setDirty_nearly nearly c p parent dirty).imp_left fun own => ?_
    exact Option.some.inj (own.symm.trans above)

theorem Upward.makeDirty (upward : Upward heap) (k : Nat) : Upward (heap.makeDirty k) :=
  makeDirty_upward heap k fun c p parent dirty => .inr (upward c p parent dirty)

/-! ### Cleaning a branch -/

/-- `KEY_DIRTY` is taken from some keys, and from the saved subkeys of these. -/
structure Cleaned (heap heap' : Heap) : Prop extends OnlyDirty heap heap' where
  fewer : ∀ i, (heap'.key i).flags.dirty = true → (heap.key i).flags.dirty = true
  deep : ∀ k c, (heap.key k).flags.dirty = true → (heap'.key k).flags.dirty = false →
    c ∈ savedSubkeys heap k → (heap'.key c).flags.dirty = false

theorem Cleaned.refl (heap : Heap) : Cleaned heap heap :=
  ⟨OnlyDirty.refl heap, fun _ => id, fun k c dirty clean => by rw [dirty] at clean; cases clean⟩

theorem Cleaned.trans {heap'' : Heap} (first : Cleaned heap heap') (second : Cleaned heap' heap'') :
    Cleaned heap heap'' := by
  refine ⟨first.toOnlyDirty.trans second.toOnlyDirty, fun i => first.fewer i ∘ second.fewer i,
    fun k c dirty clean saved => ?_⟩
  cases between : (heap'.key k).flags.dirty with
  | true =>
    rw [← (first.keptAt k).subkeys] at saved
    exact second.deep k c between clean saved
  | false =>
    have cleaned := first.deep k c dirty between saved
    exact Bool.eq_false_iff.mpr fun later => by rw [second.fewer c later] at cleaned; cases cleaned

/-- The given keys are clean afterwards, if they are not volatile, and only keys within them lose
`KEY_DIRTY`. -/
structure Sweeps (heap heap' : Heap) (keys : List Nat) : Prop extends Cleaned heap heap' where
  within : ∀ i, (heap'.key i).flags.dirty = (heap.key i).flags.dirty ∨
    ∃ k ∈ keys, (heap.key k).flags.volatile = false ∧ Within heap k i
  clean : ∀ k ∈ keys, (heap.key k).flags.volatile = false → (heap'.key k).flags.dirty = false

theorem Sweeps.cons {heap'' : Heap} {rest : List Nat} (first : Sweeps heap heap' [k])
    (second : Sweeps heap' heap'' rest) : Sweeps heap heap'' (k :: rest) := by
  have only := first.toOnlyDirty
  refine ⟨first.toCleaned.trans second.toCleaned, fun i => ?_, fun c member nonvolatile => ?_⟩
  · rcases second.within i with same | ⟨c, member, nonvolatile, inside⟩
    · rw [same]
      refine (first.within i).imp_right fun ⟨c, member, nonvolatile, inside⟩ => ?_
      exact ⟨c, mem_cons.mpr (.inl (mem_singleton.mp member)), nonvolatile, inside⟩
    · rw [only.volatile] at nonvolatile
      exact .inr ⟨c, mem_cons_of_mem _ member, nonvolatile, only.symm.within inside⟩
  · rcases mem_cons.mp member with rfl | inRest
    · have cleaned := first.clean c (mem_singleton_self c) nonvolatile
      exact Bool.eq_false_iff.mpr fun later => by rw [second.fewer c later] at cleaned; cases cleaned
    · exact second.clean c inRest ((only.volatile c).trans nonvolatile)

/-- A key loses `KEY_DIRTY`, then its subkeys are swept. -/
theorem Sweeps.parent (ordered : Ordered heap) (nonvolatile : (heap.key k).flags.volatile = false)
    (below : Sweeps (heap.setFlags k fun flags => { flags with dirty := false }) heap'
      (heap.key k).subkeys) : Sweeps heap heap' [k] := by
  have only := heap.setDirty_onlyDirty k false
  have set := heap.setDirty_dirty k false
  have less : ∀ i, ((heap.setFlags k fun flags => { flags with dirty := false }).key i).flags.dirty =
      true → (heap.key i).flags.dirty = true := fun i dirty => by
    rw [set] at dirty
    split at dirty
    · cases dirty
    · exact dirty
  refine ⟨⟨only.trans below.toOnlyDirty, fun i => less i ∘ below.fewer i, fun q c dirty clean saved => ?_⟩,
    fun i => ?_, fun q member _ => ?_⟩
  · by_cases self : q = k
    · obtain ⟨parent, nonvolatile⟩ := (mem_savedSubkeys ordered).mp saved
      exact below.clean c ((ordered.exactly k c).mpr (self ▸ parent))
        ((only.volatile c).trans nonvolatile)
    · refine below.deep q c ?_ clean ((only.keptAt q).subkeys ▸ saved)
      rw [set, if_neg self]
      exact dirty
  · rcases below.within i with same | ⟨c, member, nonvolatile', inside⟩
    · by_cases self : i = k
      · exact .inr ⟨k, mem_singleton_self k, nonvolatile, self ▸ .self⟩
      · rw [same, set, if_neg self]
        exact .inl rfl
    · have child : Within heap k c := .child .self ((ordered.exactly k c).mp member)
        ((only.volatile c).symm.trans nonvolatile')
      exact .inr ⟨k, mem_singleton_self k, nonvolatile, child.trans (only.symm.within inside)⟩
  · rw [mem_singleton.mp member]
    refine Bool.eq_false_iff.mpr fun dirty => ?_
    have := below.fewer k dirty
    rw [set, if_pos rfl] at this
    cases this

/-- **`make_clean`** sweeps the key, with enough generations. -/
theorem makeClean_sweeps (ordered : Ordered heap) (depth k : Nat) (old : k < heap.next)
    (enough : heap.next - k ≤ depth) : Sweeps heap (makeClean depth heap k) [k] := by
  induction depth generalizing heap k with
  | zero => omega
  | succ depth ih =>
    have foldl : ∀ (keys : List Nat) (heap : Heap), Ordered heap →
        (∀ c ∈ keys, c < heap.next ∧ heap.next - c ≤ depth) →
        Sweeps heap (keys.foldl (makeClean depth) heap) keys := by
      intro keys
      induction keys with
      | nil => exact fun heap _ _ => ⟨Cleaned.refl heap, fun _ => .inl rfl, nofun⟩
      | cons c rest step =>
        intro heap ordered bounds
        obtain ⟨old, enough⟩ := bounds c mem_cons_self
        have first := ih ordered c old enough
        refine first.cons (step _ (first.toSameTree.ordered ordered) fun d member => ?_)
        rw [first.next]
        exact bounds d (mem_cons_of_mem _ member)
    have unchanged : ((heap.key k).flags.volatile = false → (heap.key k).flags.dirty = false) →
        Sweeps heap heap [k] := fun clean =>
      ⟨Cleaned.refl heap, fun _ => .inl rfl, fun c member nonvolatile => by
        rw [mem_singleton.mp member] at nonvolatile ⊢
        exact clean nonvolatile⟩
    unfold makeClean
    split
    next volatile => exact unchanged fun nonvolatile => by rw [volatile] at nonvolatile; cases nonvolatile
    next nonvolatile =>
    split
    next clean => exact unchanged fun _ => Bool.eq_false_iff.mpr clean
    next dirty =>
      have only := heap.setDirty_onlyDirty k false
      refine Sweeps.parent ordered (Bool.eq_false_iff.mpr nonvolatile)
        (foldl _ _ (only.toSameTree.ordered ordered) fun c member => ?_)
      have := heap.children k c member
      rw [only.next]
      omega

/-- **`make_clean`** keeps the rule. -/
theorem Cleaned.upward (cleaned : Cleaned heap heap') (ordered : Ordered heap)
    (apart : ∀ k, (heap.key k).flags.dirty = true → (heap.key k).flags.volatile = false)
    (upward : Upward heap) : Upward heap' := by
  intro c p parent dirty
  rw [cleaned.volatile]
  rw [cleaned.parent] at parent
  have before := cleaned.fewer c dirty
  refine (upward c p parent before).imp_left fun dirtyParent => ?_
  refine Bool.not_eq_false _ ▸ fun clean => ?_
  have := cleaned.deep p c dirtyParent clean ((mem_savedSubkeys ordered).mpr ⟨parent, apart c before⟩)
  rw [this] at dirty
  cases dirty

end Dirty

end FreeWindows.Registry
