/-
**User handles stand for one object each.**

`Session.Sound` is what holds between two calls: the list of freed entries is threaded through entries
that are not in use, and no entry in use has a generation that stands for any one. From it:

* `Sound.step_iff`: an allocation uses an entry in the tables if and only if one is left;
* `Holds`, `Holds.step`: an entry keeps its object, type and generation until it is freed;
* `generation_of_runAll`: an entry is at the same generation again after `generations` allocations, and
  not before (`nextGeneration_iterate`);
* `allocations_in_bounds_iff`: **which calls stay in the tables**;
* `user_handles_of_runs`: **what a handle resolves to**.
-/

import FreeWindows.User.Model

namespace FreeWindows.User.Session

open Lib Function List Option Session

/-! ### Parts of a handle -/

theorem maxUserHandles_eq : maxUserHandles = 32744 := rfl

variable {index : Nat} {generation : UInt16}

theorem makeHandle_toNat (small : index < maxUserHandles) (generation : UInt16) :
    (makeHandle index generation).toNat = 2 * index + 32 + 65536 * generation.toNat := by
  have bound := generation.toNat_lt
  have first : firstUserHandle.toNat = 32 := rfl
  rw [maxUserHandles_eq] at small
  have one : (1 : UInt32).toNat % 32 = 1 := rfl
  have sixteen : (16 : UInt32).toNat % 32 = 16 := rfl
  have value : (UInt32.ofNat index).toNat = index := UInt32.toNat_ofNat_of_lt' (by
    show index < 2 ^ 32
    omega)
  unfold makeHandle
  rw [UInt32.toNat_add, UInt32.toNat_add, UInt32.toNat_shiftLeft, UInt32.toNat_shiftLeft, first, one,
    sixteen, UInt16.toNat_toUInt32, value, Nat.shiftLeft_eq, Nat.shiftLeft_eq]
  omega

theorem and_ffff_toNat (handle : UInt32) : (handle &&& 0xffff).toNat = handle.toNat % 65536 := by
  exact Nat.and_two_pow_sub_one_eq_mod handle.toNat 16

theorem shiftRight_toNat (handle : UInt32) : (handle >>> 16).toNat = handle.toNat / 65536 := by
  have sixteen : (16 : UInt32).toNat % 32 = 16 := rfl
  rw [UInt32.toNat_shiftRight, Nat.shiftRight_eq_div_pow, sixteen]

variable {handle : UInt32} {count : Nat}

theorem handleIndex_eq (low : handle.toNat % 65536 = 2 * index + 32) : handleIndex handle = index := by
  have first : firstUserHandle.toNat = 32 := rfl
  have one : (1 : UInt32).toNat % 32 = 1 := rfl
  have inside : firstUserHandle ≤ handle &&& 0xffff := by
    rw [UInt32.le_iff_toNat_le, and_ffff_toNat, first]
    omega
  unfold handleIndex
  rw [UInt32.toNat_shiftRight, UInt32.toNat_sub_of_le _ _ inside, and_ffff_toNat, first, one,
    Nat.shiftRight_eq_div_pow]
  omega

theorem truncated_shiftRight (handle : UInt32) : (handle &&& 0xffff) >>> 16 = 0 := by
  rw [← UInt32.toNat_inj, shiftRight_toNat, and_ffff_toNat]
  simp only [UInt32.reduceToNat]
  omega

section Parts

variable (small : index < maxUserHandles) (generation : UInt16)
include small

theorem makeHandle_low : (makeHandle index generation).toNat % 65536 = 2 * index + 32 := by
  rw [makeHandle_toNat small]
  rw [maxUserHandles_eq] at small
  omega

theorem handleIndex_makeHandle : handleIndex (makeHandle index generation) = index :=
  handleIndex_eq (makeHandle_low small generation)

theorem generation_makeHandle : (makeHandle index generation >>> 16).toUInt16 = generation := by
  have bound := generation.toNat_lt
  rw [← UInt16.toNat_inj, UInt32.toNat_toUInt16, shiftRight_toNat, makeHandle_toNat small]
  rw [maxUserHandles_eq] at small
  omega

end Parts

/-! ### Generations -/

/-- How many generations there are. -/
def generations : Nat := 65534

/-- A generation that stands for itself. -/
def Proper (generation : UInt16) : Prop := generation ≠ 0 ∧ generation ≠ 0xffff

theorem proper_iff (generation : UInt16) :
    Proper generation ↔ 1 ≤ generation.toNat ∧ generation.toNat ≤ 65534 := by
  have bound := generation.toNat_lt
  unfold Proper
  rw [ne_eq, ne_eq, ← UInt16.toNat_inj, ← UInt16.toNat_inj]
  simp only [UInt16.reduceToNat]
  omega

theorem nextGeneration_toNat (proper : Proper generation) :
    Proper (nextGeneration generation) ∧
      (nextGeneration generation).toNat - 1 = (generation.toNat - 1 + 1) % generations := by
  have range := (proper_iff generation).mp proper
  have next : (generation + 1).toNat = generation.toNat + 1 := by
    rw [UInt16.toNat_add]
    simp only [UInt16.reduceToNat]
    omega
  unfold nextGeneration generations
  simp only [← UInt16.toNat_inj, next, UInt16.reduceToNat, proper_iff]
  split
  next wraps =>
    simp only [UInt16.reduceToNat]
    omega
  next stays =>
    omega

/-- The generations follow each other in a circle. -/
theorem iterate_toNat (proper : Proper generation) (count : Nat) :
    Proper (nextGeneration^[count] generation) ∧
      (nextGeneration^[count] generation).toNat - 1 = (generation.toNat - 1 + count) % generations := by
  induction count with
  | zero =>
    have range := (proper_iff generation).mp proper
    refine ⟨proper, ?_⟩
    unfold generations
    change generation.toNat - 1 = _
    omega
  | succ count ih =>
    obtain ⟨still, value⟩ := nextGeneration_toNat ih.1
    rw [iterate_succ_apply']
    refine ⟨still, ?_⟩
    rw [value, ih.2, Nat.mod_add_mod, Nat.add_assoc]

/-- **A generation comes back after all the others.** -/
theorem nextGeneration_iterate (proper : Proper generation) (some : 0 < count)
    (few : count < generations) : nextGeneration^[count] generation ≠ generation := by
  intro same
  have value := (iterate_toNat proper count).2
  rw [same] at value
  unfold generations at value few
  omega

/-! ### What holds between calls -/

/-- The link of an entry in the list of the freed ones. -/
def link {α : Type} (s : Session α) (i : Nat) : Option Nat := linkOf (s.entries i).offset

/-- The entries in `free` are those that were freed and not allocated again. -/
structure Sound {α : Type} (s : Session α) (free : List Nat) : Prop where
  threaded : Threaded s.link (linkOf s.freelist) free
  nodup : free.Nodup
  used : ∀ i ∈ free, i < s.nbHandles
  unused : ∀ i ∈ free, (s.entries i).type = 0
  room : s.nbHandles ≤ maxUserHandles
  proper : ∀ i < s.nbHandles, Proper (s.entries i).generation

section Calls

variable {α : Type} {s t : Session α} {free : List Nat}

theorem linkOf_ofNat {i : Nat} (small : i < maxUserHandles) : linkOf (UInt64.ofNat i) = some i := by
  rw [maxUserHandles_eq] at small
  have value : (UInt64.ofNat i).toNat = i := UInt64.toNat_ofNat_of_lt' (by
    show i < 2 ^ 64
    omega)
  have notEnd : UInt64.ofNat i ≠ -1 := fun same => by
    rw [same] at value
    have end_ : (-1 : UInt64).toNat = 2 ^ 64 - 1 := rfl
    omega
  rw [linkOf, if_neg notEnd, value]

theorem Sound.freeEntries_eq (sound : s.Sound free) : s.freeEntries = free := by
  refine sound.threaded.follow_eq ?_
  have sub : free ⊆ range s.nbHandles := fun i member =>
    mem_range.mpr (sound.used i member)
  have length := (subperm_of_subset sound.nodup sub).length_le
  rwa [length_range] at length

/-- Where the next allocation takes its entry from. -/
theorem Sound.nextIndex_cases (sound : s.Sound free) :
    (¬s.freelist ≠ -1 ∧ free = [] ∧ s.nextIndex = s.nbHandles) ∨
      ∃ rest, s.freelist ≠ -1 ∧ free = s.nextIndex :: rest := by
  have threaded := sound.threaded
  unfold nextIndex
  by_cases more : s.freelist ≠ -1
  · rw [linkOf, if_neg more] at threaded
    cases free with
    | nil => cases threaded
    | cons i rest =>
      obtain ⟨same, -⟩ := threaded
      refine .inr ⟨rest, more, ?_⟩
      rw [if_pos more, some.inj same]
  · rw [linkOf, if_pos (not_not.mp more)] at threaded
    cases free with
    | nil => exact .inl ⟨more, rfl, if_neg more⟩
    | cons i rest => cases threaded.1

/-- **An entry is left** if and only if the next one to be used is in the tables. -/
theorem Sound.inUse_lt_iff (sound : s.Sound free) :
    s.inUse < maxUserHandles ↔ s.nextIndex < maxUserHandles := by
  have room := sound.room
  rw [inUse, sound.freeEntries_eq]
  obtain ⟨-, rfl, next⟩ | ⟨rest, -, rfl⟩ := sound.nextIndex_cases
  · rw [next]
    rfl
  · have used := sound.used _ mem_cons_self
    rw [length_cons]
    omega

/-! ### One call -/

/-- The generation that the next allocation gives to its entry. -/
def newGeneration (s : Session α) : UInt16 :=
  if s.freelist ≠ -1 then nextGeneration (s.entries s.nextIndex).generation else 1

/-- What an allocation does: one entry and its object are written. -/
structure Allocated (s t : Session α) (ptr : Option α) (type : UInt16) : Prop where
  entry : (t.entries s.nextIndex).type = type ∧
    (t.entries s.nextIndex).generation = s.newGeneration ∧ t.serverObjects s.nextIndex = ptr
  others : ∀ i ≠ s.nextIndex, t.entries i = s.entries i ∧ t.serverObjects i = s.serverObjects i
  nbHandles : t.nbHandles = if s.freelist ≠ -1 then s.nbHandles else s.nbHandles + 1
  freelist : t.freelist = if s.freelist ≠ -1 then (s.entries s.nextIndex).offset else s.freelist

theorem allocUserHandle_eq (s : Session α) (current : Thread) (ptr : Option α)
    (shared : Option ObjLocator) (type : UInt16) : (s.nextIndex < maxUserHandles ∧ ∃ t,
        s.allocUserHandle current ptr shared type = .ok (t, makeHandle s.nextIndex s.newGeneration) ∧
        Allocated s t ptr type) ∨
      maxUserHandles ≤ s.nextIndex ∧
        s.allocUserHandle current ptr shared type = .error (.outOfBounds s.nextIndex) := by
  unfold allocUserHandle allocUserEntry
  dsimp only
  split
  next outside => exact .inr ⟨outside, rfl⟩
  next inside =>
    set entry : UserEntry := ⟨(shared.getD ⟨0, 0⟩).offset, current.tid, current.pid,
      (shared.getD ⟨0, 0⟩).id, type, s.newGeneration⟩
    set taken : Session α := if s.freelist ≠ -1 then
        { s with freelist := (s.entries s.nextIndex).offset }
      else { s with nbHandles := s.nbHandles + 1 }
    have same : taken.entries = s.entries ∧ taken.serverObjects = s.serverObjects := by
      unfold taken
      split <;> exact ⟨rfl, rfl⟩
    set t := (taken.setEntry s.nextIndex entry).setServerObject s.nextIndex ptr
    have here : t.entries s.nextIndex = entry := update_self ..
    refine .inl ⟨lt_of_not_ge inside, t, ?_, ⟨?_, fun i other => ⟨?_, ?_⟩, ?_, ?_⟩⟩
    · change Except.ok (t, t.entryToHandle s.nextIndex) = _
      rw [entryToHandle, here]
    · rw [here]
      exact ⟨rfl, rfl, update_self ..⟩
    · exact (update_of_ne other ..).trans (congrFun same.1 i)
    · exact (update_of_ne other ..).trans (congrFun same.2 i)
    · change taken.nbHandles = _
      unfold taken
      split <;> rfl
    · change taken.freelist = _
      unfold taken
      split <;> rfl

theorem Sound.newGeneration_proper (sound : s.Sound free) : Proper s.newGeneration := by
  unfold newGeneration
  obtain ⟨end_, -⟩ | ⟨rest, more, rfl⟩ := sound.nextIndex_cases
  · rw [if_neg end_]
    exact ⟨by decide, by decide⟩
  · rw [if_pos more]
    exact (nextGeneration_toNat (sound.proper _ (sound.used _ mem_cons_self))).1

/-- **An allocation** keeps the list of the freed entries; the entry that it uses is no longer in it. -/
theorem Allocated.sound {ptr : Option α} {type : UInt16} (allocated : Allocated s t ptr type)
    (sound : s.Sound free) (inside : s.nextIndex < maxUserHandles) : t.Sound free.tail := by
  have elsewhere : ∀ i ≠ s.nextIndex, t.entries i = s.entries i := fun i other =>
    (allocated.others i other).1
  have proper : ∀ i, (i ≠ s.nextIndex → i < s.nbHandles) → Proper (t.entries i).generation := by
    intro i bound
    by_cases new : i = s.nextIndex
    · rw [new, allocated.entry.2.1]
      exact sound.newGeneration_proper
    · rw [elsewhere i new]
      exact sound.proper i (bound new)
  obtain ⟨-, -, nbHandles, freelist⟩ := allocated
  obtain ⟨end_, rfl, next⟩ | ⟨rest, more, rfl⟩ := sound.nextIndex_cases
  · rw [if_neg end_] at nbHandles freelist
    refine ⟨?_, nodup_nil, nofun, nofun, ?_, fun i bound => proper i (by omega)⟩
    · rw [freelist]
      exact sound.threaded
    · rw [nbHandles, ← next]
      exact inside
  · rw [if_pos more] at nbHandles freelist
    obtain ⟨fresh, nodup⟩ := nodup_cons.mp sound.nodup
    have other : ∀ i ∈ rest, i ≠ s.nextIndex := fun i member same => fresh (same ▸ member)
    refine ⟨?_, nodup, fun i member => ?_, fun i member => ?_, ?_, fun i bound => proper i fun _ => ?_⟩
    · rw [freelist]
      refine sound.threaded.2.congr fun i member => ?_
      rw [link, elsewhere i (other i member)]
      rfl
    · rw [nbHandles]
      exact sound.used i (mem_cons_of_mem _ member)
    · rw [elsewhere i (other i member)]
      exact sound.unused i (mem_cons_of_mem _ member)
    · rw [nbHandles]
      exact sound.room
    · rw [← nbHandles]
      exact bound

theorem handleToEntry_some (found : s.handleToEntry handle = some index) :
    index = handleIndex handle ∧ index < s.nbHandles ∧ (s.entries index).type ≠ 0 := by
  unfold handleToEntry at found
  dsimp only at found
  split_ifs at found with outside unused any proper
  all_goals
    cases found
    exact ⟨rfl, lt_of_not_ge outside, unused⟩

/-- **Freeing an entry** that is in use. -/
theorem Sound.freed (sound : s.Sound free) (used : index < s.nbHandles)
    (live : (s.entries index).type ≠ 0) : (s.freeUserEntry index).Sound (index :: free) := by
  have fresh : index ∉ free := fun member => live (sound.unused index member)
  have small : index < maxUserHandles := lt_of_lt_of_le used sound.room
  have here : (s.freeUserEntry index).entries index =
      { s.entries index with type := 0, offset := s.freelist } := update_self ..
  have elsewhere : ∀ i ≠ index, (s.freeUserEntry index).entries i = s.entries i := fun i other =>
    update_of_ne other ..
  have links : (s.freeUserEntry index).link = update s.link index (linkOf s.freelist) :=
    comp_update (fun entry : UserEntry => linkOf entry.offset) s.entries index _
  refine ⟨?_, nodup_cons.mpr ⟨fresh, sound.nodup⟩, ?_, ?_, sound.room, fun i bound => ?_⟩
  · change Threaded _ (linkOf (UInt64.ofNat index)) _
    rw [links, linkOf_ofNat small]
    exact sound.threaded.push fresh
  · exact forall_mem_cons.mpr ⟨used, sound.used⟩
  · refine forall_mem_cons.mpr ⟨by rw [here], fun i member => ?_⟩
    rw [elsewhere i (by rintro rfl; exact fresh member)]
    exact sound.unused i member
  · by_cases same : i = index
    · rw [same, here]
      exact sound.proper index used
    · rw [elsewhere i same]
      exact sound.proper i bound

/-- What a call does. -/
inductive Change (s t : Session α) : Call α → Prop
  | allocated (current : Thread) (ptr : Option α) (shared : Option ObjLocator) (type : UInt16)
      (inside : s.nextIndex < maxUserHandles) (allocated : Allocated s t ptr type) :
      Change s t (.alloc current ptr shared type)
  | freed (call : Call α) (index : Nat) (frees : Frees index s call)
      (entries : { s.freeUserEntry index with serverObjects := t.serverObjects } = t)
      (objects : ∀ i ≠ index, t.serverObjects i = s.serverObjects i)
      (noAlloc : ∀ index, ¬Allocates index s call) : Change s t call
  | same (call : Call α) (unchanged : t = s) (keeps : ∀ index, ¬Frees index s call)
      (noAlloc : ∀ index, ¬Allocates index s call) : Change s t call

variable {call : Call α}

theorem step_change (done : s.step call = .ok t) : Change s t call := by
  cases call with
  | alloc current ptr shared type =>
    obtain ⟨inside, t', result, allocated⟩ | ⟨-, fails⟩ := allocUserHandle_eq s current ptr shared type
    · rw [step, result] at done
      cases done
      exact .allocated current ptr shared type inside allocated
    · rw [step, fails] at done
      cases done
  | free handle =>
    cases done
    unfold freeUserHandle
    split
    next none => exact .same _ rfl (fun index found => by cases none.symm.trans found) fun _ => id
    next index found =>
      exact .freed _ index found rfl (fun i other => update_of_ne other ..) fun _ => id
  | freeRequest handle type =>
    cases done
    unfold freeUserHandleRequest
    split
    next none => exact .same _ rfl (fun index found => by cases none.symm.trans found.1) fun _ => id
    next index found =>
      split
      next isType => exact .freed _ index ⟨found, isType⟩ rfl (fun _ _ => rfl) fun _ => id
      next other =>
        refine .same _ rfl (fun index' frees => other ?_) fun _ => id
        cases found.symm.trans frees.1
        exact frees.2

/-- The entry that is freed keeps its generation, and its type is zero. -/
theorem freed_entries (entries : { s.freeUserEntry index with serverObjects := t.serverObjects } = t) :
    t.nbHandles = s.nbHandles ∧
      t.entries index = { s.entries index with type := 0, offset := s.freelist } ∧
      ∀ i ≠ index, t.entries i = s.entries i := by
  rw [← entries]
  exact ⟨rfl, update_self .., fun i other => update_of_ne other ..⟩

theorem Frees.entry (frees : Frees index s call) :
    index < s.nbHandles ∧ (s.entries index).type ≠ 0 := by
  cases call with
  | alloc => exact frees.elim
  | free handle => exact (handleToEntry_some frees).2
  | freeRequest handle type => exact (handleToEntry_some frees.1).2

theorem Frees.unique {other : Nat} (frees : Frees index s call) (freesOther : Frees other s call) :
    index = other := by
  cases call with
  | alloc => exact frees.elim
  | free handle => exact some.inj (frees.symm.trans freesOther)
  | freeRequest handle type => exact some.inj (frees.1.symm.trans freesOther.1)

/-- **One call** keeps what holds between calls. -/
theorem Sound.step (sound : s.Sound free) (done : s.step call = .ok t) : ∃ free, t.Sound free := by
  cases step_change done with
  | allocated _ _ _ _ inside allocated => exact ⟨_, allocated.sound sound inside⟩
  | freed _ index frees entries =>
    have still := sound.freed frees.entry.1 frees.entry.2
    rw [← entries]
    exact ⟨index :: free, ⟨still.threaded, still.nodup, still.used, still.unused, still.room,
      still.proper⟩⟩
  | same _ unchanged => exact ⟨free, unchanged ▸ sound⟩

/-! ### An entry that is in use -/

/-- The entry has this object, type and generation. -/
structure Holds (s : Session α) (index : Nat) (ptr : Option α) (type generation : UInt16) : Prop where
  used : index < s.nbHandles
  isType : (s.entries index).type = type
  isGeneration : (s.entries index).generation = generation
  object : s.serverObjects index = ptr
  live : type ≠ 0

variable {ptr : Option α} {type : UInt16}

theorem Holds.nextIndex_ne (holds : Holds s index ptr type generation) (sound : s.Sound free) :
    index ≠ s.nextIndex := by
  rintro rfl
  obtain ⟨-, -, unused⟩ | ⟨rest, -, same⟩ := sound.nextIndex_cases
  · exact lt_irrefl _ (unused ▸ holds.used)
  · exact holds.live (holds.isType.symm.trans (sound.unused _ (by rw [same]; exact mem_cons_self)))

theorem Allocated.holds (allocated : Allocated s t ptr type) (sound : s.Sound free)
    (live : type ≠ 0) : Holds t s.nextIndex ptr type s.newGeneration := by
  obtain ⟨isType, isGeneration, object⟩ := allocated.entry
  refine ⟨?_, isType, isGeneration, object, live⟩
  rw [allocated.nbHandles]
  obtain ⟨end_, -, next⟩ | ⟨rest, more, same⟩ := sound.nextIndex_cases
  · rw [if_neg end_, next]
    exact Nat.lt_succ_self _
  · rw [if_pos more]
    exact sound.used _ (same ▸ mem_cons_self)

section Holds

variable (holds : Holds s index ptr type generation)
include holds

/-- **An entry stays as it is until it is freed.** -/
theorem Holds.step (sound : s.Sound free) (done : s.step call = .ok t) (keeps : ¬Frees index s call) :
    Holds t index ptr type generation := by
  cases step_change done with
  | allocated _ _ _ _ inside allocated =>
    obtain ⟨entry, object⟩ := allocated.others index (holds.nextIndex_ne sound)
    refine ⟨?_, entry ▸ holds.isType, entry ▸ holds.isGeneration, object ▸ holds.object, holds.live⟩
    have used := holds.used
    rw [allocated.nbHandles]
    split <;> omega
  | freed _ other frees entries objects =>
    have differ : index ≠ other := by
      rintro rfl
      exact keeps frees
    obtain ⟨nbHandles, -, elsewhere⟩ := freed_entries entries
    have entry := elsewhere index differ
    exact ⟨nbHandles ▸ holds.used, entry ▸ holds.isType, entry ▸ holds.isGeneration,
      (objects index differ).trans holds.object, holds.live⟩
  | same _ unchanged => exact unchanged ▸ holds

/-- An entry that is freed keeps its generation, and its type is zero. -/
theorem Holds.freed (done : s.step call = .ok t) (frees : Frees index s call) :
    index < t.nbHandles ∧ (t.entries index).type = 0 ∧ (t.entries index).generation = generation := by
  cases step_change done with
  | allocated => exact frees.elim
  | same _ _ keeps => exact absurd frees (keeps index)
  | freed _ other freesOther entries =>
    obtain rfl := frees.unique freesOther
    obtain ⟨nbHandles, here, -⟩ := freed_entries entries
    rw [here, nbHandles]
    exact ⟨holds.used, rfl, holds.isGeneration⟩

/-- What the handle of an entry resolves to, and its truncated form. -/
theorem Holds.resolves (small : index < maxUserHandles) :
    s.handleToEntry (makeHandle index generation) = some index ∧
      s.handleToEntry (makeHandle index generation &&& 0xffff) = some index := by
  have inside : ¬s.nbHandles ≤ index := not_le.mpr holds.used
  have live : ¬(s.entries index).type = 0 := fun zero => holds.live (holds.isType.symm.trans zero)
  have sameIndex : handleIndex (makeHandle index generation &&& 0xffff) = index := by
    refine handleIndex_eq ?_
    rw [and_ffff_toNat, Nat.mod_mod, makeHandle_low small]
  unfold handleToEntry
  rw [handleIndex_makeHandle small, generation_makeHandle small, sameIndex, truncated_shiftRight,
    show UInt32.toUInt16 0 = 0 from rfl]
  rw [if_neg inside, if_neg live, if_neg inside, if_neg live, if_pos (Or.inl rfl), holds.isGeneration,
    if_pos rfl]
  exact ⟨ite_self _, rfl⟩

end Holds

/-- An entry that is not in use, or that has another generation, is not found by a handle with a
generation. -/
theorem handleToEntry_none (small : index < maxUserHandles) (proper : Proper generation)
    (gone : (s.entries index).type = 0 ∨ (s.entries index).generation ≠ generation) :
    s.handleToEntry (makeHandle index generation) = none := by
  unfold handleToEntry
  rw [handleIndex_makeHandle small, generation_makeHandle small]
  dsimp only
  split_ifs with outside unused any equal
  · rfl
  · rfl
  · exact absurd any (not_or.mpr proper)
  · exact absurd equal.symm (gone.resolve_left unused)
  · rfl

/-! ### An entry that was freed -/

/-- One call changes the generation of an entry if it allocates the entry, and only then. -/
theorem Sound.step_generation (sound : s.Sound free) (used : index < s.nbHandles)
    (done : s.step call = .ok t) :
    index < t.nbHandles ∧
      (t.entries index).generation = (if Allocates index s call then
        nextGeneration (s.entries index).generation else (s.entries index).generation) ∧
      (¬Allocates index s call → (s.entries index).type = 0 → (t.entries index).type = 0) := by
  cases step_change done with
  | allocated _ _ _ _ inside allocated =>
    refine ⟨?_, ?_⟩
    · rw [allocated.nbHandles]
      split <;> omega
    by_cases here : s.nextIndex = index
    · refine ⟨?_, fun other => absurd here other⟩
      obtain ⟨-, -, next⟩ | ⟨rest, more, -⟩ := sound.nextIndex_cases
      · omega
      · subst here
        rw [allocated.entry.2.1, newGeneration, if_pos more]
        exact (if_pos rfl).symm
    · obtain ⟨entry, -⟩ := allocated.others index (Ne.symm here)
      rw [entry]
      exact ⟨(if_neg here).symm, fun _ unused => unused⟩
  | freed _ other frees entries objects noAlloc =>
    obtain ⟨nbHandles, freed, elsewhere⟩ := freed_entries entries
    rw [nbHandles, if_neg (noAlloc index)]
    by_cases here : index = other
    · subst here
      rw [freed]
      exact ⟨used, rfl, fun _ _ => rfl⟩
    · rw [elsewhere index here]
      exact ⟨used, rfl, fun _ unused => unused⟩
  | same _ unchanged keeps noAlloc =>
    rw [unchanged, if_neg (noAlloc index)]
    exact ⟨used, rfl, fun _ unused => unused⟩

/-- **A run** moves the generation of an entry on by one for each time it allocates the entry. -/
theorem Sound.generation_of_runAll (sound : s.Sound free) (used : index < s.nbHandles)
    {calls : List (Call α)} (done : runAll Session.step s calls = .ok t) :
    (t.entries index).generation =
        nextGeneration^[allocations index s calls] (s.entries index).generation ∧
      (allocations index s calls = 0 → (s.entries index).type = 0 → (t.entries index).type = 0) := by
  induction calls generalizing s free with
  | nil =>
    cases done
    exact ⟨rfl, fun _ unused => unused⟩
  | cons call rest ih =>
    obtain ⟨mid, first, later⟩ := bind_eq_ok.mp done
    obtain ⟨free', still⟩ := sound.step first
    obtain ⟨usedThen, generation, unused⟩ := sound.step_generation used first
    obtain ⟨value, kept⟩ := ih still usedThen later
    rw [allocations, first]
    split at generation
    next allocates =>
      rw [if_pos allocates, value, generation, Nat.add_comm, iterate_succ_apply]
      exact ⟨rfl, fun none => absurd none (Nat.succ_ne_zero _)⟩
    next other =>
      rw [if_neg other, value, generation, Nat.zero_add]
      exact ⟨rfl, fun none was => kept none (unused other was)⟩

end Calls

/-! ### Runs -/

section Runs

variable {α : Type}

theorem sound_initial : (initial : Session α).Sound [] :=
  ⟨rfl, nodup_nil, nofun, nofun, Nat.zero_le _, nofun⟩

variable {free : List Nat} {s : Session α}

theorem sound_of_runs {ok : Session α → Call α → Prop} {t : Session α} (sound : s.Sound free)
    (run : Runs step ok s t) : ∃ free, t.Sound free :=
  run.invariant (fun s => ∃ free, s.Sound free) ⟨free, sound⟩ fun _ _ _ ⟨_, before⟩ _ done =>
    before.step done

/-- A call is carried out if and only if an entry is left for it. -/
theorem Sound.step_iff (sound : s.Sound free) (call : Call α) :
    (∃ t, s.step call = .ok t) ↔ s.HasRoom call := by
  cases call with
  | alloc current ptr shared type =>
    rw [HasRoom, sound.inUse_lt_iff, Session.step]
    obtain ⟨inside, t, result, -⟩ | ⟨outside, fails⟩ := allocUserHandle_eq s current ptr shared type
    · exact iff_of_true ⟨t, by rw [result]; rfl⟩ inside
    · refine iff_of_false ?_ (not_lt.mpr outside)
      rintro ⟨t, done⟩
      rw [fails] at done
      cases done
  | free handle => exact iff_of_true ⟨_, rfl⟩ trivial
  | freeRequest handle type => exact iff_of_true ⟨_, rfl⟩ trivial

/-- **No call uses an entry behind the tables** if and only if each allocation finds fewer than
`MAX_USER_HANDLES` entries in use. -/
theorem allocations_in_bounds_iff (calls : List (Call α)) :
    (∃ s, runAll Session.step initial calls = .ok s) ↔ Meets Session.step HasRoom initial calls := by
  rw [← keeps_true_iff]
  refine keeps_iff_meets (fun _ (s : Session α) => ∃ free, s.Sound free) ?_ ?_ ⟨[], sound_initial⟩
  · rintro s call - ⟨free, sound⟩ room
    obtain ⟨t, done⟩ := (sound.step_iff call).mpr room
    exact ⟨t, done, trivial, sound.step done⟩
  · rintro s call - t ⟨free, sound⟩ done -
    exact (sound.step_iff call).mp ⟨t, done⟩

/-- While nothing was freed, allocations use one entry after the other. -/
theorem runAll_replicate (noneFree : s.freelist = -1) (current : Thread) (ptr : Option α)
    (shared : Option ObjLocator) (type : UInt16) (room : s.nbHandles + count ≤ maxUserHandles) :
    ∃ t, runAll step s
      (List.replicate count (.alloc current ptr shared type)) = .ok t ∧ t.freelist = -1 ∧
        t.nbHandles = s.nbHandles + count := by
  induction count generalizing s with
  | zero => exact ⟨s, rfl, noneFree, rfl⟩
  | succ count ih =>
    have next : s.nextIndex = s.nbHandles := if_neg (not_not.mpr noneFree)
    obtain ⟨-, t, result, allocated⟩ | ⟨outside, -⟩ := allocUserHandle_eq s current ptr shared type
    · have freelist := allocated.freelist
      have nbHandles := allocated.nbHandles
      rw [if_neg (not_not.mpr noneFree)] at freelist nbHandles
      obtain ⟨u, later, isEnd, total⟩ := ih (freelist.trans noneFree) (by omega)
      refine ⟨u, bind_eq_ok.mpr ⟨t, ?_, later⟩, isEnd, by omega⟩
      rw [step, result]
      rfl
    · omega

/-- The tables are full after `MAX_USER_HANDLES` allocations, and the next one writes behind them. -/
theorem alloc_behind_tables : ∃ s : Session Nat,
    runAll Session.step initial (List.replicate maxUserHandles (.alloc ⟨1, 1⟩ none none 1)) = .ok s ∧
      s.allocUserHandle ⟨1, 1⟩ none none 1 = .error (.outOfBounds maxUserHandles) := by
  obtain ⟨s, done, noneFree, full⟩ :=
    @runAll_replicate maxUserHandles Nat initial rfl ⟨1, 1⟩ none none 1 le_rfl
  have next : s.nextIndex = maxUserHandles := (if_neg (not_not.mpr noneFree)).trans full
  obtain ⟨inside, -⟩ | ⟨-, fails⟩ := allocUserHandle_eq s ⟨1, 1⟩ none none 1
  · omega
  · exact ⟨s, done, next ▸ fails⟩

/-- **What handles stand for.** An allocation in a run of allocations of types other than zero that
never finds `MAX_USER_HANDLES` entries in use succeeds. Until the entry of its handle is freed, the
handle and its truncated form resolve to the object, under the type of the allocation only, and no
other allocation returns the handle. When the entry has been freed, the handle resolves to nothing as
long as the entry has been allocated fewer than 65534 times. -/
theorem user_handles_of_runs {s : Session α} (run : Runs Session.step Within initial s)
    {current : Thread} {ptr : Option α} {shared : Option ObjLocator} {type : UInt16}
    (within : s.Within (.alloc current ptr shared type)) :
    ∃ t handle, s.allocUserHandle current ptr shared type = .ok (t, handle) ∧
      (∀ u, Runs Session.step (fun s call => s.Within call ∧ ¬Frees (handleIndex handle) s call) t u →
        u.getUserObject handle type = ptr ∧ u.getUserObject (handle &&& 0xffff) type = ptr ∧
        (∀ other ≠ type, u.getUserObject handle other = none) ∧
        u.getUserFullHandle (handle &&& 0xffff) = handle ∧
        (∀ current' ptr' shared' type' v handle',
          u.allocUserHandle current' ptr' shared' type' = .ok (v, handle') → handle' ≠ handle) ∧
        ∀ call freed calls v, Frees (handleIndex handle) u call → u.step call = .ok freed →
          runAll Session.step freed calls = .ok v →
          allocations (handleIndex handle) freed calls < 65534 → v.handleToEntry handle = none) := by
  obtain ⟨free, sound⟩ := sound_of_runs sound_initial run
  have live : type ≠ 0 := within.2 _ _ _ _ rfl
  have inside : s.nextIndex < maxUserHandles := sound.inUse_lt_iff.mp within.1
  obtain ⟨-, t, result, allocated⟩ | ⟨outside, -⟩ := allocUserHandle_eq s current ptr shared type
  swap
  · omega
  have soundThen := allocated.sound sound inside
  have holdsThen := allocated.holds sound live
  have proper := soundThen.proper _ holdsThen.used
  rw [holdsThen.isGeneration] at proper
  refine ⟨t, _, result, fun u later => ?_⟩
  rw [handleIndex_makeHandle inside] at later ⊢
  obtain ⟨⟨free', still⟩, holds⟩ := later.invariant
    (fun u => (∃ free, u.Sound free) ∧ Holds u s.nextIndex ptr type s.newGeneration)
    ⟨⟨_, soundThen⟩, holdsThen⟩ fun _ _ _ ⟨⟨_, before⟩, held⟩ keeps done =>
      ⟨before.step done, held.step before done keeps.2⟩
  obtain ⟨found, foundShort⟩ := holds.resolves inside
  refine ⟨?_, ?_, fun other differ => ?_, ?_, ?_, ?_⟩
  · rw [getUserObject, found]
    exact (if_neg (not_not.mpr holds.isType)).trans holds.object
  · rw [getUserObject, foundShort]
    exact (if_neg (not_not.mpr holds.isType)).trans holds.object
  · rw [getUserObject, found]
    exact if_pos (holds.isType ▸ Ne.symm differ)
  · rw [getUserFullHandle, if_neg (not_not.mpr (truncated_shiftRight _)), foundShort]
    exact congrArg (makeHandle s.nextIndex) holds.isGeneration
  · intro current' ptr' shared' type' v handle' again same
    obtain ⟨insideThen, w, resultThen, -⟩ | ⟨-, fails⟩ :=
      allocUserHandle_eq u current' ptr' shared' type'
    · cases resultThen.symm.trans again
      refine holds.nextIndex_ne still ?_
      rw [← handleIndex_makeHandle inside s.newGeneration, ← same, handleIndex_makeHandle insideThen]
    · cases fails.symm.trans again
  · intro call freed calls v frees done rest few
    obtain ⟨free'', stillFreed⟩ := still.step done
    obtain ⟨used, unused, kept⟩ := holds.freed done frees
    obtain ⟨generation, stays⟩ := stillFreed.generation_of_runAll used rest
    refine handleToEntry_none inside proper ?_
    rcases Nat.eq_zero_or_pos (allocations s.nextIndex freed calls) with none | again
    · exact .inl (stays none unused)
    · rw [generation, kept]
      exact .inr (nextGeneration_iterate proper again few)

/-- A menu is allocated and freed, and a window takes its entry: the handle of the menu does not stand
for the window. -/
theorem user_handles_of_runs_reuse : ∃ s t : Session Nat,
    runAll Session.step initial [.alloc ⟨8, 4⟩ (some 7) none 2, .free 0x10020] = .ok s ∧
      s.allocUserHandle ⟨8, 4⟩ (some 9) none 1 = .ok (t, 0x20020) ∧ t.getUserObject 0x20020 1 = some 9 ∧
      t.getUserObject 0x20 1 = some 9 ∧ t.handleToEntry 0x10020 = none := by
  have within : ∀ (s : Session Nat) ptr (type : UInt16), s.inUse < maxUserHandles → type ≠ 0 →
      s.Within (.alloc ⟨8, 4⟩ ptr none type) := by
    rintro s ptr type room live
    refine ⟨room, ?_⟩
    rintro _ _ _ _ ⟨⟩
    exact live
  have frees : ∀ s : Session Nat, s.Within (.free 0x10020) := fun _ => ⟨trivial, nofun⟩
  have first : Runs Session.step Within initial _ :=
    .tail _ (.refl _) (within initial (some 7) 2 (by decide) (by decide)) rfl
  have run := Runs.tail _ first (frees _) rfl
  obtain ⟨t, handle, result, resolves⟩ := user_handles_of_runs run (within _ (some 9) 1 (by decide) (by decide))
  obtain ⟨object, short, -⟩ := resolves t (Runs.refl t)
  cases result
  exact ⟨_, _, rfl, rfl, object, short, by decide⟩

end Runs

end FreeWindows.User.Session
