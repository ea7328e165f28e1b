/-
**Addresses for image mappings.**

The server suggests an address for every DLL image, so that all processes map it at the same place.
`assign_map_address` takes the address from the top of the first free range that is large enough, and
`free_map_addr` gives it back when the file descriptor is destroyed. There are two arrays of free
ranges, below and above 4 GiB, each with the highest range first.

* `take_tiling`, `freeMapAddr_behind`: one step on one array. Free ranges and assigned blocks tile the
  area of the array: they do not overlap, nothing is missing, and no two free ranges touch. A range
  that was used up stays in the array, with the size zero.
* `mapAddresses_sound`: every run. In particular the arrays are as at the start when no block is left.

Addresses and sizes stay far below `2^64`, since the size of an image has 32 bits, so they are natural
numbers here.
-/

import FreeWindows.Lib.Ensures

namespace FreeWindows.Mapping

open Lib List

/-! ### Free ranges -/

/-- A range of addresses: an entry of `struct addr_range`, or what is assigned to a file
descriptor. -/
structure Range where
  base : Nat
  size : Nat
deriving DecidableEq, Repr

/-- The first address behind the range. -/
def Range.top (range : Range) : Nat := range.base + range.size

def granularityMask : Nat := 0xffff

/-- Which of the two arrays an address belongs to. -/
def isWide (addr : Nat) : Bool := addr >>> 32 != 0

/-- `round_size`, with 64 bits. -/
def roundSize (size mask : Nat) : Nat := (size + mask) &&& (2 ^ 64 - 1 - mask)

/-- The loop of `assign_map_address`: the address, and the array without the block. -/
def take (size : Nat) : List Range → Option (Nat × List Range)
  | [] => none
  | entry :: rest =>
    if entry.size < size then (take size rest).map fun (ret, rest) => (ret, entry :: rest)
    else
      let left := entry.size - size
      some (entry.base + left, { entry with size := left } :: rest)

/-- `free_map_addr`, on the array that the address belongs to. -/
def freeMapAddr (base size : Nat) : List Range → List Range
  | [] => [⟨base, size⟩]
  | entry :: rest =>
    if entry.base > base + size then entry :: freeMapAddr base size rest
    else if entry.base + entry.size < base then ⟨base, size⟩ :: entry :: rest
    else if entry.base = base + size then
      match rest with
      | next :: rest =>
        if next.base + next.size = base then
          -- the block closes the gap between two entries
          { next with size := next.size + (size + entry.size) } :: rest
        else ⟨base, entry.size + size⟩ :: next :: rest
      | [] => [⟨base, entry.size + size⟩]
    else { entry with size := entry.size + size } :: rest

/-! ### File descriptors -/

/-- The fields of `struct fd` for the address. -/
structure Fd where
  mapAddr : Nat := 0
  mapSize : Nat := 0
deriving DecidableEq, Repr

/-- The fields of `struct mapping` that an address is assigned from. The size of a section is at most
that of its image. -/
structure ImageMapping where
  fd : Nat
  imageBase : Nat
  isDll : Bool
  size : Nat
  mapSize : UInt32
  small : size ≤ mapSize.toNat

/-- The free ranges below and above 4 GiB, and the file descriptors in the order of their creation,
those that are destroyed included. -/
structure Memory where
  ranges32 : List Range
  ranges64 : List Range
  fds : List (Option Fd)
deriving DecidableEq, Repr

/-- An assertion of the server fails. -/
inductive Abort
  | assertion
deriving DecidableEq, Repr

namespace Memory

variable (memory : Memory)

def array (wide : Bool) : List Range := if wide then memory.ranges64 else memory.ranges32

def setArray (wide : Bool) (ranges : List Range) : Memory :=
  if wide then { memory with ranges64 := ranges } else { memory with ranges32 := ranges }

def setFdMapAddress (i : Nat) (fd : Fd) (addr size : Nat) : Except Abort Memory :=
  if fd.mapAddr ≠ 0 then .error .assertion
  else .ok { memory with fds := memory.fds.set i (some ⟨addr, size⟩) }

/-- `assign_map_address`, for a mapping of a file descriptor that exists. -/
def assignMapAddress (mapping : ImageMapping) (fd : Fd) : Except Abort (Memory × Nat) :=
  let size := roundSize mapping.size granularityMask
  if ¬mapping.isDll then .ok (memory, 0)
  else if fd.mapAddr ≠ 0 then .ok (memory, fd.mapAddr)
  else
    let size := size + (granularityMask + 1)
    match take size (memory.array (isWide mapping.imageBase)) with
    | none => .ok (memory, 0)
    | some (ret, ranges) => do
      let memory := memory.setArray (isWide mapping.imageBase) ranges
      let memory ← memory.setFdMapAddress mapping.fd fd ret size
      return (memory, ret)

def fdDestroy (i : Nat) (fd : Fd) : Memory :=
  let memory := if fd.mapAddr ≠ 0 then
      let wide := isWide fd.mapAddr
      memory.setArray wide (freeMapAddr fd.mapAddr fd.mapSize (memory.array wide))
    else memory
  { memory with fds := memory.fds.set i none }

end Memory

inductive MapAction
  | createFd
  | assign (mapping : ImageMapping)
  | destroyFd (i : Nat)

/-- What is asked for a file descriptor that does not exist has no effect. -/
def Memory.step (memory : Memory) : MapAction → Except Abort Memory
  | .createFd => .ok { memory with fds := memory.fds ++ [some {}] }
  | .assign mapping =>
    match memory.fds[mapping.fd]? with
    | some (some fd) => (memory.assignMapAddress mapping fd).map Prod.fst
    | _ => .ok memory
  | .destroyFd i =>
    match memory.fds[i]? with
    | some (some fd) => .ok (memory.fdDestroy i fd)
    | _ => .ok memory

def initMemory : Memory where
  ranges32 := freeMapAddr 0x60000000 0x1c000000 []
  ranges64 := freeMapAddr 0x600000000000 0x100000000000 []
  fds := []

/-! ### Tilings -/

/-- One range lies entirely before the other one. -/
def Range.Apart (first second : Range) : Prop := first.top ≤ second.base ∨ second.top ≤ first.base

/-- The free ranges and the blocks make up the addresses from `low` to `high`. -/
structure Tiling (low high : Nat) (free blocks : List Range) : Prop where
  /-- the highest one comes first, and no two of them touch -/
  descending : free.Pairwise fun upper lower => lower.top < upper.base
  within : ∀ range ∈ free ++ blocks, low ≤ range.base ∧ range.top ≤ high
  proper : ∀ block ∈ blocks, 0 < block.size
  disjoint : blocks.Pairwise Range.Apart
  apart : ∀ range ∈ free, ∀ block ∈ blocks, range.Apart block
  complete : (free.map Range.size).sum + (blocks.map Range.size).sum = high - low

namespace Tiling

variable {low high size base addr : Nat} {free rest blocks others : List Range}

theorem perm (tiling : Tiling low high free blocks) (same : blocks.Perm others) :
    Tiling low high free others where
  descending := tiling.descending
  within range member := tiling.within range (((List.Perm.refl free).append same).mem_iff.mpr member)
  proper block member := tiling.proper block (same.mem_iff.mpr member)
  disjoint := (same.pairwise_iff fun apart => apart.symm).mp tiling.disjoint
  apart range member block other := tiling.apart range member block (same.mem_iff.mpr other)
  complete := by rw [← (same.map Range.size).sum_eq]; exact tiling.complete

end Tiling

variable {addr size : Nat}

/-- A loop that goes on while an entry is too small stops at one that is not. -/
theorem take_spec {free rest : List Range} (taken : take size free = some (addr, rest)) :
    ∃ front entry back, free = front ++ entry :: back ∧ size ≤ entry.size ∧
      addr = entry.base + (entry.size - size) ∧
      rest = front ++ ⟨entry.base, entry.size - size⟩ :: back := by
  induction free generalizing rest with
  | nil => nomatch taken
  | cons entry back ih =>
    simp only [take] at taken
    split at taken
    · obtain ⟨⟨found, left⟩, inner, same⟩ := Option.map_eq_some_iff.mp taken
      obtain ⟨rfl, rfl⟩ := Prod.mk.injEq .. ▸ same
      obtain ⟨front, chosen, behind, rfl, fits, address, rfl⟩ := ih inner
      exact ⟨entry :: front, chosen, behind, rfl, fits, address, rfl⟩
    · next fits =>
      obtain ⟨rfl, rfl⟩ := Prod.mk.injEq .. ▸ Option.some.inj taken
      exact ⟨[], entry, back, rfl, le_of_not_gt fits, rfl, rfl⟩

section Steps

variable {low high base : Nat} {free rest blocks : List Range}

theorem Range.Apart.union {lower : Nat} {other : Range} {base : Nat} (positive : 0 < other.size)
    (first : Range.Apart ⟨base, lower⟩ other) (second : Range.Apart ⟨base + lower, size⟩ other) :
    Range.Apart ⟨base, lower + size⟩ other := by
  simp only [Range.Apart, Range.top] at first second ⊢
  omega

/-- What is taken comes from the top of a free range, so nothing else changes. -/
theorem take_tiling (tiling : Tiling low high free blocks) (positive : 0 < size)
    (taken : take size free = some (addr, rest)) : Tiling low high rest (⟨addr, size⟩ :: blocks) := by
  obtain ⟨front, entry, back, rfl, fits, rfl, rfl⟩ := take_spec taken
  have member : entry ∈ front ++ entry :: back := by simp
  obtain ⟨descending, behind, order⟩ := pairwise_append.mp tiling.descending
  obtain ⟨first, others⟩ := pairwise_cons.mp behind
  have inside := tiling.within entry (mem_append_left _ member)
  have clear := tiling.apart entry member
  simp only [Range.top] at inside first order
  refine ⟨?_, ?_, ?_, ?_, ?_, ?_⟩
  · refine pairwise_append.mpr ⟨descending, pairwise_cons.mpr ⟨first, others⟩, ?_⟩
    intro upper above lower below
    obtain rfl | below := mem_cons.mp below
    · have := order upper above entry mem_cons_self
      simp only [Range.top]
      omega
    · exact order upper above lower (mem_cons_of_mem _ below)
  · intro range found
    simp only [mem_append, mem_cons] at found
    rcases found with (above | rfl | below) | rfl | block
    · exact tiling.within range (by simp [above])
    · simp only [Range.top]
      omega
    · exact tiling.within range (by simp [below])
    · simp only [Range.top]
      omega
    · exact tiling.within range (by simp [block])
  · intro block found
    obtain rfl | found := mem_cons.mp found
    · exact positive
    · exact tiling.proper block found
  · refine pairwise_cons.mpr ⟨fun block found => ?_, tiling.disjoint⟩
    have := clear block found
    simp only [Range.Apart, Range.top] at this ⊢
    omega
  · intro range found block other
    simp only [mem_append, mem_cons] at found other
    rcases found with above | rfl | below <;> rcases other with rfl | other
    · have := order range above entry mem_cons_self
      simp only [Range.Apart, Range.top]
      omega
    · exact tiling.apart range (by simp [above]) block other
    · exact .inl le_rfl
    · have := clear block other
      simp only [Range.Apart, Range.top] at this ⊢
      omega
    · have := first range below
      simp only [Range.Apart, Range.top]
      omega
    · exact tiling.apart range (by simp [below]) block other
  · have := tiling.complete
    simp only [map_append, map_cons, sum_append, sum_cons] at this ⊢
    omega

/-- A block goes back: together with the free ranges in `old` it makes up one range. -/
theorem Tiling.release {front back : List Range} {block merged : Range} (old : List Range)
    (tiling : Tiling low high (front ++ (old ++ back)) (block :: blocks))
    (above : ∀ range ∈ front, merged.top < range.base) (below : ∀ range ∈ back, range.top < merged.base)
    (within : low ≤ merged.base ∧ merged.top ≤ high) (apart : ∀ other ∈ blocks, merged.Apart other)
    (grown : merged.size = (old.map Range.size).sum + block.size) :
    Tiling low high (front ++ merged :: back) blocks := by
  obtain ⟨firsts, behind, order⟩ := pairwise_append.mp tiling.descending
  refine ⟨?_, ?_, ?_, ?_, ?_, ?_⟩
  · refine pairwise_append.mpr ⟨firsts, pairwise_cons.mpr ⟨below, (pairwise_append.mp behind).2.1⟩, ?_⟩
    intro upper found lower other
    obtain rfl | other := mem_cons.mp other
    · exact above upper found
    · exact order upper found lower (mem_append_right _ other)
  · intro range found
    simp only [mem_append, mem_cons] at found
    rcases found with (found | rfl | found) | found
    · exact tiling.within range (by simp [found])
    · exact within
    · exact tiling.within range (by simp [found])
    · exact tiling.within range (by simp [found])
  · exact fun other found => tiling.proper other (mem_cons_of_mem _ found)
  · exact (pairwise_cons.mp tiling.disjoint).2
  · intro range found other member
    simp only [mem_append, mem_cons] at found
    rcases found with found | rfl | found
    · exact tiling.apart range (by simp [found]) other (mem_cons_of_mem _ member)
    · exact apart other member
    · exact tiling.apart range (by simp [found]) other (mem_cons_of_mem _ member)
  · have := tiling.complete
    simp only [map_append, map_cons, sum_append, sum_cons] at this ⊢
    omega

/-- The loop over the array, behind the entries that lie above the block. -/
theorem freeMapAddr_behind (front : List Range) (above : ∀ range ∈ front, base + size < range.base)
    (tiling : Tiling low high (front ++ free) (⟨base, size⟩ :: blocks)) :
    Tiling low high (front ++ freeMapAddr base size free) blocks := by
  have within := tiling.within ⟨base, size⟩ (by simp)
  have apart : ∀ other ∈ blocks, Range.Apart ⟨base, size⟩ other :=
    (pairwise_cons.mp tiling.disjoint).1
  induction free generalizing front with
  | nil => exact tiling.release [] above (by simp) within apart (by simp)
  | cons entry rest ih =>
    obtain ⟨-, behind, order⟩ := pairwise_append.mp tiling.descending
    obtain ⟨first, others⟩ := pairwise_cons.mp behind
    have member : entry ∈ front ++ entry :: rest := by simp
    have inside := tiling.within entry (mem_append_left _ member)
    have clear := tiling.apart entry member
    have aside := clear ⟨base, size⟩ mem_cons_self
    have proper : ∀ other ∈ blocks, 0 < other.size :=
      fun other found => tiling.proper other (mem_cons_of_mem _ found)
    simp only [Range.top] at first inside aside
    simp only [freeMapAddr]
    split_ifs with higher lower touches
    · have longer : ∀ range ∈ front ++ [entry], base + size < range.base := by
        intro range found
        obtain found | found := mem_append.mp found
        · exact above range found
        · rwa [mem_singleton.mp found]
      have moved := ih _ longer (by simpa using tiling)
      simpa using moved
    · refine tiling.release [] above ?_ within apart (by simp)
      intro range found
      obtain rfl | found := mem_cons.mp found
      · exact lower
      · have := first range found
        simp only [Range.top]
        omega
    · have joined : ∀ other ∈ blocks, Range.Apart ⟨base, size + entry.size⟩ other := by
        intro other found
        refine .union (proper other found) (apart other found) ?_
        rw [← touches]
        exact clear other (mem_cons_of_mem _ found)
      have alone (below : ∀ range ∈ rest, range.top < base) :
          Tiling low high (front ++ ⟨base, entry.size + size⟩ :: rest) blocks := by
        refine tiling.release [entry] ?_ below ?_ ?_ (by simp)
        · intro range found
          have := order range found entry mem_cons_self
          simp only [Range.top] at this ⊢
          omega
        · simp only [Range.top] at within ⊢
          omega
        · rw [Nat.add_comm]
          exact joined
      match rest with
      | [] => exact alone (by simp)
      | next :: rest =>
        have under := tiling.apart next (by simp)
        have lowest := tiling.within next (by simp)
        have gap := first next mem_cons_self
        have deeper := (pairwise_cons.mp others).1
        dsimp only
        split_ifs with closes
        · refine tiling.release [entry, next] ?_ deeper ?_ ?_ (by simp; omega)
          · intro range found
            have := order range found entry mem_cons_self
            simp only [Range.top] at this ⊢
            omega
          · simp only [Range.top] at lowest ⊢
            omega
          · intro other found
            refine .union (proper other found) (under other (mem_cons_of_mem _ found)) ?_
            rw [closes]
            exact joined other found
        · have beneath := under ⟨base, size⟩ mem_cons_self
          simp only [Range.Apart, Range.top] at beneath
          refine alone fun range found => ?_
          obtain rfl | found := mem_cons.mp found
          · simp only [Range.top]
            omega
          · have := deeper range found
            omega
    · -- the block lies directly above the entry
      have meets : base = entry.base + entry.size := by
        simp only [Range.Apart, Range.top] at aside
        omega
      refine tiling.release [entry] ?_ first ?_ ?_ (by simp)
      · intro range found
        have := above range found
        simp only [Range.top]
        omega
      · simp only [Range.top] at within ⊢
        omega
      · intro other found
        refine .union (proper other found) (clear other (mem_cons_of_mem _ found)) ?_
        rw [← meets]
        exact apart other found

/-- Free ranges that lie below each other are not larger than the area that they lie in. -/
theorem sum_le_of_descending (descending : free.Pairwise fun upper lower => lower.top < upper.base)
    (ordered : low ≤ high) (within : ∀ range ∈ free, low ≤ range.base ∧ range.top ≤ high) :
    (free.map Range.size).sum ≤ high - low := by
  induction free generalizing high with
  | nil => simp
  | cons entry rest ih =>
    obtain ⟨first, others⟩ := pairwise_cons.mp descending
    obtain ⟨above, inside⟩ := within entry mem_cons_self
    have smaller := ih others above fun range found =>
      ⟨(within range (mem_cons_of_mem _ found)).1, (first range found).le⟩
    simp only [map_cons, sum_cons, Range.top] at inside ⊢
    omega

/-- When no block is left there is one free range again. -/
theorem Tiling.unused (tiling : Tiling low high free []) (ordered : low < high) :
    free = [⟨low, high - low⟩] := by
  have within : ∀ range ∈ free, low ≤ range.base ∧ range.top ≤ high :=
    fun range found => tiling.within range (by simpa using found)
  have complete : (free.map Range.size).sum = high - low := by simpa using tiling.complete
  match free, tiling.descending with
  | [], _ =>
    simp only [map_nil, sum_nil] at complete
    omega
  | [⟨base, size⟩], _ =>
    have inside := within ⟨base, size⟩ mem_cons_self
    simp only [Range.top, map_cons, map_nil, sum_cons, sum_nil] at inside complete
    obtain rfl : base = low := by omega
    obtain rfl : size = high - base := by omega
    rfl
  | upper :: lower :: rest, descending =>
    -- the gap between two of them would be missing
    obtain ⟨first, others⟩ := pairwise_cons.mp descending
    have gap := first lower mem_cons_self
    have inside := within upper mem_cons_self
    have bottom := within lower (by simp)
    have deeper := (pairwise_cons.mp others).1
    have below : ∀ range ∈ lower :: rest, low ≤ range.base ∧ range.top ≤ lower.top := by
      intro range found
      refine ⟨(within range (mem_cons_of_mem _ found)).1, ?_⟩
      obtain rfl | found := mem_cons.mp found
      · exact le_rfl
      · have := deeper range found
        simp only [Range.top] at this ⊢
        omega
    have smaller := sum_le_of_descending others (by simp only [Range.top]; omega) below
    simp only [map_cons, sum_cons, Range.top] at complete smaller inside gap
    omega

end Steps

/-! ### Runs -/

/-- What is assigned to a file descriptor. -/
def Fd.block (fd : Fd) : Option Range := if fd.mapAddr ≠ 0 then some ⟨fd.mapAddr, fd.mapSize⟩ else none

/-- The blocks of a list of file descriptors, in one of the two areas. -/
def blocksOf (wide : Bool) (fds : List (Option Fd)) : List Range :=
  (fds.filterMap (·.bind Fd.block)).filter fun block => isWide block.base = wide

def lowest (wide : Bool) : Nat := if wide then 0x600000000000 else 0x60000000

def highest (wide : Bool) : Nat := if wide then 0x700000000000 else 0x7c000000

def Memory.Tiled (memory : Memory) : Prop :=
  ∀ wide, Tiling (lowest wide) (highest wide) (memory.array wide) (blocksOf wide memory.fds)

theorem isWide_of_within {wide : Bool} {range : Range} (positive : 0 < range.size)
    (within : lowest wide ≤ range.base ∧ range.top ≤ highest wide) : isWide range.base = wide := by
  obtain ⟨above, below⟩ := within
  simp only [isWide, Nat.shiftRight_eq_div_pow, Range.top] at below ⊢
  cases wide
  · simp only [lowest, highest, Bool.false_eq_true, if_false] at above below
    simp only [bne_eq_false_iff_eq]
    omega
  · simp only [lowest, highest, if_true] at above below
    simp only [bne_iff_ne, ne_eq]
    omega

section Runs

variable {memory : Memory} {fd : Fd} {i : Nat} {wide : Bool}

@[simp]
theorem fds_setArray (ranges : List Range) : (memory.setArray wide ranges).fds = memory.fds := by
  cases wide <;> rfl

theorem blocksOf_append (front back : List (Option Fd)) :
    blocksOf wide (front ++ back) = blocksOf wide front ++ blocksOf wide back := by
  simp [blocksOf]

variable {fds : List (Option Fd)} {ranges : List Range}

theorem blocksOf_set {slot : Option Fd} (place : fds[i]? = some slot) :
    ∃ rest, ∀ wide, (blocksOf wide fds).Perm (blocksOf wide [slot] ++ blocksOf wide rest) ∧
      ∀ other, (blocksOf wide (fds.set i other)).Perm
        (blocksOf wide [other] ++ blocksOf wide rest) := by
  obtain ⟨inside, rfl⟩ := List.getElem?_eq_some_iff.mp place
  have around : ∀ other wide, (blocksOf wide (fds.take i ++ other :: fds.drop (i + 1))).Perm
      (blocksOf wide [other] ++ blocksOf wide (fds.take i ++ fds.drop (i + 1))) := by
    intro other wide
    rw [← singleton_append, blocksOf_append, blocksOf_append, blocksOf_append]
    exact perm_append_comm_assoc ..
  refine ⟨fds.take i ++ fds.drop (i + 1), fun wide => ⟨?_, fun other => ?_⟩⟩
  · have same : fds.take i ++ fds[i] :: fds.drop (i + 1) = fds := by simp
    simpa only [same] using around fds[i] wide
  · rw [set_eq_take_append_cons_drop, if_pos inside]
    exact around other wide

theorem blocksOf_singleton (wide : Bool) :
    blocksOf wide [some fd] = if fd.mapAddr ≠ 0 ∧ isWide fd.mapAddr = wide
      then [⟨fd.mapAddr, fd.mapSize⟩] else [] := by
  by_cases assigned : fd.mapAddr = 0
  · simp [blocksOf, Fd.block, assigned]
  · by_cases same : isWide fd.mapAddr = wide <;> simp [blocksOf, Fd.block, assigned, same]

variable (tiled : memory.Tiled)
include tiled

/-- What `Tiled` says about a memory in which one array and one file descriptor were replaced. -/
theorem Memory.Tiled.update (tiling : Tiling (lowest wide) (highest wide) ranges (blocksOf wide fds))
    (others : ∀ other, other ≠ wide → (blocksOf other memory.fds).Perm (blocksOf other fds)) :
    Memory.Tiled { memory.setArray wide ranges with fds := fds } := by
  intro other
  by_cases same : other = wide
  · subst same
    have array : Memory.array { memory.setArray other ranges with fds := fds } other = ranges := by
      cases other <;> rfl
    rw [array]
    exact tiling
  · have array : Memory.array { memory.setArray wide ranges with fds := fds } other =
        memory.array other := by
      cases wide <;> cases other <;> first | rfl | exact absurd rfl same
    rw [array]
    exact (tiled other).perm (others other same)

theorem setFdMapAddress_tiled (place : memory.fds[i]? = some (some fd)) (unset : fd.mapAddr = 0)
    (positive : 0 < size) (taken : take size (memory.array wide) = some (addr, ranges)) :
    Returns ((memory.setArray wide ranges).setFdMapAddress i fd addr size)
      Memory.Tiled := by
  have tiling := take_tiling (tiled wide) positive taken
  have within := tiling.within ⟨addr, size⟩ (by simp)
  have side : isWide addr = wide := @isWide_of_within wide ⟨addr, size⟩ positive within
  have nonzero : addr ≠ 0 := ne_of_gt (lt_of_lt_of_le (by cases wide <;> decide) within.1)
  obtain ⟨rest, same⟩ := blocksOf_set place
  simp only [Memory.setFdMapAddress, unset, ne_eq, not_true_eq_false, if_false, fds_setArray]
  refine tiled.update ?_ fun other different => ?_
  · obtain ⟨before, after⟩ := same wide
    replace after := after (some ⟨addr, size⟩)
    rw [blocksOf_singleton, if_neg (fun set => set.1 unset)] at before
    rw [blocksOf_singleton, if_pos ⟨nonzero, side⟩] at after
    exact (tiling.perm (before.cons _)).perm after.symm
  · obtain ⟨before, after⟩ := same other
    replace after := after (some ⟨addr, size⟩)
    rw [blocksOf_singleton, if_neg (fun set => set.1 unset)] at before
    rw [blocksOf_singleton, if_neg fun set => different (side ▸ set.2).symm] at after
    exact before.trans after.symm

theorem fdDestroy_tiled (place : memory.fds[i]? = some (some fd)) : (memory.fdDestroy i fd).Tiled := by
  obtain ⟨rest, same⟩ := blocksOf_set place
  by_cases unset : fd.mapAddr = 0
  · simp only [Memory.fdDestroy, unset, ne_eq, not_true_eq_false, if_false]
    intro wide
    obtain ⟨before, after⟩ := same wide
    rw [blocksOf_singleton, if_neg (fun set => set.1 unset)] at before
    exact (tiled wide).perm (before.trans (after none).symm)
  · simp only [Memory.fdDestroy, ne_eq, unset, not_false_eq_true, if_true, fds_setArray]
    refine tiled.update ?_ fun other different => ?_
    · obtain ⟨before, after⟩ := same (isWide fd.mapAddr)
      rw [blocksOf_singleton, if_pos ⟨unset, rfl⟩] at before
      exact (freeMapAddr_behind [] (by simp) ((tiled _).perm before)).perm (after none).symm
    · obtain ⟨before, after⟩ := same other
      rw [blocksOf_singleton, if_neg fun set => different set.2.symm] at before
      exact before.trans (after none).symm

theorem step_tiled (action : MapAction) :
    Returns (memory.step action) Memory.Tiled := by
  cases action with
  | createFd =>
    intro wide
    have same : blocksOf wide (memory.fds ++ [some ⟨0, 0⟩]) = blocksOf wide memory.fds := by
      rw [blocksOf_append, blocksOf_singleton]
      simp
    have kept := tiled wide
    rw [← same] at kept
    exact kept
  | destroyFd i =>
    simp only [Memory.step]
    split
    · next fd place => exact fdDestroy_tiled tiled place
    · exact tiled
  | assign mapping =>
    simp only [Memory.step]
    split
    · next fd place =>
      refine ensures_map ?_
      unfold Memory.assignMapAddress
      dsimp only
      split_ifs with program assigned
      · exact tiled
      · split
        · exact tiled
        · next addr ranges taken =>
          refine ensures_bind (setFdMapAddress_tiled tiled place (not_not.mp assigned) ?_ taken) ?_
          · omega
          · exact fun next kept => kept
      · exact tiled
    · exact tiled

end Runs

theorem initMemory_tiled : initMemory.Tiled := by
  intro wide
  have array : initMemory.array wide = [⟨lowest wide, highest wide - lowest wide⟩] := by
    cases wide <;> rfl
  have ordered : lowest wide ≤ highest wide := by
    cases wide <;> decide
  rw [array]
  refine ⟨by simp, ?_, by simp [initMemory, blocksOf], by simp [initMemory, blocksOf],
    by simp [initMemory, blocksOf], by simp [initMemory, blocksOf]⟩
  intro range found
  obtain rfl : range = ⟨lowest wide, highest wide - lowest wide⟩ := by
    simpa [initMemory, blocksOf] using found
  exact ⟨le_rfl, (Nat.add_sub_of_le ordered).le⟩

/-- The address ranges of the file descriptors that exist. -/
def Memory.blocks (memory : Memory) : List Range := memory.fds.filterMap (·.bind Fd.block)

theorem Range.Apart.of_areas {low high : Range}
    (below : lowest false ≤ low.base ∧ low.top ≤ highest false)
    (above : lowest true ≤ high.base ∧ high.top ≤ highest true) : low.Apart high := by
  have between : highest false ≤ lowest true := by decide
  exact .inl (below.2.trans (between.trans above.1))

theorem blocks_perm (memory : Memory) :
    memory.blocks.Perm (blocksOf false memory.fds ++ blocksOf true memory.fds) := by
  have parts := filter_append_perm (fun block => isWide block.base) memory.blocks
  simp only [blocksOf, Memory.blocks] at parts ⊢
  simpa using (perm_append_comm.trans parts).symm

/-- **Assigned addresses.** Whatever file descriptors are created, given addresses and destroyed, no
assertion fails, and in the state that is reached the blocks of the file descriptors lie apart from
each other and from every free range. In each array every free range lies below the one before it,
with a gap between them. Without file descriptors the arrays are the initial ones. -/
theorem mapAddresses_sound (actions : List MapAction) :
    ∃ memory, runAll Memory.step initMemory actions = .ok memory ∧
      memory.blocks.Pairwise Range.Apart ∧
      (∀ range ∈ memory.ranges32 ++ memory.ranges64, ∀ block ∈ memory.blocks, range.Apart block) ∧
      (∀ free ∈ [memory.ranges32, memory.ranges64],
        free.Pairwise fun upper lower => lower.top < upper.base) ∧
      ((∀ slot ∈ memory.fds, slot = none) →
        memory.ranges32 = [⟨0x60000000, 0x1c000000⟩] ∧
        memory.ranges64 = [⟨0x600000000000, 0x100000000000⟩]) := by
  obtain ⟨memory, done, tiled⟩ := (ensures_runAll (fun memory action kept => step_tiled kept action)
    initMemory_tiled actions).returns
  have low := tiled false
  have high := tiled true
  have parts := blocks_perm memory
  refine ⟨memory, done, ?_, ?_, ?_, fun gone => ?_⟩
  · refine (parts.pairwise_iff fun apart => apart.symm).mpr (pairwise_append.mpr
      ⟨low.disjoint, high.disjoint, fun first below second above => ?_⟩)
    exact .of_areas (low.within first (by simp [below])) (high.within second (by simp [above]))
  · intro range free block found
    have inside := mem_append.mp (parts.mem_iff.mp found)
    rcases mem_append.mp free with free | free <;> rcases inside with inside | inside
    · exact low.apart range free block inside
    · exact .of_areas (low.within range (mem_append_left _ free)) (high.within block (by simp [inside]))
    · exact (Range.Apart.of_areas (low.within block (by simp [inside]))
        (high.within range (mem_append_left _ free))).symm
    · exact high.apart range free block inside
  · intro free found
    simp only [mem_cons, not_mem_nil, or_false] at found
    obtain rfl | rfl := found
    · exact low.descending
    · exact high.descending
  · have none : ∀ wide, blocksOf wide memory.fds = [] := by
      intro wide
      simp only [blocksOf, filter_eq_nil_iff, mem_filterMap]
      rintro block ⟨slot, member, some⟩
      rw [gone slot member] at some
      nomatch some
    rw [none] at low high
    exact ⟨low.unused (by decide), high.unused (by decide)⟩

/-- A DLL of 0x12345 bytes with a base above 4 GiB. -/
def dll (fd : Nat) : ImageMapping := ⟨fd, 0x180000000, true, 0x12345, 0x13000, by decide⟩

/-- Two DLLs get addresses, and the one of the first is free again when its file is closed. -/
def twoDlls : List MapAction :=
  [.createFd, .createFd, .assign (dll 0), .assign (dll 1), .destroyFd 0]

theorem mapAddresses_sound_freed : ∃ memory, runAll Memory.step initMemory twoDlls = .ok memory ∧
    memory.fds = [none, some ⟨0x6ffffffa0000, 0x30000⟩] ∧
    memory.ranges64 = [⟨0x6ffffffd0000, 0x30000⟩, ⟨0x600000000000, 0xffffffa0000⟩] ∧
    ∀ range ∈ memory.ranges32 ++ memory.ranges64, ∀ block ∈ memory.blocks, range.Apart block := by
  obtain ⟨memory, done, -, apart, -⟩ := mapAddresses_sound twoDlls
  obtain ⟨_, computed, fds, ranges⟩ := exists_ok_of_check (x := runAll Memory.step initMemory twoDlls)
    (fun memory => memory.fds = [none, some ⟨0x6ffffffa0000, 0x30000⟩] ∧
      memory.ranges64 = [⟨0x6ffffffd0000, 0x30000⟩, ⟨0x600000000000, 0xffffffa0000⟩]) (by decide +kernel)
  cases computed.symm.trans done
  exact ⟨memory, done, fds, ranges, apart⟩

end FreeWindows.Mapping
