/-
**Views and free ranges of the address space.**

`dlls/ntdll/unix/virtual.c`: the views of a process are kept in a tree ordered by address, and
`free_ranges` is a sorted array of the address ranges that no view in a reserved area uses. A view
starts and ends at a page, a free range at a granule of 64K, so the range of a view is rounded to
granules before the array is updated, and neighbouring views can share a granule.

The tree is modelled as the list of its views in address order, and the array as a list of spans;
an index that the binary search returns splits the list. Failed assertions are the fault
`assertion`, a full array is `full`. `create_view` is modelled for addresses where there is no view
yet, without its recovery from system views that were unmapped behind its back; page protections
and the mapping of memory are left out.
-/

import FreeWindows.Lib.Search
import FreeWindows.Lib.Span

namespace FreeWindows.Virtual

open Lib

/-- `struct file_view`. -/
structure View where
  base : Nat
  size : Nat
deriving DecidableEq, Repr

/-- `struct range_entry`: base and end are the ends of the span. -/
abbrev RangeEntry := Span Nat

/-- `struct reserved_area`. -/
structure ReservedArea where
  base : Nat
  size : Nat
deriving DecidableEq, Repr

inductive Fault
  | assertion
  | full
  | overlapping
  | noView
deriving DecidableEq, Repr

def pageMask : Nat := 0xfff

/-- One more than `granularity_mask`. -/
def granularity : Nat := 0x10000

def addressSpaceLimit : Nat := 0x7fffffff0000

/-- `~0`, the end of the initial free range. -/
def topAddress : Nat := 0xffffffffffffffff

/-- The number of entries in `view_block_size` bytes. -/
def maxRanges : Nat := 0x100000 / 16

/-- `ROUND_ADDR( addr, granularity_mask )`. -/
def roundAddr (addr : Nat) : Nat := addr / granularity * granularity

/-- Where the granules of a view begin. -/
def View.rangeBase (view : View) : Nat := roundAddr view.base

/-- Where the granules of a view end. -/
def View.rangeEnd (view : View) : Nat := roundAddr (view.base + view.size + (granularity - 1))

def mmapIsInReservedArea (areas : List ReservedArea) (addr size : Nat) : Int :=
  match areas with
  | [] => 0
  | area :: rest =>
    if area.base > addr then 0
    else if area.base + area.size ≤ addr then mmapIsInReservedArea rest addr size
    else if area.base + area.size < addr + size then -1
    else 1

/-! ### The free ranges -/

/-- `free_ranges_lower_bound`: the index of the first range that does not end before `addr`. -/
def freeRangesLowerBound (ranges : List RangeEntry) (addr : Nat) : Nat :=
  partitionPoint (fun mid => (ranges[mid]?).any fun range => range.hi < addr) 0 ranges.length

/-- The end of `free_ranges_insert_view`: `[base, stop)` is taken out of `range`, which stands
between `before` and `after`. -/
def takeFromRange (before : List RangeEntry) (range : RangeEntry) (after : List RangeEntry)
    (base stop : Nat) : Except Fault (List RangeEntry) :=
  if ¬(range.lo ≤ base ∧ range.hi ≥ stop) then .error .assertion
  else if range.lo < base ∧ range.hi > stop then
    -- the range is split in two
    if before.length + after.length + 2 > maxRanges then .error .full
    else .ok (before ++ ⟨range.lo, base⟩ :: ⟨stop, range.hi⟩ :: after)
  else
    let shrunk : RangeEntry := if range.lo < base then ⟨range.lo, base⟩ else ⟨stop, range.hi⟩
    if shrunk.lo < shrunk.hi then .ok (before ++ shrunk :: after)
    else if before ++ after = [] then .error .assertion
    else .ok (before ++ after)

def freeRangesInsertView (ranges : List RangeEntry) (view : View) :
    Except Fault (List RangeEntry) :=
  let index := freeRangesLowerBound ranges view.rangeBase
  match ranges.drop index with
  | [] => .error .assertion
  | range :: after =>
    if ¬(range.hi > view.rangeBase ∨ after ≠ []) then .error .assertion
    else
      let base := if range.lo > view.rangeBase then range.lo else view.rangeBase
      let stop := if range.hi < view.rangeEnd then range.hi else view.rangeEnd
      let stop := if range.hi = base ∧ (after.head?).any (fun next => next.lo ≥ stop) then base
        else stop
      if stop ≤ base then .ok ranges
      else takeFromRange (ranges.take index) range after base stop

/-- The end of `free_ranges_remove_view`: `[base, stop)` becomes free next to `range`. -/
def giveToRange (before : List RangeEntry) (range : RangeEntry) (after : List RangeEntry)
    (base stop : Nat) : Except Fault (List RangeEntry) :=
  if ¬(range.hi > base ∨ after ≠ []) then .error .assertion
  else if range.lo ≤ base ∧ range.hi ≥ stop then .ok (before ++ range :: after)
  else if ¬(range.hi ≤ base ∨ range.lo ≥ stop) then .error .assertion
  else if range.hi = base then
    match after with
    | [] => .ok (before ++ [⟨range.lo, stop⟩])
    | next :: rest =>
      if next.lo = stop then .ok (before ++ ⟨range.lo, next.hi⟩ :: rest)
      else .ok (before ++ ⟨range.lo, stop⟩ :: next :: rest)
  else if range.lo = stop then .ok (before ++ ⟨base, range.hi⟩ :: after)
  else if before.length + after.length + 2 > maxRanges then .error .full
  else .ok (before ++ ⟨base, stop⟩ :: range :: after)

/-- `rb_prev`: the view in front of `view`. -/
def prevView (views : List View) (view : View) : Option View :=
  (views.filter fun other => other.base < view.base).getLast?

/-- `rb_next`: the view behind `view`. -/
def nextView (views : List View) (view : View) : Option View :=
  (views.filter fun other => view.base < other.base).head?

/-- Where the granules of `view` begin that the view in front does not use. -/
def ownBase (views : List View) (view : View) : Nat :=
  match prevView views view with
  | some prev =>
    if prev.rangeEnd ≠ 0 ∧ prev.rangeEnd > view.rangeBase ∧ prev.rangeBase < view.rangeEnd then
      prev.rangeEnd
    else view.rangeBase
  | none => view.rangeBase

/-- Where the granules of `view` end that the view behind does not use. -/
def ownEnd (views : List View) (view : View) : Nat :=
  match nextView views view with
  | some next =>
    if next.rangeBase ≠ 0 ∧ next.rangeBase < view.rangeEnd ∧
        next.rangeEnd > ownBase views view then
      next.rangeBase
    else view.rangeEnd
  | none => view.rangeEnd

/-- `free_ranges_remove_view`, which leaves out the granules that `view` shares with its
neighbours in the tree. The range is looked up with the base that may be shared. -/
def freeRangesRemoveView (views : List View) (ranges : List RangeEntry) (view : View) :
    Except Fault (List RangeEntry) :=
  let index := freeRangesLowerBound ranges view.rangeBase
  let base := ownBase views view
  let stop := ownEnd views view
  if stop ≤ base then .ok ranges
  else
    match ranges.drop index with
    | [] => .error .assertion
    | range :: after => giveToRange (ranges.take index) range after base stop

/-! ### Views -/

/-- The views of a process and the free ranges. -/
structure Space where
  views : List View
  ranges : List RangeEntry
deriving DecidableEq, Repr

/-- The state that `virtual_init` sets up. -/
def Space.initial : Space := ⟨[], [⟨0, topAddress⟩]⟩

/-- `wine_rb_put`. -/
def insertView (view : View) : List View → List View
  | [] => [view]
  | first :: rest =>
    if view.base < first.base then view :: first :: rest else first :: insertView view rest

section Operations

variable (areas : List ReservedArea)

def Space.unregisterView (space : Space) (view : View) : Except Fault Space := do
  let ranges ← if mmapIsInReservedArea areas view.base view.size ≠ 0 then
    freeRangesRemoveView space.views space.ranges view else pure space.ranges
  return ⟨space.views.erase view, ranges⟩

def Space.registerView (space : Space) (view : View) : Except Fault Space := do
  let views := insertView view space.views
  let ranges ← if mmapIsInReservedArea areas view.base view.size ≠ 0 then
    freeRangesInsertView space.ranges view else pure space.ranges
  return ⟨views, ranges⟩

/-- Two views have a byte in common. -/
def View.overlaps (view other : View) : Bool :=
  view.base < other.base + other.size && other.base < view.base + view.size

def Space.createView (space : Space) (base size : Nat) : Except Fault Space :=
  if base &&& pageMask ≠ 0 ∨ size &&& pageMask ≠ 0 then .error .assertion
  else if space.views.any (View.overlaps ⟨base, size⟩) then .error .overlapping
  else space.registerView areas ⟨base, size⟩

def Space.deleteView (space : Space) (view : View) : Except Fault Space :=
  if view ∈ space.views then space.unregisterView areas view else .error .noView

/-- `remove_pages_from_view`, for pages of the view. -/
def Space.removePagesFromView (space : Space) (view : View) (base size : Nat) :
    Except Fault Space :=
  let stop := view.base + view.size
  if ¬(view ∈ space.views ∧ view.base ≤ base ∧ base + size ≤ stop) then .error .noView
  else if ¬size < view.size then .error .assertion
  else if view.base ≠ base ∧ base + size ≠ stop then do
    let space ← space.unregisterView areas view
    let space ← space.registerView areas ⟨view.base, base - view.base⟩
    space.registerView areas ⟨base + size, stop - (base + size)⟩
  else do
    let space ← space.unregisterView areas view
    if view.base = base then space.registerView areas ⟨base + size, view.size - size⟩
    else space.registerView areas ⟨view.base, base - view.base⟩

inductive Request
  | create (base size : Nat)
  | removePages (view : View) (base size : Nat)
  | delete (view : View)
deriving DecidableEq, Repr

def Space.step (space : Space) : Request → Except Fault Space
  | .create base size => space.createView areas base size
  | .removePages view base size => space.removePagesFromView areas view base size
  | .delete view => space.deleteView areas view

end Operations

end FreeWindows.Virtual
