/-
**File locks of the wine server.**

`server/fd.c`: the locks that processes hold on the bytes of a file are kept in one list for each
inode. Every lock is also set as a Unix lock, which other programs see. Since Unix locks of one process
do not count how often a byte is locked, `remove_unix_locks` has to find out which bytes of a released
range no other lock covers: it keeps the holes between the remaining locks in a doubly linked list,
in memory that is allocated for all of them.

Positions are 64-bit numbers. The end of a range is the first byte behind it, and 0 stands for no end.
The answers of the kernel to `fcntl` are an argument. The lists of locks of a file descriptor and of a
process hold the locks of the inode's list that belong to it, in the same order.
-/

import FreeWindows.Lib.Chain
import FreeWindows.Lib.Run

namespace FreeWindows.Fd

open Lib

/-- Ways in which the server process goes wrong. -/
inductive Fault
  | assertion
  | outOfBounds
  /-- no error of the server: a list did not end in the rounds that the model allows -/
  | endless
deriving DecidableEq, Repr

inductive Status
  | invalidParameter
  | fileLockConflict
  | accessDenied
  | pending
  /-- the status for another error of `fcntl` -/
  | fileError
deriving DecidableEq, Repr

/-! ### Ranges and locks -/

/-- A range of bytes that does not wrap. -/
structure Range where
  start : Nat
  stop : Nat
  ordered : stop = 0 ∨ start ≤ stop
deriving DecidableEq, Repr

/-- The byte belongs to the range. If start and end are the same, there is none. -/
def Range.Holds (range : Range) (byte : Nat) : Prop :=
  range.start ≠ range.stop ∧ range.start ≤ byte ∧ (range.stop = 0 ∨ byte < range.stop)

instance (range : Range) (byte : Nat) : Decidable (range.Holds byte) :=
  inferInstanceAs (Decidable (_ ∧ _ ∧ _))

/-- `struct file_lock`. -/
structure FileLock where
  id : Nat
  shared : Bool
  range : Range
  fd : Nat
  process : Nat
deriving DecidableEq, Repr

def lockOverlaps (lock : Range) (start stop : Nat) : Bool :=
  ¬(lock.stop ≠ 0 ∧ start ≥ lock.stop) ∧ ¬(stop ≠ 0 ∧ lock.start ≥ stop)

/-! ### Unix locks -/

/-- `max_unix_offset`: `OFF_T_MAX`, or `INT_MAX` once the kernel has refused a larger one. -/
inductive OffsetLimit
  | offT
  | int
deriving DecidableEq, Repr

def OffsetLimit.value : OffsetLimit → Nat
  | .offT => 2 ^ 63 - 1
  | .int => 2 ^ 31 - 1

inductive LockType
  | rdlck
  | wrlck
  | unlck
deriving DecidableEq, Repr

/-- `struct flock`, from the start of the file. -/
structure Flock where
  type : LockType
  start : Nat
  len : Int
deriving DecidableEq, Repr

/-- The bytes of a `struct flock`: the length 0 stands for all bytes from the start on, and a negative
one for those in front of it. -/
def Flock.Holds (fl : Flock) (byte : Nat) : Prop :=
  if fl.len = 0 then fl.start ≤ byte
  else if 0 < fl.len then fl.start ≤ byte ∧ (byte : Int) < fl.start + fl.len
  else fl.start + fl.len ≤ (byte : Int) ∧ byte < fl.start

/-- The result of `fcntl` with `F_SETLK`. -/
inductive Fcntl
  | done
  /-- `EACCES`, and whether `F_GETLK` works -/
  | acces (getlk : Bool)
  /-- `EIO`, `ENOLCK` and `ENOTSUP` -/
  | noLocks
  | again
  | badf
  /-- `EINVAL` and `EOVERFLOW` -/
  | invalid
  | other
deriving DecidableEq, Repr

/-- `fs_locks` of a file descriptor, and `max_unix_offset`. -/
structure Unix where
  fsLocks : Bool
  limit : OffsetLimit
deriving DecidableEq, Repr

/-- `set_unix_lock`: an error, and the locks that the kernel has set. -/
def setUnixLock (fcntl : Flock → Fcntl) (unix : Unix) (start stop : Nat) (type : LockType) :
    Option Status × Unix × List Flock :=
  if ¬unix.fsLocks then (none, unix, [])
  else if start = stop then (none, unix, [])
  else if start > unix.limit.value then (none, unix, [])
  else
    let fl : Flock :=
      ⟨type, start, if stop = 0 ∨ stop > unix.limit.value then 0 else (stop : Int) - start⟩
    match fcntl fl with
    | .done => (none, unix, [fl])
    | .acces true => (some .fileLockConflict, unix, [])
    | .acces false => (none, { unix with fsLocks := false }, [])
    | .noLocks => (none, { unix with fsLocks := false }, [])
    | .again => (some .fileLockConflict, unix, [])
    | .badf =>
      if _ : type = .wrlck then setUnixLock fcntl unix start stop .rdlck
      else (some .accessDenied, unix, [])
    | .invalid =>
      if _ : unix.limit = .offT then setUnixLock fcntl { unix with limit := .int } start stop type
      else (some .fileError, unix, [])
    | .other => (some .fileError, unix, [])
termination_by (if type = .wrlck then 1 else 0) + (if unix.limit = .offT then 1 else 0)
decreasing_by all_goals simp_all

/-! ### Holes -/

/-- A hole between locks; it is not empty as long as it is in the list. -/
structure Hole where
  start : Nat
  stop : Nat
deriving DecidableEq, Repr

/-- The list of holes, in a buffer of `size` nodes of which `next` are used. -/
structure Holes where
  arena : Arena Hole
  next : Nat
  size : Nat

/-- The loop of `remove_unix_locks` for one lock: the holes from `cur` on, and whether there are no
more holes at all. -/
def carve (lock : Range) : (rounds : Nat) → Holes → (cur : Option Nat) → Except Fault (Holes × Bool)
  | _, holes, none => .ok (holes, false)
  | 0, _, some _ => .error .endless
  | rounds + 1, holes, some cur =>
    let hole := (holes.arena.node cur).data
    if hole.stop ≤ lock.start then carve lock rounds holes (holes.arena.node cur).next
    else if lock.stop ≠ 0 ∧ hole.start ≥ lock.stop then .ok (holes, false)
    else if hole.start ≥ lock.start then
      -- the lock starts before the hole
      let arena := holes.arena.setData cur { hole with start := lock.stop }
      if lock.stop ≠ 0 ∧ lock.stop < hole.stop then .ok ({ holes with arena }, false)
      else
        let arena := arena.unlink cur
        if (arena.node cur).prev = none ∧ arena.first = none then .ok ({ holes with arena }, true)
        else carve lock rounds { holes with arena } (arena.node cur).next
    else if lock.stop = 0 ∨ hole.stop ≤ lock.stop then
      -- the lock ends behind the hole
      let arena := holes.arena.setData cur { hole with stop := lock.start }
      if ¬hole.start < lock.start then .error .assertion
      else carve lock rounds { holes with arena } (arena.node cur).next
    else if holes.size ≤ holes.next then .error .outOfBounds
    else if ¬lock.stop < hole.stop ∨ ¬lock.start < lock.stop then .error .assertion
    else
      -- the lock is in the middle of the hole
      let arena := (holes.arena.setData cur { hole with stop := lock.start }).insertAfter cur holes.next
        ⟨lock.stop, hole.stop⟩
      .ok ({ holes with arena, next := holes.next + 1 }, false)

/-- The loop over all locks that overlap the range; it is left when there are no more holes. -/
def carveAll (rounds : Nat) : Holes → List Range → Except Fault Holes
  | holes, [] => .ok holes
  | holes, lock :: locks => do
    let (holes, empty) ← carve lock rounds holes holes.arena.first
    if empty then return holes else carveAll rounds holes locks

/-- The holes in the list, from `cur` on. -/
def walk (holes : Holes) : (rounds : Nat) → (cur : Option Nat) → Except Fault (List Hole)
  | _, none => .ok []
  | 0, some _ => .error .endless
  | rounds + 1, some cur => do
    let rest ← walk holes rounds (holes.arena.node cur).next
    return (holes.arena.node cur).data :: rest

/-- Unlocks one hole after the other. -/
def unlockHoles (fcntl : Flock → Fcntl) : Unix → List Hole → Unix × List Flock
  | unix, [] => (unix, [])
  | unix, hole :: holes =>
    let (_, unix, calls) := setUnixLock fcntl unix hole.start hole.stop .unlck
    let (unix, more) := unlockHoles fcntl unix holes
    (unix, calls ++ more)

/-- The locks of the list that overlap the range. -/
def overlapping (locks : List FileLock) (start stop : Nat) : List Range :=
  (locks.map FileLock.range).filter fun lock => lock.start ≠ lock.stop ∧ lockOverlaps lock start stop

/-- The end of a released range, up to `max_unix_offset`. -/
def clip (limit : OffsetLimit) (stop : Nat) : Nat :=
  if stop = 0 ∨ stop > limit.value then limit.value + 1 else stop

/-- One hole for all of the range. -/
def Holes.initial (start stop size : Nat) : Holes where
  arena := { node := fun _ => ⟨none, none, ⟨start, stop⟩⟩, first := some 0 }
  next := 1
  size := size

/-- `remove_unix_locks`: the state of the Unix locks, and the calls that the kernel has carried out. -/
def removeUnixLocks (fcntl : Flock → Fcntl) (unix : Unix) (locks : List FileLock) (range : Range) :
    Except Fault (Unix × List Flock) :=
  if ¬unix.fsLocks then .ok (unix, [])
  else if range.start = range.stop ∨ range.start > unix.limit.value then .ok (unix, [])
  else
    let stop := clip unix.limit range.stop
    match overlapping locks range.start stop with
    | [] => .ok (unlockHoles fcntl unix [⟨range.start, stop⟩])
    | found => do
      let rounds := found.length + 1
      let holes ← carveAll rounds (Holes.initial range.start stop (found.length + 1)) found
      let left ← walk holes rounds holes.arena.first
      return unlockHoles fcntl unix left

end FreeWindows.Fd
