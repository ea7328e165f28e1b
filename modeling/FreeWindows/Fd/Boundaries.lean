/-
**Empty, endless and one-byte locks.**

The end of a lock is exclusive, and 0 where it has none; for `set_unix_lock` a lock that ends where
it starts has no bytes.

* `lockOverlaps_iff`: `lock_overlaps` tells real conflicts, but takes the empty range at offset 0
  for an endless one; **`blocked_really_iff`** is `lock_fd` with it.
* **`freed_iff`**: `remove_fd_locks` compares its inclusive end as if it were exclusive, and so
  releases nothing when all locks lie in one byte.
-/

import FreeWindows.Fd.Locks

namespace FreeWindows.Fd

open List Inode UInt64

/-! ### Real conflicts -/

/-- The range is empty and lies strictly inside the other one. -/
def Range.Inside (range other : Range) : Prop :=
  range.start = range.stop ∧ other.start ≠ other.stop ∧ other.start < range.start ∧
    (other.stop = 0 ∨ range.start < other.stop)

/-- The ranges share a byte, or one is empty and inside the other. -/
def Range.Meets (a b : Range) : Prop :=
  (∃ byte, a.Holds byte ∧ b.Holds byte) ∨ a.Inside b ∨ b.Inside a

/-- The empty range at offset 0, which `lock_overlaps` takes for an endless one. -/
def Range.Null (range : Range) : Prop := range.start = 0 ∧ range.stop = 0

theorem lockOverlaps_iff (lock other : Range) :
    lockOverlaps lock other.start other.stop = true ↔ lock.Meets other ∨ lock.Null ∨ other.Null := by
  have := lock.ordered
  have := other.ordered
  simp only [lockOverlaps, decide_eq_true_eq, Range.Meets, Range.Inside, Range.Null, Range.Holds]
  constructor
  · intro overlaps
    by_cases proper : lock.start ≠ lock.stop ∧ other.start ≠ other.stop
    · -- the later start is in both
      exact .inl (.inl ⟨max lock.start other.start, by omega⟩)
    · omega
  · rintro ((⟨byte, _⟩ | _) | _) <;> omega

/-- The lock keeps a descriptor from a lock of this mode, wherever they overlap. -/
def FileLock.Opposes (lock : FileLock) (fd : Nat) (shared : Bool) : Prop :=
  ¬(shared = true ∧ (lock.shared = true ∨ lock.fd = fd))

/-- **Refused for a real conflict.** A request that a lock of the list blocks meets one that opposes
it, unless that lock or the request is the empty range at offset 0. A request whose end wraps has no
range, and is refused before the list is searched. -/
theorem blocked_really_iff (inode : Inode) (fcntl : Flock → Fcntl) (fd process : Nat)
    (start count : UInt64) (shared wait : Bool) (range : Range)
    (isStart : range.start = start.toNat) (isStop : range.stop = (start + count).toNat) :
    (∀ lock, inode.conflict fd shared range.start range.stop = some lock →
      inode.lockFd fcntl fd process start count shared wait =
          (inode, if wait then .wait lock.id else .error .fileLockConflict) ∧
        ∃ other ∈ inode.locks, other.Opposes fd shared ∧ other.range.Meets range) ↔
      ((∃ other ∈ inode.locks, other.Opposes fd shared ∧ (other.range.Null ∨ range.Null)) →
        ∃ other ∈ inode.locks, other.Opposes fd shared ∧ other.range.Meets range) := by
  have opposes : ∀ other : FileLock, (lockOverlaps other.range range.start range.stop = true ∧
      other.Opposes fd shared) ↔ other.Opposes fd shared ∧
        (other.range.Meets range ∨ other.range.Null ∨ range.Null) := fun other => by
    rw [lockOverlaps_iff, and_comm]
  constructor
  · rintro real ⟨other, member, against, null⟩
    have blocked : (inode.conflict fd shared range.start range.stop).isSome := by
      rw [conflict, find?_isSome]
      exact ⟨other, member, decide_eq_true ((opposes other).mpr ⟨against, .inr null⟩)⟩
    obtain ⟨lock, found⟩ := Option.isSome_iff_exists.mp blocked
    exact (real lock found).2
  · intro otherwise lock found
    refine ⟨?_, ?_⟩
    · have fits : ¬(start + count ≠ 0 ∧ start + count < start) := by
        have := range.ordered
        rw [ne_eq, ← UInt64.toNat_inj, UInt64.lt_iff_toNat_lt, UInt64.toNat_zero]
        omega
      rw [isStart, isStop] at found
      simp only [lockFd, dif_neg fits, found]
    · have blocks := find?_some found
      rw [decide_eq_true_eq] at blocks
      obtain ⟨against, meets | null⟩ := (opposes lock).mp blocks
      · exact ⟨lock, mem_of_find?_eq_some found, against, meets⟩
      · exact otherwise ⟨lock, mem_of_find?_eq_some found, against, null⟩

/-- An inode with a lock on byte 5. -/
def oneByte : Inode := ⟨[sharedLock 1 5 6 (by decide)], fun _ => true, .offT, 2⟩

theorem blocked_really_iff_oneByte :
    ∃ other ∈ oneByte.locks, other.Opposes 2 false ∧ other.range.Meets ⟨4, 7, by decide⟩ := by
  refine ((blocked_really_iff oneByte (fun _ => .done) 2 0 4 3 false true ⟨4, 7, by decide⟩ rfl rfl).mpr
    ?_ _ rfl).2
  exact fun _ => ⟨_, mem_singleton_self _, nofun, .inl ⟨5, by decide⟩⟩

/-- An empty lock at offset 0 is refused for it. -/
theorem nullLock_refused :
    (oneByte.lockFd (fun _ => .done) 2 0 0 0 false false).2 = .error .fileLockConflict ∧
      ¬∃ other ∈ oneByte.locks, other.range.Meets ⟨0, 0, by decide⟩ := by
  refine ⟨rfl, ?_⟩
  simp [oneByte, sharedLock, Range.Meets, Range.Holds, Range.Inside]

/-! ### The end of a file descriptor -/

open Inode (hull fdRange)

/-- How the folded range lies to the locks: around them, and no further. -/
structure Hulls (locks : List FileLock) (first last : UInt64) : Prop where
  lower : ∀ lock ∈ locks, first.toNat ≤ lock.range.start
  upper : ∀ lock ∈ locks, lock.range.stop ≤ last.toNat + 1 ∧
    (lock.range.stop = 0 → last.toNat + 1 = 2 ^ 64)
  starts : first.toNat + 1 = 2 ^ 64 ∨ ∃ lock ∈ locks, lock.range.start = first.toNat
  stops : last.toNat = 0 ∨ ∃ lock ∈ locks, lock.range.stop = 0 ∨ lock.range.stop = last.toNat + 1

/-- The range is one of 64-bit offsets. -/
def Range.Sized (range : Range) : Prop := range.start < 2 ^ 64 ∧ range.stop < 2 ^ 64

theorem hull_spec (locks : List FileLock) (sized : ∀ lock ∈ locks, lock.range.Sized) :
    Hulls locks (hull locks).1 (hull locks).2 := by
  induction locks using reverseRecOn with
  | nil => exact ⟨nofun, nofun, .inl rfl, .inl rfl⟩
  | append_singleton locks lock ih =>
    obtain ⟨before, start, stop⟩ := forall_mem_append.mp sized |>.imp_right (forall_mem_singleton.mp ·)
    obtain ⟨lower, upper, starts, stops⟩ := ih before
    have one : lock ∈ locks ++ [lock] := mem_append_right _ (mem_singleton_self _)
    have old : ∀ {other}, other ∈ locks → other ∈ locks ++ [lock] := mem_append_left _
    have isStart : (ofNat lock.range.start).toNat = lock.range.start :=
      toNat_ofNat_of_lt' start
    have isStop : (ofNat lock.range.stop).toNat = lock.range.stop :=
      toNat_ofNat_of_lt' stop
    rw [hull, foldl_append, ← hull]
    generalize hull locks = folded at *
    obtain ⟨first, last⟩ := folded
    dsimp only at lower upper starts stops
    simp only [foldl_cons, foldl_nil, UInt64.lt_iff_toNat_lt, ← UInt64.toNat_inj, gt_iff_lt,
      isStart, isStop, UInt64.toNat_zero]
    have bound := last.toNat_lt
    have first' : (if lock.range.start < first.toNat then ofNat lock.range.start else
        first).toNat = min lock.range.start first.toNat := by
      split <;> omega
    have last' : (if lock.range.stop = 0 ∨ last.toNat < lock.range.stop then
        ofNat lock.range.stop - 1 else last).toNat =
        if lock.range.stop = 0 then 2 ^ 64 - 1 else max (lock.range.stop - 1) last.toNat := by
      split
      · rw [UInt64.toNat_sub, UInt64.toNat_one]
        split <;> omega
      · split <;> omega
    refine ⟨?_, ?_, ?_, ?_⟩
    · rw [first', forall_mem_append, forall_mem_singleton]
      refine ⟨fun other member => ?_, Nat.min_le_left ..⟩
      exact Nat.le_trans (Nat.min_le_right ..) (lower other member)
    · rw [last', forall_mem_append, forall_mem_singleton]
      refine ⟨fun other member => ?_, by split <;> omega⟩
      have := upper other member
      split <;> omega
    · by_cases less : lock.range.start < first.toNat
      · exact .inr ⟨lock, one, by omega⟩
      · refine starts.imp (by omega) (Exists.imp fun other found => ⟨old found.1, by omega⟩)
    · rw [last']
      by_cases more : lock.range.stop = 0 ∨ last.toNat < lock.range.stop
      · exact .inr ⟨lock, one, by split <;> omega⟩
      · rw [if_neg (by omega)]
        refine stops.imp (by omega) (Exists.imp fun other found => ⟨old found.1, by omega⟩)

section Hull

variable {own : List FileLock} {first last : UInt64} (hulls : Hulls own first last)

include hulls

theorem Hulls.start_zero_iff : (∃ lock ∈ own, lock.range.start = 0) ↔ first.toNat = 0 := by
  constructor
  · rintro ⟨lock, member, zero⟩
    have := hulls.lower lock member
    omega
  · intro zero
    rcases hulls.starts with _ | ⟨lock, member, same⟩
    · omega
    · exact ⟨lock, member, same.trans zero⟩

theorem Hulls.endless_iff (sized : ∀ lock ∈ own, lock.range.Sized) :
    (∃ lock ∈ own, lock.range.stop = 0) ↔ last.toNat + 1 = 2 ^ 64 := by
  constructor
  · rintro ⟨lock, member, endless⟩
    exact (hulls.upper lock member).2 endless
  · intro whole
    rcases hulls.stops with _ | ⟨lock, member, endless | same⟩
    · omega
    · exact ⟨lock, member, endless⟩
    · have := (sized lock member).2
      omega

/-- The locks are not all in one byte that one of them holds. -/
theorem Hulls.wide_iff {byte : Nat} (lower : first.toNat ≤ byte) (upper : byte ≤ last.toNat) :
    (∃ lock ∈ own, lock.range.start < byte ∨
      byte + 1 < if lock.range.stop = 0 then 2 ^ 64 else lock.range.stop) ↔ first < last := by
  have bound := last.toNat_lt
  rw [lt_iff_toNat_lt]
  constructor
  · rintro ⟨lock, member, wide⟩
    have := hulls.lower lock member
    have := hulls.upper lock member
    split at wide <;> omega
  · intro wide
    by_cases less : first.toNat < byte
    · rcases hulls.starts with _ | ⟨lock, member, _⟩
      · omega
      · exact ⟨lock, member, .inl (by omega)⟩
    · rcases hulls.stops with _ | ⟨lock, member, _⟩
      · omega
      · exact ⟨lock, member, .inr (by split <;> omega)⟩

end Hull

/-- **What is unlocked when a descriptor goes away**, where `remove_unix_locks` clears what the locks
that are left do not hold: all of it, unless the locks of the descriptor lie in one byte, or reach from
the first offset to no end. -/
theorem freed_iff (inode : Inode) (fd : Nat) (left : List FileLock) (unlocked : Range → Nat → Prop)
    (exact : ∀ range byte,
      unlocked range byte ↔ range.Holds byte ∧ ∀ lock ∈ left, ¬lock.range.Holds byte)
    (sized : ∀ lock ∈ inode.ownLocks fd, lock.range.Sized) :
    (∀ byte < 2 ^ 64, (∃ lock ∈ inode.ownLocks fd, lock.range.Holds byte) →
      (∀ lock ∈ left, ¬lock.range.Holds byte) →
        ∃ range ∈ fdRange (inode.ownLocks fd), unlocked range byte) ↔
      ∀ byte < 2 ^ 64, (∃ lock ∈ inode.ownLocks fd, lock.range.Holds byte) →
        (∀ lock ∈ left, ¬lock.range.Holds byte) →
          (∃ lock ∈ inode.ownLocks fd, lock.range.start < byte ∨
            byte + 1 < if lock.range.stop = 0 then 2 ^ 64 else lock.range.stop) ∧
          ¬((∃ lock ∈ inode.ownLocks fd, lock.range.start = 0) ∧
            ∃ lock ∈ inode.ownLocks fd, lock.range.stop = 0) := by
  have hulls := hull_spec _ sized
  generalize inode.ownLocks fd = own at *
  refine forall₄_congr fun byte small held free => ?_
  -- the byte is in the folded range
  obtain ⟨lock, member, _, atLeast, before⟩ := held
  have lower := hulls.lower lock member
  have upper := hulls.upper lock member
  rw [hulls.wide_iff (by omega) (by omega), hulls.start_zero_iff, hulls.endless_iff sized, fdRange]
  split
  · next proper =>
    have stop := UInt64.toNat_add (hull own).2 1
    have bound := (hull own).2.toNat_lt
    rw [toNat_one] at stop
    simp only [Option.mem_some_iff, exists_eq_left', exact, and_iff_left free, proper, true_and]
    unfold Range.Holds
    dsimp only
    omega
  · next narrow => exact iff_of_false (by simp) fun both => narrow both.1

theorem freed_iff_threeBytes :
    ∃ range ∈ fdRange [sharedLock 1 5 8 (by decide)],
      range.Holds 6 ∧ ∀ lock ∈ ([] : List FileLock), ¬lock.range.Holds 6 := by
  refine (freed_iff ⟨[sharedLock 1 5 8 (by decide)], fun _ => true, .offT, 2⟩ 1 [] _
    (fun _ _ => Iff.rfl) ?_).mpr ?_ 6 (by decide) (by decide) nofun
  · simp [ownLocks, sharedLock, Range.Sized]
  · simp only [ownLocks, sharedLock, Range.Holds]
    simp
    omega

/-- The lock on a single byte is gone from the list, and nothing is released. -/
theorem oneByte_stays :
    (oneByte.removeFdLocks (fun _ => .done) 1).toOption.map Inode.locks = some [] ∧
      (∃ lock ∈ oneByte.ownLocks 1, lock.range.Holds 5) ∧ fdRange (oneByte.ownLocks 1) = none := by
  decide

end FreeWindows.Fd
