/-
**Locks that conflict.**

`lock_fd` adds a lock to the list of an inode if no lock in it conflicts, and asks the kernel; the other
requests take locks out: `unlock_fd`, the end of a file descriptor and the end of a process. What
holds of any two locks in the list is `Compatible`, in the order in which they were acquired, and
every request keeps it (`Changes.consistent`): a lock is only added behind locks it is compatible with,
and otherwise the list becomes a part of itself (`step_changes`).

`remove_unix_locks` can lose track of holes, but it always ends, inside its buffer and without a failed
assertion (`removeUnixLocks_total`): all links forward go up in one order of the holes, and all links
back go down in it. So every request is answered.
-/

import FreeWindows.Fd.Holes

namespace FreeWindows.Fd

open Lib List

/-! ### The list of holes ends -/

/-- A lock was carved out of the holes, which still lead in one direction. -/
def CarvedOut (holes : Holes) (outcome : Except Fault (Holes × Bool)) : Prop :=
  ∃ holes' empty rank, outcome = .ok (holes', empty) ∧ Directed holes'.arena holes'.next rank ∧
    holes'.next ≤ holes.next + 1 ∧ holes'.size = holes.size

variable {holes : Holes} {rank : Nat → Nat}

theorem carvedOut_arena {arena : Arena Hole} (empty : Bool)
    (directed : Directed arena holes.next rank) : CarvedOut holes (.ok ({ holes with arena }, empty)) :=
  ⟨_, empty, rank, rfl, directed, Nat.le_succ _, rfl⟩

/-- **One lock.** No assertion fails, there is room for one more hole, and the list ends. -/
theorem carve_total (lock : Range) (nonempty : lock.start ≠ lock.stop) (rounds : Nat) (holes : Holes)
    (cur : Option Nat) (directed : Directed holes.arena holes.next rank)
    (room : holes.next < holes.size) (below : ∀ i, cur = some i → i < holes.next)
    (enough : ∀ i, cur = some i → holes.next ≤ rounds + rank i) :
    CarvedOut holes (carve lock rounds holes cur) := by
  have ordered := lock.ordered
  -- the ranks go up along the loop, and there are no more of them than nodes
  have further : ∀ {arena : Arena Hole} {count rounds cur : Nat}, Directed arena count rank →
      count ≤ rounds + 1 + rank cur → (∀ i, (arena.node cur).next = some i → i < count) ∧
        ∀ i, (arena.node cur).next = some i → count ≤ rounds + rank i := by
    intro arena count rounds cur directed enough
    refine ⟨fun i link => (directed.next cur i link).1, fun i link => ?_⟩
    have := (directed.next cur i link).2
    omega
  fun_induction carve lock rounds holes cur with
  | case1 rounds holes => exact carvedOut_arena _ directed
  | case2 holes cur =>
    have := enough cur rfl
    have := directed.bound cur (below cur rfl)
    omega
  | case3 rounds holes cur hole before ih =>
    obtain ⟨below, enough⟩ := further directed (enough cur rfl)
    exact ih directed room below enough
  | case4 rounds holes cur hole => exact carvedOut_arena _ directed
  | case5 rounds holes cur hole notBefore notBehind fromStart arena =>
    exact carvedOut_arena _ (directed.setData cur _)
  | case6 rounds holes cur hole notBefore notBehind fromStart arena =>
    exact carvedOut_arena _ ((directed.setData cur _).unlink cur)
  | case7 rounds holes cur hole notBefore notBehind fromStart data whole arena notEmpty ih =>
    have still := (directed.setData cur { hole with start := lock.stop }).unlink cur
    obtain ⟨below, enough⟩ := further still (enough cur rfl)
    exact ih still room below enough
  | case8 => omega
  | case9 rounds holes cur hole notBefore notBehind notStart toEnd arena proper ih =>
    have still := directed.setData cur { hole with stop := lock.start }
    obtain ⟨below, enough⟩ := further still (enough cur rfl)
    exact ih still room below enough
  | case10 => omega
  | case11 => omega
  | case12 rounds holes cur hole =>
    refine ⟨_, _, _, rfl, (directed.setData cur _).insertAfter (below cur rfl) _, ?_, rfl⟩
    exact Nat.le_refl _

theorem carveAll_total {rounds : Nat} {locks : List Range}
    (nonempty : ∀ lock ∈ locks, lock.start ≠ lock.stop)
    (directed : Directed holes.arena holes.next rank) (room : holes.next + locks.length ≤ holes.size)
    (enough : holes.size ≤ rounds) :
    ∃ holes' rank', carveAll rounds holes locks = .ok holes' ∧
      Directed holes'.arena holes'.next rank' ∧ holes'.next ≤ holes.size := by
  induction locks generalizing holes rank with
  | nil => exact ⟨holes, rank, rfl, directed, room⟩
  | cons lock locks ih =>
    rw [length_cons] at room
    obtain ⟨proper, others⟩ := forall_mem_cons.mp nonempty
    obtain ⟨mid, empty, rank', carved, still, grows, size⟩ := carve_total lock proper rounds holes
      holes.arena.first directed (by omega) directed.first fun _ _ => by omega
    unfold carveAll
    rw [carved]
    cases empty with
    | true => exact ⟨mid, rank', rfl, still, by omega⟩
    | false =>
      obtain ⟨last, rank'', rest, directs, bound⟩ := ih others still (by omega) (by omega)
      exact ⟨last, rank'', rest, directs, size ▸ bound⟩

theorem walk_total (directed : Directed holes.arena holes.next rank) (rounds : Nat) (cur : Option Nat)
    (below : ∀ i, cur = some i → i < holes.next)
    (enough : ∀ i, cur = some i → holes.next ≤ rounds + rank i) :
    ∃ left, walk holes rounds cur = .ok left := by
  fun_induction walk holes rounds cur with
  | case1 => exact ⟨[], rfl⟩
  | case2 cur =>
    have := enough cur rfl
    have := directed.bound cur (below cur rfl)
    omega
  | case3 rounds cur ih =>
    have here := enough cur rfl
    obtain ⟨left, rest⟩ := ih (fun i link => (directed.next cur i link).1) fun i link => by
      have := (directed.next cur i link).2
      omega
    exact ⟨_, by rw [rest]; rfl⟩

/-- **`remove_unix_locks` always ends**, without a failed assertion and inside its buffer. -/
theorem removeUnixLocks_total (fcntl : Flock → Fcntl) (unix : Unix) (locks : List FileLock)
    (range : Range) : ∃ result, removeUnixLocks fcntl unix locks range = .ok result := by
  unfold removeUnixLocks
  split
  · exact ⟨_, rfl⟩
  split
  · exact ⟨_, rfl⟩
  dsimp only
  split
  · exact ⟨_, rfl⟩
  next =>
    have nonempty := @overlapping_nonempty range.start (clip unix.limit range.stop) locks
    generalize overlapping locks range.start (clip unix.limit range.stop) = found at *
    obtain ⟨holes, rank, carved, directed, bound⟩ := carveAll_total nonempty
      (show Directed
        (Holes.initial range.start (clip unix.limit range.stop) (found.length + 1)).arena 1 fun _ => 0 from
        ⟨fun i => by rintro ⟨⟩; exact Nat.one_pos, nofun, nofun, fun _ _ => Nat.one_pos⟩)
      (Nat.le_of_eq (Nat.add_comm 1 _)) (Nat.le_refl (found.length + 1))
    obtain ⟨left, walked⟩ := walk_total directed (found.length + 1) holes.arena.first directed.first
      fun _ _ => Nat.le_trans bound (Nat.le_add_right _ _)
    exact ⟨unlockHoles fcntl unix left,
      bind_eq_ok.mpr ⟨holes, carved, bind_eq_ok.mpr ⟨left, walked, rfl⟩⟩⟩

/-! ### Requests -/

/-- An inode with its locks, and the state of the Unix locks. -/
structure Inode where
  locks : List FileLock
  fsLocks : Nat → Bool
  limit : OffsetLimit
  nextLock : Nat

/-- What `lock_fd` tells the client. -/
inductive Reply
  | locked
  /-- wait for a lock of the list -/
  | wait (lock : Nat)
  /-- `STATUS_PENDING` without a handle -/
  | retry
  | error (status : Status)
deriving DecidableEq, Repr

namespace Inode

variable (inode : Inode) (fcntl : Flock → Fcntl)

def unix (fd : Nat) : Unix := ⟨inode.fsLocks fd, inode.limit⟩

def setUnix (fd : Nat) (unix : Unix) : Inode :=
  { inode with
    fsLocks := fun other => if other = fd then unix.fsLocks else inode.fsLocks other
    limit := unix.limit }

def addLock (fd process : Nat) (shared : Bool) (range : Range) : Inode × Option Status :=
  let (status, unix, _) := setUnixLock fcntl (inode.unix fd) range.start range.stop
    (if shared then .rdlck else .wrlck)
  let inode := inode.setUnix fd unix
  match status with
  | some status => (inode, some status)
  | none =>
    ({ inode with
      locks := inode.locks ++ [⟨inode.nextLock, shared, range, fd, process⟩]
      nextLock := inode.nextLock + 1 }, none)

/-- The lock of the list that keeps another one from being set. -/
def conflict (fd : Nat) (shared : Bool) (start stop : Nat) : Option FileLock :=
  inode.locks.find? fun lock =>
    lockOverlaps lock.range start stop ∧ ¬(shared ∧ (lock.shared ∨ lock.fd = fd))

def lockFd (fd process : Nat) (start count : UInt64) (shared wait : Bool) : Inode × Reply :=
  let stop := start + count
  if wraps : stop ≠ 0 ∧ stop < start then (inode, .error .invalidParameter)
  else
    match inode.conflict fd shared start.toNat stop.toNat with
    | some lock => (inode, if wait then .wait lock.id else .error .fileLockConflict)
    | none =>
      let range : Range := ⟨start.toNat, stop.toNat, by
        simp only [ne_eq, ← UInt64.toNat_inj, UInt64.lt_iff_toNat_lt, UInt64.toNat_zero] at wraps
        omega⟩
      match inode.addLock fcntl fd process shared range with
      | (inode, none) => (inode, .locked)
      | (inode, some status) =>
        (inode, if status = .fileLockConflict ∧ wait then .retry else .error status)

def removeLock (lock : FileLock) (removeUnix : Bool) : Except Fault Inode :=
  let inode := { inode with locks := inode.locks.erase lock }
  if removeUnix then do
    let (unix, _) ← removeUnixLocks fcntl (inode.unix lock.fd) inode.locks lock.range
    return inode.setUnix lock.fd unix
  else .ok inode

/-- `remove_process_locks`, for the locks of this inode. -/
def removeProcessLocks (process : Nat) : Except Fault Inode :=
  (inode.locks.filter fun lock => lock.process = process).foldlM
    (fun inode lock => inode.removeLock fcntl lock true) inode

def filePosMax : UInt64 := 0xffffffffffffffff

/-- The first and the last byte of some locks, as `remove_fd_locks` computes them. -/
def hull (locks : List FileLock) : UInt64 × UInt64 :=
  locks.foldl
    (fun (start, stop) lock =>
      let lockStart := UInt64.ofNat lock.range.start
      let lockStop := UInt64.ofNat lock.range.stop
      (if lockStart < start then lockStart else start,
        if lockStop = 0 ∨ lockStop > stop then lockStop - 1 else stop))
    (filePosMax, 0)

/-- The range that `remove_fd_locks` passes to `remove_unix_locks`. -/
def fdRange (locks : List FileLock) : Option Range :=
  if nonempty : (hull locks).1 < (hull locks).2 then
    some ⟨(hull locks).1.toNat, ((hull locks).2 + 1).toNat, by
      rw [UInt64.lt_iff_toNat_lt] at nonempty
      have := (hull locks).2.toNat_lt
      rw [UInt64.toNat_add, UInt64.toNat_one]
      omega⟩
  else none

/-- The locks that `remove_fd_locks` removes. -/
def ownLocks (fd : Nat) : List FileLock := inode.locks.filter fun lock => lock.fd = fd

def removeFdLocks (fd : Nat) : Except Fault Inode := do
  let own := inode.ownLocks fd
  let inode ← own.foldlM (fun inode lock => inode.removeLock fcntl lock false) inode
  match fdRange own with
  | some range => do
    let (unix, _) ← removeUnixLocks fcntl (inode.unix fd) inode.locks range
    return inode.setUnix fd unix
  | none => .ok inode

def unlockFd (fd : Nat) (start count : UInt64) : Except Fault (Inode × Option Status) :=
  let stop := start + count
  match (inode.locks.filter fun lock => lock.fd = fd).find? fun lock =>
      lock.range.start = start.toNat ∧ lock.range.stop = stop.toNat with
  | some lock => (inode.removeLock fcntl lock true).map (·, none)
  | none => .ok (inode, some .fileLockConflict)

end Inode

inductive Request
  | lock (fd process : Nat) (start count : UInt64) (shared wait : Bool)
  | unlock (fd : Nat) (start count : UInt64)
  | close (fd : Nat)
  | exit (process : Nat)

/-- A request, with the answers that the kernel gives meanwhile. -/
structure Action where
  request : Request
  fcntl : Flock → Fcntl

/-- The inode after a request. -/
def Inode.step (inode : Inode) (action : Action) : Except Fault Inode :=
  match action.request with
  | .lock fd process start count shared wait =>
    .ok (inode.lockFd action.fcntl fd process start count shared wait).1
  | .unlock fd start count => (inode.unlockFd action.fcntl fd start count).map Prod.fst
  | .close fd => inode.removeFdLocks action.fcntl fd
  | .exit process => inode.removeProcessLocks action.fcntl process

/-- An inode without locks. -/
def Inode.initial (fsLocks : Nat → Bool) (limit : OffsetLimit) : Inode := ⟨[], fsLocks, limit, 0⟩

/-! ### What a request does to the list -/

/-- The byte is in the range, the end of which stands for `2 ^ 64` if it is 0. -/
def Range.Covers (range : Range) (byte : Nat) : Prop :=
  range.start ≤ byte ∧ byte < if range.stop = 0 then 2 ^ 64 else range.stop

/-- The locks have a byte in common. -/
def Shares (a b : FileLock) : Prop := ∃ byte, a.range.Covers byte ∧ b.range.Covers byte

/-- Two locks can be held at once, the second one acquired after the first. -/
def Compatible (earlier later : FileLock) : Prop :=
  Shares earlier later → earlier.shared = true ∧ later.shared = true ∨
    earlier.fd = later.fd ∧ later.shared = true

/-- A lock was added that is compatible with all others, or some were taken out. -/
def Changes (before after : Inode) : Prop :=
  (∃ lock, after.locks = before.locks ++ [lock] ∧ lock.id = before.nextLock ∧
    after.nextLock = before.nextLock + 1 ∧ ∀ earlier ∈ before.locks, Compatible earlier lock) ∨
  after.locks.Sublist before.locks ∧ after.nextLock = before.nextLock

section Steps

variable {inode inode' : Inode} {fcntl : Flock → Fcntl}

theorem lockOverlaps_of_covers {lock other : Range} {byte : Nat} (held : lock.Covers byte)
    (also : other.Covers byte) : lockOverlaps lock other.start other.stop = true := by
  obtain ⟨lower, upper⟩ := held
  obtain ⟨otherLower, otherUpper⟩ := also
  rw [lockOverlaps, decide_eq_true_eq]
  refine ⟨fun behind => ?_, fun before => ?_⟩
  · rw [if_neg behind.1] at upper
    omega
  · rw [if_neg before.1] at otherUpper
    omega

variable {fd process : Nat} {range : Range} {shared : Bool}

/-- **A lock without a conflict** is compatible with the others. -/
theorem compatible_of_conflict {id : Nat}
    (free : inode.conflict fd shared range.start range.stop = none) :
    ∀ earlier ∈ inode.locks, Compatible earlier ⟨id, shared, range, fd, process⟩ := by
  rintro earlier member ⟨byte, held, also⟩
  have overlaps := lockOverlaps_of_covers held also
  have passes := find?_eq_none.mp free earlier member
  simp only [overlaps, true_and, decide_eq_true_eq, not_not] at passes
  obtain ⟨isShared, other⟩ := passes
  exact other.imp (fun both => ⟨both, isShared⟩) fun same => ⟨same, isShared⟩

theorem addLock_changes (free : inode.conflict fd shared range.start range.stop = none) :
    Changes inode (inode.addLock fcntl fd process shared range).1 := by
  unfold Inode.addLock
  dsimp only
  split
  · exact .inr ⟨.refl _, rfl⟩
  · exact .inl ⟨_, rfl, rfl, rfl, compatible_of_conflict free⟩

section Requests

variable (inode : Inode) (fcntl : Flock → Fcntl)

/-- Locks were taken out, at most. -/
def Drops (before : Inode) (outcome : Except Fault Inode) : Prop :=
  ∃ after, outcome = .ok after ∧ after.locks.Sublist before.locks ∧ after.nextLock = before.nextLock

/-- **`remove_lock` takes out a lock.** -/
theorem removeLock_drops (lock : FileLock) (removeUnix : Bool) :
    Drops inode (inode.removeLock fcntl lock removeUnix) := by
  unfold Inode.removeLock
  dsimp only
  split
  · obtain ⟨⟨unix, calls⟩, removed⟩ := removeUnixLocks_total fcntl
      (Inode.unix { inode with locks := inode.locks.erase lock } lock.fd) (inode.locks.erase lock)
      lock.range
    rw [removed]
    exact ⟨_, rfl, erase_sublist, rfl⟩
  · exact ⟨_, rfl, erase_sublist, rfl⟩

/-- Several locks, one after the other. -/
theorem removeLocks_drops (removeUnix : Bool) (locks : List FileLock) :
    Drops inode (locks.foldlM (fun inode lock => inode.removeLock fcntl lock removeUnix) inode) := by
  induction locks generalizing inode with
  | nil => exact ⟨inode, rfl, .refl _, rfl⟩
  | cons lock rest ih =>
    obtain ⟨mid, first, part, count⟩ := removeLock_drops inode fcntl lock removeUnix
    obtain ⟨after, later, partLater, countLater⟩ := ih mid
    refine ⟨after, ?_, partLater.trans part, countLater.trans count⟩
    exact bind_eq_ok.mpr ⟨mid, first, later⟩

theorem removeFdLocks_drops (fd : Nat) : Drops inode (inode.removeFdLocks fcntl fd) := by
  obtain ⟨mid, removed, part, count⟩ := removeLocks_drops inode fcntl false
    (inode.ownLocks fd)
  unfold Inode.removeFdLocks
  dsimp only
  rw [removed]
  cases Inode.fdRange (inode.ownLocks fd) with
  | none => exact ⟨mid, rfl, part, count⟩
  | some range =>
    obtain ⟨⟨unix, calls⟩, unlocked⟩ := removeUnixLocks_total fcntl (mid.unix fd) mid.locks range
    refine ⟨mid.setUnix fd unix, ?_, part, count⟩
    exact bind_eq_ok.mpr ⟨mid, rfl, bind_eq_ok.mpr ⟨_, unlocked, rfl⟩⟩

end Requests

/-- **Every request is answered**, and adds a lock or takes out locks. -/
theorem step_changes (inode : Inode) (action : Action) :
    ∃ inode', inode.step action = .ok inode' ∧ Changes inode inode' := by
  have dropped : ∀ {outcome}, Drops inode outcome →
      ∃ inode', outcome = .ok inode' ∧ Changes inode inode' := by
    rintro _ ⟨after, done, part, count⟩
    exact ⟨after, done, .inr ⟨part, count⟩⟩
  unfold Inode.step
  cases action.request with
  | lock fd process start count shared wait =>
    refine ⟨_, rfl, ?_⟩
    unfold Inode.lockFd
    dsimp only
    split
    · exact .inr ⟨.refl _, rfl⟩
    split
    · exact .inr ⟨.refl _, rfl⟩
    next free =>
      split
      next added => exact congrArg Prod.fst added ▸ addLock_changes free
      next added => exact congrArg Prod.fst added ▸ addLock_changes free
  | unlock fd start count =>
    refine dropped ?_
    unfold Inode.unlockFd
    dsimp only
    split
    next lock _ =>
      obtain ⟨after, removed, drops⟩ := removeLock_drops inode action.fcntl lock true
      rw [removed]
      exact ⟨after, rfl, drops⟩
    next => exact ⟨inode, rfl, .refl _, rfl⟩
  | close fd => exact dropped (removeFdLocks_drops inode action.fcntl fd)
  | exit process => exact dropped (removeLocks_drops inode action.fcntl true _)

end Steps

/-! ### Runs -/

/-- The locks are in the order in which they were acquired, and compatible. -/
structure Inode.Consistent (inode : Inode) : Prop where
  ordered : inode.locks.Pairwise fun earlier later => earlier.id < later.id
  compatible : inode.locks.Pairwise Compatible
  acquired : ∀ lock ∈ inode.locks, lock.id < inode.nextLock

variable {inode : Inode}

theorem Changes.consistent {inode' : Inode} (changes : Changes inode inode')
    (consistent : inode.Consistent) : inode'.Consistent := by
  obtain ⟨lock, locks, id, next, free⟩ | ⟨part, next⟩ := changes
  · refine ⟨?_, ?_, ?_⟩
    · rw [locks]
      refine pairwise_append.mpr ⟨consistent.ordered, pairwise_singleton _ _, ?_⟩
      intro earlier member later isLater
      rw [mem_singleton.mp isLater, id]
      exact consistent.acquired earlier member
    · rw [locks]
      refine pairwise_append.mpr ⟨consistent.compatible, pairwise_singleton _ _, ?_⟩
      intro earlier member later isLater
      rw [mem_singleton.mp isLater]
      exact free earlier member
    · intro other member
      rw [locks, mem_append, mem_singleton] at member
      rw [next]
      obtain old | rfl := member
      · exact Nat.lt_succ_of_lt (consistent.acquired other old)
      · exact id ▸ Nat.lt_succ_self _
  · exact ⟨consistent.ordered.sublist part, consistent.compatible.sublist part,
      fun lock member => next ▸ consistent.acquired lock (part.subset member)⟩

/-- Of two locks, the one with the smaller number is in front. -/
theorem Inode.Consistent.compatible_of_lt (consistent : inode.Consistent) {earlier later : FileLock}
    (earlierHeld : earlier ∈ inode.locks) (laterHeld : later ∈ inode.locks)
    (order : earlier.id < later.id) : Compatible earlier later := by
  have inOrder : inode.locks.Pairwise fun a b => a.id < b.id → Compatible a b := by
    apply consistent.compatible.imp
    intro a b compatible _
    exact compatible
  have outOfOrder : inode.locks.Pairwise (flip fun a b => a.id < b.id → Compatible a b) :=
    consistent.ordered.imp fun {_ _} before after => absurd after (Nat.lt_asymm before)
  exact inOrder.forall_of_forall_of_flip (fun _ _ less => absurd less (Nat.lt_irrefl _)) outOfOrder
    earlierHeld laterHeld order

variable {a b : FileLock}

theorem Inode.Consistent.eq_of_id (consistent : inode.Consistent) (aHeld : a ∈ inode.locks)
    (bHeld : b ∈ inode.locks) (same : a.id = b.id) : a = b := by
  have forwards : inode.locks.Pairwise fun a b => a.id = b.id → a = b :=
    consistent.ordered.imp fun {_ _} before same => absurd same (Nat.ne_of_lt before)
  have backwards : inode.locks.Pairwise (flip fun a b => a.id = b.id → a = b) :=
    consistent.ordered.imp fun {_ _} before same => absurd same.symm (Nat.ne_of_lt before)
  exact forwards.forall_of_forall_of_flip (fun _ _ _ => rfl) backwards aHeld bHeld same

theorem Shares.symm (shares : Shares a b) : Shares b a :=
  shares.imp fun _ both => both.symm

/-- **No conflicting locks.** After any sequence of requests, two locks that have a byte in common are
both shared, or belong to the same file descriptor and the one acquired later is shared; so no lock
overlaps an exclusive one of another file descriptor. -/
theorem locks_compatible (fsLocks : Nat → Bool) (limit : OffsetLimit) (actions : List Action) :
    ∃ inode, runAll Inode.step (Inode.initial fsLocks limit) actions = .ok inode ∧
      (∀ a ∈ inode.locks, ∀ b ∈ inode.locks, a ≠ b → a.id < b.id ∨ b.id < a.id) ∧
      (∀ earlier ∈ inode.locks, ∀ later ∈ inode.locks, earlier.id < later.id →
        Shares earlier later → earlier.shared = true ∧ later.shared = true ∨
          earlier.fd = later.fd ∧ later.shared = true) ∧
      ∀ exclusive ∈ inode.locks, ∀ other ∈ inode.locks, exclusive.shared = false →
        other.fd ≠ exclusive.fd → ¬Shares exclusive other := by
  obtain ⟨inode, done⟩ := runAll_total (fun inode action =>
    (step_changes inode action).imp fun _ both => both.1) (Inode.initial fsLocks limit) actions
  have consistent : inode.Consistent := by
    refine (runs_of_runAll done).invariant Inode.Consistent ⟨List.Pairwise.nil, List.Pairwise.nil, nofun⟩ ?_
    intro before action after consistent _ done
    obtain ⟨inode', same, changes⟩ := step_changes before action
    cases same.symm.trans done
    exact changes.consistent consistent
  refine ⟨inode, done, fun a aHeld b bHeld differ => ?_, fun earlier earlierHeld later laterHeld order =>
      consistent.compatible_of_lt earlierHeld laterHeld order,
    fun exclusive held other otherHeld isExclusive otherFd shares => ?_⟩
  · exact Nat.lt_or_gt_of_ne fun same => differ (consistent.eq_of_id aHeld bHeld same)
  · have differ : exclusive.id ≠ other.id := fun same =>
      otherFd (consistent.eq_of_id held otherHeld same ▸ rfl)
    obtain before | after := Nat.lt_or_gt_of_ne differ
    · obtain ⟨shared, -⟩ | ⟨sameFd, -⟩ := consistent.compatible_of_lt held otherHeld before shares
      · exact Bool.false_ne_true (isExclusive.symm.trans shared)
      · exact otherFd sameFd.symm
    · obtain ⟨-, shared⟩ | ⟨sameFd, -⟩ := consistent.compatible_of_lt otherHeld held after shares.symm
      · exact Bool.false_ne_true (isExclusive.symm.trans shared)
      · exact otherFd sameFd

/-- Requests of two file descriptors: an exclusive lock, a shared one up to the end of the file that
overlaps it, one in front of both, and an exclusive one that is refused. -/
def someRequests : List Action :=
  [.lock 0 0 10 20 false false, .lock 0 0 25 0xffffffffffffffe7 true false, .lock 1 1 0 10 true false,
    .lock 1 1 12 1 false false].map fun request => ⟨request, fun _ => .done⟩

theorem locks_compatible_someRequests :
    ∃ inode, runAll Inode.step (Inode.initial (fun _ => true) .offT) someRequests = .ok inode ∧
      inode.locks.map FileLock.id = [0, 1, 2] ∧ ∀ earlier ∈ inode.locks, ∀ later ∈ inode.locks,
        earlier.id < later.id → Shares earlier later → earlier.shared = true ∧ later.shared = true ∨
          earlier.fd = later.fd ∧ later.shared = true := by
  obtain ⟨inode, done, ids⟩ := exists_ok_of_check
    (x := runAll Inode.step (Inode.initial (fun _ => true) .offT) someRequests)
    (fun inode => inode.locks.map FileLock.id = [0, 1, 2]) (by decide +kernel)
  obtain ⟨inode', same, -, compatible, -⟩ := locks_compatible (fun _ => true) .offT someRequests
  cases done.symm.trans same
  exact ⟨inode, done, ids, compatible⟩

end FreeWindows.Fd
