/-
**Which bytes are unlocked.**

`remove_unix_locks` has to unlock the bytes of a range that no remaining lock covers. The holes between
the locks are described twice: as a list of pieces from which the locks are cut off one after the other
(`trim`), and as the doubly linked list of the source.

When a hole is split, the new part is linked behind the old one, but the hole that follows keeps its
link back to the old part. If that hole is covered by a later lock, it is taken out with this link, and
the new part is lost. A piece is marked as `linked` while its link back is right; `trim` has no result
if another piece has to be taken out.

* `trim_holds`: the pieces are the bytes that are left;
* `carve_trim`: the loop of the source does the same in memory, as long as `trim` has a result;
* `removeUnixLocks_exact`: then exactly the bytes that are not covered are unlocked.
-/

import FreeWindows.Fd.Model

namespace FreeWindows.Fd

open Lib List Entry Replaces Nat

/-! ### Pieces -/

/-- A hole, and whether its link back is right. -/
structure Piece where
  linked : Bool
  hole : Hole
deriving DecidableEq, Repr

/-- The link back of the first piece is out of date. -/
def loosen : List Piece → List Piece
  | [] => []
  | piece :: rest => { piece with linked := false } :: rest

/-- The pieces without the bytes of a lock. The piece in front was taken out if `relinked`. -/
def trim (lock : Range) : (relinked : Bool) → List Piece → Option (List Piece)
  | _, [] => some []
  | relinked, ⟨linked, hole⟩ :: rest =>
    if hole.stop ≤ lock.start then (trim lock false rest).map (⟨linked || relinked, hole⟩ :: ·)
    else if lock.stop ≠ 0 ∧ hole.start ≥ lock.stop then some (⟨linked || relinked, hole⟩ :: rest)
    else if hole.start ≥ lock.start then
      if lock.stop ≠ 0 ∧ lock.stop < hole.stop then
        some (⟨linked || relinked, { hole with start := lock.stop }⟩ :: rest)
      else if linked || relinked then trim lock true rest
      else none
    else if lock.stop = 0 ∨ hole.stop ≤ lock.stop then
      (trim lock false rest).map (⟨linked || relinked, { hole with stop := lock.start }⟩ :: ·)
    else
      some (⟨linked || relinked, { hole with stop := lock.start }⟩ ::
        ⟨true, ⟨lock.stop, hole.stop⟩⟩ :: loosen rest)

/-- All locks, one after the other. -/
def trimAll : List Piece → List Range → Option (List Piece)
  | pieces, [] => some pieces
  | pieces, lock :: locks => (trim lock false pieces).bind (trimAll · locks)

/-- The byte is in one of the pieces. -/
def Left (pieces : List Piece) (byte : Nat) : Prop :=
  ∃ piece ∈ pieces, piece.hole.start ≤ byte ∧ byte < piece.hole.stop

/-- The pieces are not empty, and one is behind the other, from `low` on. -/
def Ascends : (low : Nat) → List Piece → Prop
  | _, [] => True
  | low, piece :: rest =>
    low ≤ piece.hole.start ∧ piece.hole.start < piece.hole.stop ∧ Ascends piece.hole.stop rest

variable {pieces' : List Piece}

section Pieces

variable {lock : Range} {low byte : Nat} {pieces : List Piece}

theorem left_nil : ¬Left [] byte := by simp [Left]

variable {piece : Piece} {relinked : Bool}

theorem left_cons : Left (piece :: pieces) byte ↔
    (piece.hole.start ≤ byte ∧ byte < piece.hole.stop) ∨ Left pieces byte := by
  simp [Left]

theorem Ascends.mono {low' : Nat} (ascends : Ascends low pieces) (le : low' ≤ low) :
    Ascends low' pieces := by
  cases pieces with
  | nil => trivial
  | cons piece rest => exact ⟨Nat.le_trans le ascends.1, ascends.2⟩

theorem Ascends.le (ascends : Ascends low pieces) (left : Left pieces byte) : low ≤ byte := by
  induction pieces generalizing low with
  | nil => exact absurd left left_nil
  | cons piece rest ih =>
    rcases left_cons.mp left with here | behind
    · exact Nat.le_trans ascends.1 here.1
    · have := ih ascends.2.2 behind
      have := ascends.1
      have := ascends.2.1
      omega

theorem Ascends.nonempty (ascends : Ascends low pieces) (member : piece ∈ pieces) :
    piece.hole.start < piece.hole.stop := by
  induction pieces generalizing low with
  | nil => cases member
  | cons first rest ih =>
    rcases mem_cons.mp member with rfl | later
    · exact ascends.2.1
    · exact ih ascends.2.2 later

theorem left_loosen : Left (loosen pieces) byte ↔ Left pieces byte := by
  cases pieces with
  | nil => exact Iff.rfl
  | cons piece rest => rw [loosen, left_cons, left_cons]

theorem trim_ascends (ascends : Ascends low pieces)
    (trimmed : trim lock relinked pieces = some pieces') : Ascends low pieces' := by
  have ordered := lock.ordered
  fun_induction trim lock relinked pieces generalizing low pieces' with
  | case1 =>
    cases trimmed
    trivial
  | case2 relinked linked hole rest before ih =>
    obtain ⟨more, same, rfl⟩ := Option.map_eq_some_iff.mp trimmed
    exact ⟨ascends.1, ascends.2.1, ih ascends.2.2 same⟩
  | case3 relinked linked hole rest before behind =>
    cases trimmed
    exact ascends
  | case4 relinked linked hole rest before behind starts short =>
    cases trimmed
    obtain ⟨lower, inner, more⟩ := ascends
    refine ⟨?_, short.2, more⟩
    dsimp only at lower inner ⊢
    omega
  | case5 relinked linked hole rest before behind starts covers isLinked ih =>
    exact ih (ascends.2.2.mono (Nat.le_trans ascends.1 (Nat.le_of_lt ascends.2.1))) trimmed
  | case6 => cases trimmed
  | case7 relinked linked hole rest before behind inner ends ih =>
    obtain ⟨more, same, rfl⟩ := Option.map_eq_some_iff.mp trimmed
    have tail := ih ascends.2.2 same
    refine ⟨ascends.1, Nat.not_le.mp inner, tail.mono (Nat.le_of_lt (Nat.not_le.mp before))⟩
  | case8 relinked linked hole rest before behind inner inside =>
    cases trimmed
    obtain ⟨lower, proper, more⟩ := ascends
    refine ⟨lower, Nat.not_le.mp inner, ?_, ?_, by cases rest <;> exact more⟩
    all_goals dsimp only at lower proper ⊢; omega

theorem or_later_iff {here was locked later : Prop} (apart : later → ¬locked)
    (same : here ↔ was ∧ ¬locked) : here ∨ later ↔ (was ∨ later) ∧ ¬locked := by
  rw [or_and_right, and_iff_left_of_imp apart, same]

/-- **The pieces that are left** are the bytes that the lock does not hold. -/
theorem trim_holds (nonempty : lock.start ≠ lock.stop) (ascends : Ascends low pieces)
    (trimmed : trim lock relinked pieces = some pieces') (byte : Nat) :
    Left pieces' byte ↔ Left pieces byte ∧ ¬lock.Holds byte := by
  unfold Range.Holds
  fun_induction trim lock relinked pieces generalizing low pieces' with
  | case1 =>
    cases trimmed
    simp [left_nil]
  | case2 relinked linked hole rest before ih =>
    obtain ⟨more, same, rfl⟩ := Option.map_eq_some_iff.mp trimmed
    have tail : Left more byte ↔ _ := ih ascends.2.2 same
    rw [left_cons, left_cons, tail, or_and_right]
    refine or_congr_left ?_
    dsimp only
    omega
  | case3 relinked linked hole rest before behind =>
    cases trimmed
    have proper : hole.start < hole.stop := ascends.2.1
    rw [left_cons, left_cons]
    dsimp only
    refine or_later_iff (fun later => ?_) (by omega)
    have : hole.stop ≤ byte := ascends.2.2.le later
    omega
  | case4 relinked linked hole rest before behind starts short =>
    cases trimmed
    rw [left_cons, left_cons]
    dsimp only
    refine or_later_iff (fun later => ?_) (by omega)
    have : hole.stop ≤ byte := ascends.2.2.le later
    omega
  | case5 relinked linked hole rest before behind starts covers isLinked ih =>
    have tail : Left pieces' byte ↔ _ := ih ascends.2.2 trimmed
    rw [left_cons, tail]
    by_cases later : Left rest byte
    · simp only [later, or_true, true_and]
    · simp only [later, or_false, false_and, false_iff]
      omega
  | case6 => cases trimmed
  | case7 relinked linked hole rest before behind inner ends ih =>
    obtain ⟨more, same, rfl⟩ := Option.map_eq_some_iff.mp trimmed
    have tail : Left more byte ↔ _ := ih ascends.2.2 same
    rw [left_cons, left_cons, tail, or_and_right]
    refine or_congr_left ?_
    dsimp only
    omega
  | case8 relinked linked hole rest before behind inner inside =>
    cases trimmed
    rw [left_cons, left_cons, left_cons, left_loosen, ← or_assoc]
    dsimp only
    refine or_later_iff (fun later => ?_) (by omega)
    have : hole.stop ≤ byte := ascends.2.2.le later
    omega

end Pieces

/-! ### The list in memory -/

/-- The piece of an entry. -/
def pieceOf (entry : Entry Hole) : Piece := ⟨entry.linked, entry.data⟩

/-- A piece behind one that was taken out. -/
theorem trim_relinked (lock : Range) (entries : List (Entry Hole)) :
    trim lock true (entries.map pieceOf) = trim lock false ((relinkHead true entries).map pieceOf) := by
  cases entries with
  | nil => rfl
  | cons entry rest =>
    rw [relinkHead, map_cons, map_cons, pieceOf, pieceOf, trim, trim]
    simp only [Bool.or_true, Bool.or_false]

/-- The outcome of the loop for one lock: the list of the pieces that `trim` returns. -/
def Carved (holes : Holes) (last : Option Nat) (entries : List (Entry Hole)) (pieces : List Piece)
    (outcome : Except Fault (Holes × Bool)) : Prop :=
  ∃ holes' empty entries', outcome = .ok (holes', empty) ∧ entries'.map pieceOf = pieces ∧
    holes'.next ≤ holes.next + 1 ∧ holes'.size = holes.size ∧
    (empty = true → last = none ∧ pieces = []) ∧
    Replaces holes.arena holes'.arena last holes.next holes'.next entries entries'

variable {locks : List Range}

section Carve

variable {lock : Range} {holes : Holes} {last : Option Nat} {entry : Entry Hole} {rest : List (Entry Hole)}
  {pieces : List Piece} {outcome : Except Fault (Holes × Bool)} {arena : Arena Hole}

/-- The first hole stays. -/
theorem Carved.keep (list : ListAt holes.arena last holes.next (entry :: rest))
    (behind : Carved holes (some entry.address) rest pieces outcome) :
    Carved holes last (entry :: rest) (pieceOf entry :: pieces) outcome := by
  obtain ⟨holes', empty, rest', done, rfl, next, size, ended, replaces⟩ := behind
  refine ⟨holes', empty, entry :: rest', done, rfl, next, size, fun isEmpty => ?_, replaces.keep list⟩
  exact absurd (ended isEmpty).1 (Option.some_ne_none _)

variable {entries : List (Entry Hole)} {rounds : Nat}

theorem Carved.after {mid : List (Entry Hole)}
    (changed : Replaces holes.arena arena last holes.next holes.next entries mid)
    (part : mid.map address ⊆ entries.map address)
    (then' : Carved { holes with arena } last mid pieces outcome) :
    Carved holes last entries pieces outcome := by
  obtain ⟨holes', empty, entries', done, mapped, next, size, ended, replaces⟩ := then'
  exact ⟨holes', empty, entries', done, mapped, next, size, ended, changed.trans replaces part⟩

theorem carved_of_replaces {entries' : List (Entry Hole)}
    (replaces : Replaces holes.arena arena last holes.next holes.next entries entries') :
    Carved holes last entries (entries'.map pieceOf) (.ok ({ holes with arena }, false)) :=
  ⟨{ holes with arena }, false, entries', rfl, rfl, le_succ _, rfl, nofun, replaces⟩

/-- **The loop for one lock** does in memory what `trim` does. -/
theorem carve_trim (nonempty : lock.start ≠ lock.stop) (room : holes.next < holes.size)
    (enough : entries.length ≤ rounds) (list : ListAt holes.arena last holes.next entries)
    (trimmed : trim lock false (entries.map pieceOf) = some pieces) :
    Carved holes last entries pieces (carve lock rounds holes (holes.arena.link last)) := by
  induction rounds generalizing holes last entries pieces with
  | zero =>
    obtain rfl := length_eq_zero_iff.mp (le_zero.mp enough)
    cases trimmed
    rw [show holes.arena.link last = none from list.chain]
    exact carved_of_replaces (refl list)
  | succ rounds ih =>
  cases entries with
  | nil =>
    cases trimmed
    rw [show holes.arena.link last = none from list.chain]
    exact carved_of_replaces (refl list)
  | cons entry rest =>
    obtain ⟨start, data, prev, -⟩ := list.chain
    have enough' := le_of_succ_le_succ enough
    have ordered := lock.ordered
    rw [start, carve]
    dsimp only
    rw [data]
    rw [map_cons, pieceOf, trim] at trimmed
    simp only [Bool.or_false] at trimmed
    split
    next before =>
      rw [if_pos before] at trimmed
      obtain ⟨more, same, rfl⟩ := Option.map_eq_some_iff.mp trimmed
      exact (ih room enough' list.tail same).keep list
    next before =>
    rw [if_neg before] at trimmed
    split
    next behind =>
      rw [if_pos behind] at trimmed
      cases trimmed
      exact carved_of_replaces (refl list)
    next behind =>
    rw [if_neg behind] at trimmed
    split
    next starts =>
      rw [if_pos starts] at trimmed
      have shrunk := list.setData { entry.data with start := lock.stop }
      split
      next short =>
        rw [if_pos short] at trimmed
        cases trimmed
        exact carved_of_replaces shrunk
      next covers =>
      rw [if_neg covers] at trimmed
      split at trimmed
      next isLinked =>
        have unlinked := shrunk.list.unlink isLinked
        obtain ⟨link, node⟩ := shrunk.list.unlink_link isLinked
        have back := shrunk.list.chain.2.2.1 isLinked
        have part : (relinkHead true rest).map address ⊆
            ((⟨entry.address, entry.linked, { entry.data with start := lock.stop }⟩ : Entry Hole) ::
              rest).map address := by
          rw [map_address_relinkHead]
          exact subset_cons_self _ _
        have both := shrunk.trans unlinked (List.Subset.refl _)
        rw [trim_relinked] at trimmed
        rw [node, back]
        split
        next ended =>
          obtain ⟨rfl, noFirst⟩ := ended
          have none : relinkHead true rest = [] := unlinked.list.chain.eq_nil noFirst
          rw [none] at trimmed
          cases trimmed
          exact ⟨_, true, _, rfl, by rw [none]; rfl, le_succ _, rfl, fun _ => ⟨rfl, rfl⟩, both⟩
        next more =>
          have shorter : (relinkHead true rest).length ≤ rounds := by
            cases rest <;> exact enough'
          rw [← link]
          exact Carved.after both part (ih (by exact room) shorter unlinked.list trimmed)
      · cases trimmed
    next inner =>
    rw [if_neg inner] at trimmed
    have shrunk := list.setData { entry.data with stop := lock.start }
    split
    next ends =>
      rw [if_pos ends] at trimmed
      obtain ⟨more, same, rfl⟩ := Option.map_eq_some_iff.mp trimmed
      rw [if_neg (not_not.mpr (Nat.not_le.mp inner))]
      exact Carved.after shrunk (List.Subset.refl _)
        ((ih (by exact room) enough' shrunk.list.tail same).keep shrunk.list)
    next inside =>
      rw [if_neg inside] at trimmed
      cases trimmed
      rw [if_neg (Nat.not_le.mpr room), if_neg (by omega)]
      have inserted := shrunk.list.insertAfter ⟨lock.stop, entry.data.stop⟩
      refine ⟨_, false, _, rfl, ?_, Nat.le_refl _, rfl, nofun, shrunk.trans inserted (List.Subset.refl _)⟩
      rw [map_cons, map_cons]
      cases rest <;> rfl

theorem trimAll_nil (locks : List Range) : trimAll [] locks = some [] := by
  induction locks with
  | nil => rfl
  | cons lock locks ih => exact ih

/-- **The loop over all locks.** -/
theorem carveAll_trimAll (nonempty : ∀ lock ∈ locks, lock.start ≠ lock.stop)
    (room : holes.next + locks.length ≤ holes.size) (enough : holes.size ≤ rounds)
    (list : ListAt holes.arena none holes.next entries)
    (trimmed : trimAll (entries.map pieceOf) locks = some pieces) :
    ∃ holes' entries', carveAll rounds holes locks = .ok holes' ∧ entries'.map pieceOf = pieces ∧
      ListAt holes'.arena none holes'.next entries' ∧ holes'.next ≤ rounds := by
  induction locks generalizing holes entries with
  | nil =>
    cases trimmed
    exact ⟨holes, entries, rfl, rfl, list, by omega⟩
  | cons lock locks ih =>
    rw [length_cons] at room
    obtain ⟨more, first, later⟩ := Option.bind_eq_some_iff.mp trimmed
    have length := list.separate.length_le
    obtain ⟨holes₁, empty, entries₁, done, mapped, next, size, ended, replaces⟩ :=
      carve_trim (nonempty lock mem_cons_self) (by omega) (show entries.length ≤ rounds by omega)
        list first
    change carve lock rounds holes holes.arena.first = _ at done
    rw [carveAll, done]
    change ∃ holes' entries', (if empty then Except.ok holes₁ else carveAll rounds holes₁ locks) =
      .ok holes' ∧ _
    split
    next isEmpty =>
      rw [(ended isEmpty).2] at later mapped
      rw [trimAll_nil] at later
      cases later
      exact ⟨holes₁, entries₁, rfl, mapped, replaces.list, by omega⟩
    next =>
      rw [← mapped] at later
      exact ih (fun other member => nonempty other (mem_cons_of_mem _ member)) (by omega)
        (size ▸ enough) replaces.list later

theorem walk_chain {first : Option Nat} (chain : Chain holes.arena last first entries)
    (enough : entries.length ≤ rounds) : walk holes rounds first = .ok (entries.map data) := by
  induction entries generalizing last first rounds with
  | nil =>
    rw [show first = none from chain]
    cases rounds <;> rfl
  | cons entry rest ih =>
    obtain ⟨start, data, -, tail⟩ := chain
    cases rounds with
    | zero => exact absurd enough (by simp)
    | succ rounds =>
      rw [start, walk, ih tail (le_of_succ_le_succ enough), data]
      rfl

end Carve

/-! ### Unlocking -/

section Unlock

variable {fcntl : Flock → Fcntl} {unix : Unix} {pieces : List Piece}

theorem trimAll_spec {low : Nat} (nonempty : ∀ lock ∈ locks, lock.start ≠ lock.stop)
    (ascends : Ascends low pieces) (trimmed : trimAll pieces locks = some pieces') :
    Ascends low pieces' ∧
      ∀ byte, Left pieces' byte ↔ Left pieces byte ∧ ∀ lock ∈ locks, ¬lock.Holds byte := by
  induction locks generalizing pieces with
  | nil =>
    cases trimmed
    exact ⟨ascends, fun byte => by simp⟩
  | cons lock locks ih =>
    obtain ⟨more, first, later⟩ := Option.bind_eq_some_iff.mp trimmed
    have one := trim_holds (nonempty lock mem_cons_self) ascends first
    obtain ⟨order, all⟩ := ih (fun other member => nonempty other (mem_cons_of_mem _ member))
      (trim_ascends ascends first) later
    refine ⟨order, fun byte => ?_⟩
    rw [all, one, forall_mem_cons, and_assoc]

/-- The call that unlocks a hole. -/
def unlockCall (limit : OffsetLimit) (hole : Hole) : Flock :=
  ⟨.unlck, hole.start,
    if hole.stop = 0 ∨ hole.stop > limit.value then 0 else (hole.stop : Int) - hole.start⟩

/-- The hole is not empty, and it starts below `max_unix_offset`. -/
def Fits (limit : OffsetLimit) (hole : Hole) : Prop :=
  hole.start < hole.stop ∧ hole.stop ≤ limit.value + 1

variable {hole : Hole} {limit : OffsetLimit} {start stop : Nat}

section Calls

variable (supported : unix.fsLocks = true) (unlocks : ∀ fl : Flock, fl.type = .unlck → fcntl fl = .done)
include supported unlocks

theorem setUnixLock_unlock (fits : Fits unix.limit hole) :
    setUnixLock fcntl unix hole.start hole.stop .unlck =
      (none, unix, [unlockCall unix.limit hole]) := by
  have accepted := unlocks (unlockCall unix.limit hole) rfl
  obtain ⟨proper, below⟩ := fits
  rw [unlockCall] at accepted
  rw [setUnixLock, if_neg (not_not.mpr supported), if_neg (by omega), if_neg (by omega)]
  dsimp only
  rw [accepted]
  rfl

theorem unlockHoles_calls {holes : List Hole} (fits : ∀ hole ∈ holes, Fits unix.limit hole) :
    unlockHoles fcntl unix holes = (unix, holes.map (unlockCall unix.limit)) := by
  induction holes with
  | nil => rfl
  | cons hole holes ih =>
    rw [unlockHoles, setUnixLock_unlock supported unlocks (fits hole mem_cons_self)]
    dsimp only
    rw [ih fun other member => fits other (mem_cons_of_mem _ member)]
    rfl

end Calls

variable {byte : Nat}

/-- The bytes of a call, up to `max_unix_offset`. -/
theorem unlockCall_holds (fits : Fits limit hole) (small : byte ≤ limit.value) :
    (unlockCall limit hole).Holds byte ↔ hole.start ≤ byte ∧ byte < hole.stop := by
  obtain ⟨proper, below⟩ := fits
  unfold unlockCall Flock.Holds
  dsimp only
  split
  next whole =>
    rw [if_pos rfl]
    omega
  next part =>
    rw [if_neg (by omega), if_pos (by omega)]
    omega

/-- Only the locks that overlap the range hold bytes of it. -/
theorem overlapping_holds {locks : List FileLock} (lower : start ≤ byte) (upper : byte < stop) :
    (∀ lock ∈ overlapping locks start stop, ¬lock.Holds byte) ↔
      ∀ lock ∈ locks, ¬lock.range.Holds byte := by
  constructor
  · intro apart lock member held
    refine apart lock.range (mem_filter.mpr ⟨mem_map_of_mem member, ?_⟩) held
    unfold Range.Holds at held
    simp only [lockOverlaps, decide_eq_true_eq]
    omega
  · intro apart range member held
    obtain ⟨lock, inside, rfl⟩ := mem_map.mp (mem_filter.mp member).1
    exact apart lock inside held

theorem overlapping_nonempty {locks : List FileLock} :
    ∀ lock ∈ overlapping locks start stop, lock.start ≠ lock.stop := by
  intro lock member
  have both := (mem_filter.mp member).2
  rw [decide_eq_true_eq] at both
  exact both.1

end Unlock

/-- **No hole loses its way back**: in the order of the list, no lock covers a whole hole while the
hole in front of it was split by an earlier lock, unless a hole right in front of it was covered by a
lock in between. -/
def Traceable (limit : OffsetLimit) (locks : List FileLock) (range : Range) : Prop :=
  (trimAll [⟨true, ⟨range.start, clip limit range.stop⟩⟩]
    (overlapping locks range.start (clip limit range.stop))).isSome = true

instance (limit : OffsetLimit) (locks : List FileLock) (range : Range) :
    Decidable (Traceable limit locks range) := inferInstanceAs (Decidable (_ = true))

section Exact

variable {fcntl : Flock → Fcntl} {unix : Unix} {locks : List FileLock} {range : Range}
  {pieces : List Piece}

/-- The holes that are unlocked are the pieces that are left. -/
theorem removeUnixLocks_trimAll (supported : unix.fsLocks = true)
    (proper : ¬(range.start = range.stop ∨ range.start > unix.limit.value))
    (trimmed : trimAll [⟨true, ⟨range.start, clip unix.limit range.stop⟩⟩]
      (overlapping locks range.start (clip unix.limit range.stop)) = some pieces) :
    removeUnixLocks fcntl unix locks range = .ok (unlockHoles fcntl unix (pieces.map Piece.hole)) := by
  have nonempty := @overlapping_nonempty range.start (clip unix.limit range.stop) locks
  rw [removeUnixLocks, if_neg (not_not.mpr supported), if_neg proper]
  dsimp only
  split
  next none =>
    rw [none] at trimmed
    cases trimmed
    rfl
  next =>
    generalize overlapping locks range.start (clip unix.limit range.stop) = found at *
    obtain ⟨holes, entries, carved, rfl, list, bound⟩ := carveAll_trimAll nonempty
      (show (Holes.initial range.start (clip unix.limit range.stop) (found.length + 1)).next +
        found.length ≤ found.length + 1 from Nat.le_of_eq (Nat.add_comm 1 _))
      (Nat.le_refl (found.length + 1)) (show ListAt _ none 1 [⟨0, true, _⟩] from
        ⟨⟨rfl, rfl, fun _ => rfl, rfl⟩, by simp, by simp, by simp, nofun⟩) trimmed
    have walked := walk_chain list.chain (Nat.le_trans list.separate.length_le bound)
    change walk holes _ holes.arena.first = _ at walked
    have same : (entries.map pieceOf).map Piece.hole = entries.map data := by
      rw [map_map]
      rfl
    rw [same, carved]
    change (walk holes (found.length + 1) holes.arena.first >>= _) = _
    rw [walked]
    rfl

end Exact

/-- **Exactly the bytes are unlocked** that no remaining lock covers, if every hole can be traced back:
`remove_unix_locks` returns, and up to `max_unix_offset` a byte is in one of the ranges that it unlocks
if and only if it is in the released range and in no lock that is not empty. -/
theorem removeUnixLocks_exact (fcntl : Flock → Fcntl) (unix : Unix) (locks : List FileLock)
    (range : Range) (supported : unix.fsLocks = true)
    (unlocks : ∀ fl : Flock, fl.type = .unlck → fcntl fl = .done)
    (traceable : Traceable unix.limit locks range) :
    ∃ calls, removeUnixLocks fcntl unix locks range = .ok (unix, calls) ∧
      (∀ call ∈ calls, call.type = .unlck) ∧
      ∀ byte, byte ≤ unix.limit.value → ((∃ call ∈ calls, call.Holds byte) ↔
        range.Holds byte ∧ ∀ lock ∈ locks, ¬lock.range.Holds byte) := by
  by_cases proper : range.start = range.stop ∨ range.start > unix.limit.value
  · refine ⟨[], ?_, by simp, fun byte small => ?_⟩
    · rw [removeUnixLocks, if_neg (not_not.mpr supported), if_pos proper]
    · have none : ¬range.Holds byte := by
        unfold Range.Holds
        omega
      simp [none]
  · obtain ⟨pieces, trimmed⟩ := Option.isSome_iff_exists.mp traceable
    have whole : Ascends range.start [⟨true, ⟨range.start, clip unix.limit range.stop⟩⟩] := by
      have ordered := range.ordered
      refine ⟨Nat.le_refl _, ?_, trivial⟩
      dsimp only
      unfold clip
      split <;> omega
    obtain ⟨ascends, left⟩ := trimAll_spec overlapping_nonempty whole trimmed
    have inside : ∀ byte, Left pieces byte → byte < unix.limit.value + 1 := by
      intro byte isLeft
      obtain ⟨piece, member, -, upper⟩ := ((left byte).mp isLeft).1
      rw [mem_singleton.mp member] at upper
      refine Nat.lt_of_lt_of_le upper ?_
      dsimp only
      unfold clip
      split <;> omega
    have fits : ∀ hole ∈ pieces.map Piece.hole, Fits unix.limit hole := by
      intro hole member
      obtain ⟨piece, isPiece, rfl⟩ := mem_map.mp member
      have nonempty := ascends.nonempty isPiece
      have last := inside (piece.hole.stop - 1) ⟨piece, isPiece, by omega, by omega⟩
      exact ⟨nonempty, by omega⟩
    refine ⟨(pieces.map Piece.hole).map (unlockCall unix.limit), ?_, ?_, fun byte small => ?_⟩
    · rw [removeUnixLocks_trimAll supported proper trimmed, unlockHoles_calls supported unlocks fits]
    · intro call member
      obtain ⟨hole, -, rfl⟩ := mem_map.mp member
      rfl
    · have calls : (∃ call ∈ (pieces.map Piece.hole).map (unlockCall unix.limit), call.Holds byte) ↔
          Left pieces byte := by
        constructor
        · rintro ⟨call, member, holds⟩
          obtain ⟨hole, isHole, rfl⟩ := mem_map.mp member
          obtain ⟨piece, isPiece, rfl⟩ := mem_map.mp isHole
          exact ⟨piece, isPiece, (unlockCall_holds (fits _ isHole) small).mp holds⟩
        · rintro ⟨piece, isPiece, within⟩
          have isHole := mem_map_of_mem (f := Piece.hole) isPiece
          exact ⟨_, mem_map_of_mem isHole, (unlockCall_holds (fits _ isHole) small).mpr within⟩
      have whole : range.Holds byte ↔ range.start ≤ byte ∧ byte < clip unix.limit range.stop := by
        unfold Range.Holds clip
        split <;> omega
      rw [calls, left, whole, left_cons]
      simp only [left_nil, or_false]
      exact and_congr_right fun within => overlapping_holds within.1 within.2

/-- A shared lock of its own descriptor. -/
def sharedLock (fd start stop : Nat) (ordered : stop = 0 ∨ start ≤ stop) : FileLock :=
  ⟨fd, true, ⟨start, stop, ordered⟩, fd, 0⟩

theorem removeUnixLocks_exact_twoLocks :
    Traceable .offT [sharedLock 1 60 70 (by decide), sharedLock 2 20 30 (by decide)]
        ⟨0, 100, by decide⟩ ∧
      ∃ calls, removeUnixLocks (fun _ => .done) ⟨true, .offT⟩
          [sharedLock 1 60 70 (by decide), sharedLock 2 20 30 (by decide)] ⟨0, 100, by decide⟩ =
            .ok (⟨true, .offT⟩, calls) ∧
        (∀ call ∈ calls, call.type = .unlck) ∧
        ∀ byte, byte ≤ OffsetLimit.offT.value → ((∃ call ∈ calls, call.Holds byte) ↔
          (⟨0, 100, by decide⟩ : Range).Holds byte ∧
            ∀ lock ∈ [sharedLock 1 60 70 (by decide), sharedLock 2 20 30 (by decide)],
              ¬lock.range.Holds byte) :=
  ⟨by decide, removeUnixLocks_exact (fun _ => .done) ⟨true, .offT⟩ _ _ rfl (fun _ _ => rfl) (by decide)⟩

/-- Three locks on the first 100 bytes that are released otherwise: the byte 30 is in none of them, but
only the first 20 bytes are unlocked. -/
theorem removeUnixLocks_fails :
    removeUnixLocks (fun _ => .done) ⟨true, .offT⟩
        [sharedLock 1 60 70 (by decide), sharedLock 2 20 30 (by decide), sharedLock 3 70 100 (by decide)]
        ⟨0, 100, by decide⟩ = .ok (⟨true, .offT⟩, [⟨.unlck, 0, 20⟩]) ∧
      (⟨0, 100, by decide⟩ : Range).Holds 30 ∧ ¬(⟨.unlck, 0, 20⟩ : Flock).Holds 30 ∧
      ∀ lock ∈ [sharedLock 1 60 70 (by decide), sharedLock 2 20 30 (by decide),
        sharedLock 3 70 100 (by decide)], ¬lock.range.Holds 30 := by
  refine ⟨by decide +kernel, by decide, ?_, by decide⟩
  unfold Flock.Holds
  decide

end FreeWindows.Fd
