/-
**Fragments of LZNT1 data.**

`RtlDecompressFragment` is meant to give the bytes from an offset on of what `RtlDecompressBuffer`
gives. It takes every chunk to stand for 4096 bytes; the data of all chunks is decoded only from the
one on in which the offset lies. So the two agree on a stream whose chunks are of that size, the last
one apart, or are padded to it.

* `layout`: what the chunks of a stream are decompressed to, when they expand to the given blocks;
* `fragment`: what they are decompressed to from an offset on;
* `remainingChunks_eq`, `lznt1Decompress_eq`: the code computes these two;
* `fragment_iff`: **fragments are parts of the whole exactly for regular blocks**;
* `fragments_iff`: the same of the two functions.
-/

import FreeWindows.Rtl.Lznt1

namespace FreeWindows.Rtl

open List Option Nat

/-! ### What the code computes -/

/-- The blocks that the chunks of a stream expand to. -/
def expansions (src : List UInt8) : Option (List (List UInt8)) :=
  match _found : nextChunk src with
  | .done => some []
  | .stop => some []
  | .bad => none
  | .chunk compressed data rest =>
    (expansion compressed data).bind fun block => (expansions rest).map (block :: ·)
termination_by src.length
decreasing_by exact nextChunk_rest ‹_›

/-- The zeros behind so many bytes, up to the next multiple of 4096. -/
def padding (written : Nat) : List UInt8 := List.replicate ((0x1000 - written % 0x1000) % 0x1000) 0

/-- The blocks in a row, each but the last one padded. -/
def layout : List (List UInt8) → List UInt8
  | [] => []
  | block :: blocks =>
    if blocks = [] then block else block ++ padding block.length ++ layout blocks

/-- The blocks behind what was written before, from the given offset on. -/
def behind (offset : Nat) (dst : List UInt8) (blocks : List (List UInt8)) : List UInt8 :=
  if blocks = [] then dst else dst ++ padding (dst.length + offset) ++ layout blocks

/-- The blocks from an offset on: whole blocks are skipped for every 4096 bytes, and the next one is
cut off behind 4096 bytes. -/
def fragment (blocks : List (List UInt8)) (offset : Nat) : List UInt8 :=
  match blocks with
  | [] => []
  | block :: blocks =>
    if offset ≥ 0x1000 then fragment blocks (offset - 0x1000)
    else if offset = 0 then layout (block :: blocks)
    else behind offset ((block.take 0x1000).drop offset) blocks

theorem padding_length (written : Nat) : (padding written).length = (0x1000 - written % 0x1000) % 0x1000 :=
  length_replicate

theorem padding_add {start : Nat} (aligned : start % 0x1000 = 0) (written : Nat) :
    padding (start + written) = padding written := by
  have same : (start + written) % 0x1000 = written % 0x1000 := by omega
  rw [padding, padding, same]

variable {block dst data rest src out : List UInt8} {offset dstSize : Nat} {compressed : Bool}
  {blocks : List (List UInt8)}

theorem behind_cons {padded : List UInt8} (blocks : List (List UInt8))
    (isPadded : padded = dst ++ padding (dst.length + offset)) :
    behind offset dst (block :: blocks) = behind offset (padded ++ block) blocks := by
  have aligned : (padded.length + offset) % 0x1000 = 0 := by
    rw [isPadded, length_append, padding_length]
    omega
  have shift : (padded ++ block).length + offset = padded.length + offset + block.length := by
    rw [length_append]
    omega
  rw [behind, if_neg (cons_ne_nil _ _), layout, ← isPadded, behind, shift, padding_add aligned]
  split
  · rfl
  · simp only [append_assoc]

theorem expansions_chunk (found : nextChunk src = .chunk compressed data rest) :
    expansions src = (expansion compressed data).bind fun block => (expansions rest).map (block :: ·) := by
  rw [expansions]
  split <;> simp_all

theorem expansions_end (found : nextChunk src = .done ∨ nextChunk src = .stop) :
    expansions src = some [] := by
  rw [expansions]
  split <;> simp_all

theorem expansions_bad (found : nextChunk src = .bad) : expansions src = none := by
  rw [expansions]
  split <;> simp_all

theorem blockSize_eq (written : Nat) :
    (if written &&& 0xfff ≠ 0 then 0x1000 - (written &&& 0xfff) else 0) = (padding written).length := by
  rw [padding_length, and_two_pow_sub_one_eq_mod written 12]
  split <;> omega

/-- One turn of the loop over the remaining chunks, in a buffer that is not full. -/
theorem remainingChunks_chunk {padded : List UInt8}
    (found : nextChunk src = .chunk compressed data rest)
    (isPadded : padded = dst ++ padding (dst.length + offset)) (room : padded.length < dstSize) :
    remainingChunks dstSize offset src dst =
      match chunkBlock (dstSize - padded.length) compressed data with
      | none => .error .badCompressionBuffer
      | some block => remainingChunks dstSize offset rest (padded ++ block) := by
  have zeros : replicate (padding (dst.length + offset)).length 0 = padding (dst.length + offset) := by
    rw [padding_length, padding]
  have long : padded.length = dst.length + (padding (dst.length + offset)).length := by
    rw [isPadded, length_append]
  rw [remainingChunks]
  split
  · next other => rw [found] at other; cases other
  · next other => rw [found] at other; cases other
  · next other => rw [found] at other; cases other
  · next compressed' data' rest' same =>
    rw [found] at same
    cases same
    simp only [blockSize_eq, zeros, ← isPadded]
    refine (if_neg (by omega)).trans ((if_neg (by omega)).trans ?_)
    cases chunkBlock (dstSize - padded.length) compressed data <;> rfl

theorem remainingChunks_end (found : nextChunk src = .done ∨ nextChunk src = .stop) :
    remainingChunks dstSize offset src dst = .ok dst := by
  rw [remainingChunks]
  split <;> simp_all

theorem expansions_cons (expands : expansions src = some (block :: blocks)) :
    ∃ compressed data rest, nextChunk src = .chunk compressed data rest ∧
      expansion compressed data = some block ∧ expansions rest = some blocks := by
  cases found : nextChunk src with
  | done =>
    rw [expansions_end (.inl found)] at expands
    cases expands
  | stop =>
    rw [expansions_end (.inr found)] at expands
    cases expands
  | bad =>
    rw [expansions_bad found] at expands
    cases expands
  | chunk compressed data rest =>
    rw [expansions_chunk found] at expands
    simp only [bind_eq_some_iff, map_eq_some_iff, cons.injEq] at expands
    obtain ⟨_, here, _, there, rfl, rfl⟩ := expands
    exact ⟨compressed, data, rest, rfl, here, there⟩

theorem expansions_nil (expands : expansions src = some []) :
    nextChunk src = .done ∨ nextChunk src = .stop := by
  cases found : nextChunk src with
  | done => exact .inl rfl
  | stop => exact .inr rfl
  | bad =>
    rw [expansions_bad found] at expands
    cases expands
  | chunk compressed data rest =>
    rw [expansions_chunk found] at expands
    simp only [bind_eq_some_iff, map_eq_some_iff, cons_ne_nil, and_false,
      exists_false] at expands

/-- **The loop over the remaining chunks lays out their blocks.** -/
theorem remainingChunks_eq (expands : expansions src = some blocks)
    (room : (behind offset dst blocks).length < dstSize) :
    remainingChunks dstSize offset src dst = .ok (behind offset dst blocks) := by
  induction blocks generalizing src dst with
  | nil => exact remainingChunks_end (expansions_nil expands)
  | cons block blocks ih =>
    obtain ⟨compressed, data, rest, found, here, there⟩ := expansions_cons expands
    generalize isPadded : dst ++ padding (dst.length + offset) = padded
    rw [behind_cons blocks isPadded.symm] at room ⊢
    have long : (padded ++ block).length ≤ (behind offset (padded ++ block) blocks).length := by
      unfold behind
      split
      · exact Nat.le_refl _
      · simp only [length_append]
        omega
    rw [length_append] at long
    rw [remainingChunks_chunk found isPadded.symm (by omega),
        chunkBlock_take here (lt_succ_of_le (chunkBlock_length here)) _,
      take_of_length_le (by omega)]
    exact ih there room

/-- A run that ends in success, with room for one more padding, has decoded every chunk. -/
theorem remainingChunks_inv (run : remainingChunks dstSize offset src dst = .ok out)
    (room : out.length + 0x1000 < dstSize) :
    dst.length ≤ out.length ∧ ∃ blocks, expansions src = some blocks := by
  fun_induction remainingChunks dstSize offset src dst with
  | case1 src dst found =>
    cases run
    exact ⟨Nat.le_refl _, [], expansions_end (.inl found)⟩
  | case2 src dst found =>
    cases run
    exact ⟨Nat.le_refl _, [], expansions_end (.inr found)⟩
  | case3 => cases run
  | case4 src dst compressed data rest found excess blockSize full =>
    cases run
    have small : blockSize ≤ 0x1000 := by
      simp only [blockSize]
      split <;> omega
    omega
  | case5 src dst compressed data rest found excess blockSize _ padded full =>
    have same : padded = out := Except.ok.inj run
    rw [← same] at room
    omega
  | case6 => cases run
  | case7 src dst compressed data rest found excess blockSize _ padded free block decoded ih =>
    obtain ⟨long, blocks, there⟩ := ih run
    have split : (padded ++ block).length = dst.length + blockSize + block.length := by
      simp only [padded, length_append, length_replicate]
    have wide : (padded ++ block).length = padded.length + block.length := length_append
    have here : expansion compressed data = some block := by
      have bound := chunkBlock_length decoded
      rw [expansion, chunkBlock_take decoded (by omega), take_of_length_le (by omega)]
    refine ⟨by omega, block :: blocks, ?_⟩
    rw [expansions_chunk found, here, there]
    rfl

/-- The first loop stops at the block in which the offset lies, or at the end. -/
theorem skipChunks_eq (expands : expansions src = some blocks) :
    (skipChunks src offset = .out ∧ fragment blocks offset = []) ∨
      ∃ src' offset' blocks', skipChunks src offset = .to src' offset' ∧
        expansions src' = some blocks' ∧ fragment blocks offset = fragment blocks' offset' ∧
        (offset' < 0x1000 ∨ blocks' = []) := by
  induction blocks generalizing src offset with
  | nil =>
    by_cases near : offset < 0x1000
    · rw [skipChunks, if_pos near]
      exact .inr ⟨src, offset, [], rfl, expands, rfl, .inl near⟩
    · rw [skipChunks, if_neg near]
      rcases expansions_nil expands with found | found
      · rw [found]
        exact .inr ⟨src, offset, [], rfl, expands, rfl, .inr rfl⟩
      · rw [found]
        exact .inl ⟨rfl, rfl⟩
  | cons block blocks ih =>
    by_cases near : offset < 0x1000
    · rw [skipChunks, if_pos near]
      exact .inr ⟨src, offset, block :: blocks, rfl, expands, rfl, .inl near⟩
    · obtain ⟨compressed, data, rest, found, here, there⟩ := expansions_cons expands
      rw [skipChunks, if_neg near, found, fragment, if_pos (Nat.le_of_not_lt near)]
      exact ih there

theorem layout_eq_behind (blocks : List (List UInt8)) : layout blocks = behind 0 [] blocks := by
  unfold behind
  split
  · next none => rw [none, layout]
  · rfl

/-- The block in which the offset lies, and those behind it. -/
theorem partialChunk_eq (small : data.length ≤ 0x1000) (here : expansion compressed data = some block)
    (there : expansions rest = some blocks)
    (room : (behind offset ((block.take 0x1000).drop offset) blocks).length < dstSize) :
    partialChunk dstSize offset true compressed data rest =
      .ok (behind offset ((block.take 0x1000).drop offset) blocks) := by
  have front : ((block.take 0x1000).drop offset).length ≤
      (behind offset ((block.take 0x1000).drop offset) blocks).length := by
    unfold behind
    split
    · exact Nat.le_refl _
    · simp only [length_append]
      omega
  have taken (whole : List UInt8) (short : (whole.drop offset).length < dstSize) :
      (if whole.length > offset then (whole.drop offset).take dstSize else []) = whole.drop offset := by
    split
    · exact take_of_length_le (by omega)
    · next beyond => rw [drop_eq_nil_of_le (by omega)]
  have decoded := chunkBlock_take here (lt_succ_of_le (chunkBlock_length here)) 0x1000
  rw [partialChunk, if_neg (by omega)]
  cases compressed with
  | true =>
    have isBlock : lznt1DecompressChunk 0x1000 data = some (block.take 0x1000) := decoded
    simp only [isBlock, if_true, not_true, if_false]
    rw [taken _ (by omega)]
    exact remainingChunks_eq there room
  | false =>
    have isBlock : data.take 0x1000 = block.take 0x1000 := some.inj decoded
    rw [take_of_length_le small] at isBlock
    rw [isBlock, taken _ (by omega)]
    exact remainingChunks_eq there room

theorem fragment_zero (blocks : List (List UInt8)) : fragment blocks 0 = layout blocks := by
  cases blocks with
  | nil => rfl
  | cons block blocks => rfl

/-- **`lznt1_decompress` from an offset on**, in a buffer that holds the fragment. -/
theorem lznt1Decompress_eq (long : 2 ≤ src.length) (expands : expansions src = some blocks)
    (room : (fragment blocks offset).length < dstSize) :
    lznt1Decompress dstSize src offset true = .ok (fragment blocks offset) := by
  rw [lznt1Decompress, if_neg (Nat.not_lt.mpr long)]
  rcases @skipChunks_eq src offset blocks expands with ⟨skipped, nothing⟩ |
    ⟨src', offset', blocks', skipped, expands', same, near⟩
  · rw [skipped, nothing]
  rw [same] at room
  rw [skipped, same]
  dsimp only
  by_cases zero : offset' = 0
  · rw [zero, fragment_zero, layout_eq_behind] at room ⊢
    exact remainingChunks_eq expands' room
  rw [if_neg zero]
  cases blocks' with
  | nil =>
    rcases expansions_nil expands' with found | found
    · rw [found]
      exact remainingChunks_end (.inl found)
    · rw [found]
      rfl
  | cons block blocks' =>
    obtain ⟨compressed, data, rest, found, here, there⟩ := expansions_cons expands'
    have inside : ¬offset' ≥ 0x1000 := by
      rcases near with near | none
      · exact Nat.not_le.mpr near
      · cases none
    rw [fragment, if_neg inside, if_neg zero] at room ⊢
    rw [found]
    exact partialChunk_eq (nextChunk_data found) here there room

theorem lznt1Decompress_zero (dstSize : Nat) (src : List UInt8) (workspace : Bool) :
    lznt1Decompress dstSize src 0 workspace =
      if src.length < 2 then .error .badCompressionBuffer else remainingChunks dstSize 0 src [] := by
  have start : skipChunks src 0 = .to src 0 := by
    rw [skipChunks]
    rfl
  rw [lznt1Decompress, start]
  rfl

/-! ### When fragments are parts of the whole -/

/-- No more than one byte: empty blocks, with at most one byte in the last one. -/
def Trifling (blocks : List (List UInt8)) : Prop :=
  (∀ block ∈ blocks.dropLast, block = []) ∧ ∀ block ∈ blocks.getLast?, block.length ≤ 1

/-- Every block has at most 4096 bytes, and behind an empty one there is no more than one byte. -/
def Regular : List (List UInt8) → Prop
  | [] => True
  | block :: blocks => block.length ≤ 0x1000 ∧ if block = [] then Trifling blocks else Regular blocks

theorem trifling_cons (some : blocks ≠ []) :
    Trifling (block :: blocks) ↔ block = [] ∧ Trifling blocks := by
  obtain ⟨second, blocks, rfl⟩ := exists_cons_of_ne_nil some
  simp only [Trifling, dropLast_cons_cons, forall_mem_cons, getLast?_cons_cons, and_assoc]

theorem layout_cons (some : blocks ≠ []) :
    layout (block :: blocks) = block ++ padding block.length ++ layout blocks := by
  rw [layout, if_neg some]

theorem layout_length_le_one_iff (blocks : List (List UInt8)) :
    (layout blocks).length ≤ 1 ↔ Trifling blocks := by
  induction blocks with
  | nil => simp [layout, Trifling]
  | cons block blocks ih =>
    by_cases none : blocks = []
    · simp [layout, none, Trifling]
    · rw [trifling_cons none, ← ih, layout_cons none]
      simp only [length_append, padding_length, ← length_eq_zero_iff]
      omega

/-- Behind a block of 1 to 4096 bytes the next one starts at 4096. -/
theorem padded_block (some : block ≠ []) (small : block.length ≤ 0x1000) :
    (block ++ padding block.length).length = 0x1000 := by
  have := length_pos_of_ne_nil some
  rw [length_append, padding_length]
  omega

theorem length_behind (some : blocks ≠ []) :
    (behind offset dst blocks).length =
      dst.length + (padding (dst.length + offset)).length + (layout blocks).length := by
  rw [behind, if_neg some, length_append, length_append]

theorem fragment_inside (start : offset ≠ 0) (inside : offset < 0x1000) :
    fragment (block :: blocks) offset = behind offset ((block.take 0x1000).drop offset) blocks := by
  rw [fragment, if_neg (Nat.not_le.mpr inside), if_neg start]

/-- A block of more than 4096 bytes is cut off when the offset lies in it. -/
theorem not_part_of_overlong (overlong : 0x1000 < block.length) :
    0xfff < (layout (block :: blocks)).length ∧
      fragment (block :: blocks) 0xfff ≠ (layout (block :: blocks)).drop 0xfff := by
  have cut : ((block.take 0x1000).drop 0xfff).length = 1 := by
    rw [length_drop, length_take]
    omega
  rw [fragment_inside (by decide) (by decide)]
  by_cases none : blocks = []
  · rw [layout, if_pos none, behind, if_pos none]
    refine ⟨by omega, fun same => ?_⟩
    have lengths := congrArg length same
    rw [cut, length_drop] at lengths
    omega
  · rw [layout_cons none]
    refine ⟨by simp only [length_append]; omega, fun same => ?_⟩
    have lengths := congrArg length same
    rw [length_behind none, cut, padding_length, length_drop, length_append, length_append] at lengths
    omega

/-- Behind an empty block the padding is written that the whole does not have. -/
theorem not_part_of_empty (more : 1 < (layout blocks).length) :
    1 < (layout ([] :: blocks)).length ∧ fragment ([] :: blocks) 1 ≠ (layout ([] :: blocks)).drop 1 := by
  have some : blocks ≠ [] := by
    rintro rfl
    exact absurd more (by decide)
  have whole : layout ([] :: blocks) = layout blocks := by
    rw [layout_cons some]
    rfl
  rw [whole, fragment_inside (by decide) (by decide), take_nil, drop_nil]
  refine ⟨more, fun same => ?_⟩
  have lengths := congrArg length same
  rw [length_behind some, length_drop, length_nil] at lengths
  omega

/-- **Fragments are parts of the whole exactly for regular blocks.** -/
theorem fragment_iff (blocks : List (List UInt8)) :
    (∀ offset, offset < (layout blocks).length → fragment blocks offset = (layout blocks).drop offset) ↔
      Regular blocks := by
  induction blocks with
  | nil => simp [layout, Regular]
  | cons block blocks ih =>
    constructor
    · intro parts
      have small : block.length ≤ 0x1000 := by
        by_contra overlong
        obtain ⟨inside, differ⟩ := @not_part_of_overlong block blocks (by omega)
        exact differ (parts _ inside)
      refine ⟨small, ?_⟩
      split
      · next empty =>
        rw [← layout_length_le_one_iff]
        by_contra more
        obtain ⟨inside, differ⟩ := @not_part_of_empty blocks (by omega)
        rw [empty] at parts
        exact differ (parts _ inside)
      · next some =>
        -- an offset into the other blocks is 4096 more in all of them
        refine ih.mp fun offset inside => ?_
        have others : blocks ≠ [] := by
          rintro rfl
          exact absurd inside (not_lt_zero _)
        have first := padded_block some small
        have part := parts (offset + 0x1000) (by rw [layout_cons others, length_append]; omega)
        rw [fragment, if_pos (by omega), layout_cons others, drop_append, first,
          drop_eq_nil_of_le (by omega), nil_append, Nat.add_sub_cancel] at part
        exact part
    · rintro ⟨small, others⟩ offset inside
      by_cases start : offset = 0
      · rw [start, fragment_zero, drop_zero]
      by_cases empty : block = []
      · -- the whole has no more than one byte
        rw [if_pos empty, ← layout_length_le_one_iff] at others
        rw [layout, empty] at inside
        split at inside
        · exact absurd inside (not_lt_zero _)
        · rw [length_append] at inside
          have nothing : (([] : List UInt8) ++ padding ([] : List UInt8).length).length = 0 := rfl
          omega
      rw [if_neg empty] at others
      have first := padded_block empty small
      by_cases beyond : 0x1000 ≤ offset
      · have more : blocks ≠ [] := by
          rintro rfl
          rw [layout, if_pos rfl] at inside
          omega
        rw [layout_cons more, length_append] at inside
        rw [fragment, if_pos beyond, layout_cons more, drop_append, first,
          drop_eq_nil_of_le (by omega), nil_append]
        exact ih.mpr others _ (by omega)
      · have inFirst : offset < 0x1000 := Nat.lt_of_not_le beyond
        rw [fragment_inside start inFirst, take_of_length_le small, behind, layout]
        split
        · rfl
        · have := length_pos_of_ne_nil empty
          rw [drop_append_of_le_length (by omega), drop_append, padding, padding, drop_replicate, length_drop]
          congr 3
          omega

/-! ### The two functions -/

/-- The run ends in success with these bytes, in every buffer that is large enough. -/
def Produces (run : Nat → Except Status (List UInt8)) (out : List UInt8) : Prop :=
  ∃ enough, ∀ dstSize, enough ≤ dstSize → run dstSize = .ok out

theorem Produces.unique {run : Nat → Except Status (List UInt8)} {out' : List UInt8}
    (one : Produces run out) (two : Produces run out') : out = out' := by
  obtain ⟨enough, produces⟩ := one
  obtain ⟨enough', produces'⟩ := two
  have same := (produces (max enough enough') (Nat.le_max_left _ _)).symm.trans
    (produces' (max enough enough') (Nat.le_max_right _ _))
  exact Except.ok.inj same

section Formats

variable {format : Nat} {src : List UInt8} {blocks : List (List UInt8)}
  (lznt1 : format &&& 0xff = compressionFormatLznt1)
include lznt1

theorem produces_fragment (long : 2 ≤ src.length) (expands : expansions src = some blocks)
    (offset : Nat) :
    Produces (rtlDecompressFragment format · src offset true) (fragment blocks offset) := by
  refine ⟨(fragment blocks offset).length + 1, fun dstSize room => ?_⟩
  simp only [rtlDecompressFragment, if_pos lznt1]
  exact lznt1Decompress_eq long expands room

theorem produces_whole (long : 2 ≤ src.length) (expands : expansions src = some blocks) :
    Produces (rtlDecompressBuffer format · src) (layout blocks) := by
  refine ⟨(layout blocks).length + 1, fun dstSize room => ?_⟩
  rw [layout_eq_behind] at room ⊢
  simp only [rtlDecompressBuffer, rtlDecompressFragment, if_pos lznt1, lznt1Decompress_zero,
    if_neg (Nat.not_lt.mpr long)]
  exact remainingChunks_eq expands room

/-- A whole that is produced is the layout of the blocks of the stream. -/
theorem expansions_of_whole (whole : Produces (rtlDecompressBuffer format · src) out) :
    2 ≤ src.length ∧ ∃ blocks, expansions src = some blocks ∧ out = layout blocks := by
  obtain ⟨enough, produces⟩ := whole
  have run := produces (enough + out.length + 0x1001) (by omega)
  simp only [rtlDecompressBuffer, rtlDecompressFragment, if_pos lznt1, lznt1Decompress_zero] at run
  split at run
  · cases run
  · next short =>
    have long : 2 ≤ src.length := Nat.le_of_not_lt short
    obtain ⟨_, blocks, expands⟩ := remainingChunks_inv run (by omega)
    exact ⟨long, blocks, expands, Produces.unique ⟨enough, produces⟩ (produces_whole lznt1 long expands)⟩

end Formats

/-- **When fragments are parts of the whole.** `RtlDecompressFragment` gives the last bytes of what
`RtlDecompressBuffer` gives, for every offset, exactly if every chunk expands to at most 4096 bytes
and behind one that expands to nothing there is no more than one byte. -/
theorem fragments_iff {format : Nat} {src out : List UInt8}
    (lznt1 : format &&& 0xff = compressionFormatLznt1)
    (whole : Produces (rtlDecompressBuffer format · src) out) :
    (∀ offset, offset < out.length →
      Produces (rtlDecompressFragment format · src offset true) (out.drop offset)) ↔
      ∃ blocks, expansions src = some blocks ∧ Regular blocks := by
  obtain ⟨long, blocks, expands, rfl⟩ := expansions_of_whole lznt1 whole
  have parts : (∀ offset, offset < (layout blocks).length →
      Produces (rtlDecompressFragment format · src offset true) ((layout blocks).drop offset)) ↔
      ∀ offset, offset < (layout blocks).length → fragment blocks offset = (layout blocks).drop offset := by
    refine forall_congr' fun offset => imp_congr_right fun _ => ?_
    have produces := produces_fragment lznt1 long expands offset
    constructor
    · exact produces.unique
    · intro same
      rwa [same] at produces
  rw [parts, fragment_iff]
  constructor
  · intro regular
    exact ⟨blocks, expands, regular⟩
  · rintro ⟨blocks', expands', regular⟩
    rw [expands] at expands'
    cases expands'
    exact regular

/-- A compressed chunk of two bytes and a stored one of one byte. -/
def twoChunks : List UInt8 := [0x02, 0x80, 0x00, 0x61, 0x62, 0x00, 0x30, 0x63]

theorem fragments_iff_chunks : expansions twoChunks = some [[0x61, 0x62], [0x63]] ∧
    ∀ offset, offset < 4097 → Produces (rtlDecompressFragment 2 · twoChunks offset true)
      (List.drop offset ([0x61, 0x62] ++ List.replicate 4094 (0 : UInt8) ++ [0x63])) := by
  have first : nextChunk twoChunks = .chunk true [0x00, 0x61, 0x62] [0x00, 0x30, 0x63] := by decide
  have second : nextChunk [0x00, 0x30, 0x63] = .chunk false [0x63] [] := by decide
  have expands : expansions twoChunks = some [[0x61, 0x62], [0x63]] := by
    rw [expansions_chunk first, expansions_chunk second, expansions_end (.inl rfl)]
    rfl
  have out : layout [[0x61, 0x62], [0x63]] = [0x61, 0x62] ++ List.replicate 4094 0 ++ [0x63] := rfl
  have parts := (@fragments_iff 2 _ _ rfl (produces_whole rfl (by decide) expands)).mpr
    ⟨_, expands, by simp [Regular]⟩
  refine ⟨expands, ?_⟩
  simpa only [out, length_append, length_replicate, length_cons, length_nil] using parts

/-- A chunk that expands to nothing, and one of two bytes: the fragment from the second byte on starts
with 4095 zeros and both bytes. -/
theorem fragment_behind_empty_chunk :
    Produces (rtlDecompressBuffer 2 · [0x00, 0x80, 0x00, 0x01, 0x00, 0x61, 0x62]) [0x61, 0x62] ∧
      Produces (rtlDecompressFragment 2 · [0x00, 0x80, 0x00, 0x01, 0x00, 0x61, 0x62] 1 true)
        (List.replicate 4095 0 ++ [0x61, 0x62]) ∧
      ¬Produces (rtlDecompressFragment 2 · [0x00, 0x80, 0x00, 0x01, 0x00, 0x61, 0x62] 1 true) [0x62] := by
  have first : nextChunk [0x00, 0x80, 0x00, 0x01, 0x00, 0x61, 0x62] =
      .chunk true [0x00] [0x01, 0x00, 0x61, 0x62] := by decide
  have second : nextChunk [0x01, 0x00, 0x61, 0x62] = .chunk false [0x61, 0x62] [] := by decide
  have expands : expansions [0x00, 0x80, 0x00, 0x01, 0x00, 0x61, 0x62] = some [[], [0x61, 0x62]] := by
    rw [expansions_chunk first, expansions_chunk second, expansions_end (.inl rfl)]
    rfl
  have part := @produces_fragment 2 _ _ rfl (by decide) expands 1
  rw [fragment_inside (by decide) (by decide), take_nil] at part
  refine ⟨produces_whole rfl (by decide) expands, part, fun other => ?_⟩
  have lengths := congrArg length (part.unique other)
  rw [length_behind (by decide), padding_length] at lengths
  exact absurd lengths (by decide)

end FreeWindows.Rtl
