/-
**Decompression of LZNT1 data.**

`lznt1_decompress_chunk`, `lznt1_decompress`, `RtlDecompressFragment` and `RtlDecompressBuffer` of
`dlls/ntdll/rtl.c`. A stream is a sequence of chunks, each with a header of two bytes; a chunk holds
its bytes as they are, or in groups of eight items behind a byte of flags, an item being a byte or a
reference to bytes that were written before.

A buffer is given by its length, and a pointer into it by the bytes in front of it: what a function
returns are the bytes it has written.

* `chunkLoop_take`: **a smaller buffer gets the first bytes of the same expansion**;
* `chunkLoop_length`: how far a chunk can expand.
-/

import Mathlib

namespace FreeWindows.Rtl

open List Nat

inductive Status
  | badCompressionBuffer
  | accessViolation
  | invalidParameter
  | unsupportedCompression
deriving DecidableEq, Repr

/-! ### One chunk -/

/-- The loop that finds `displacement_bits`, from 12 down. -/
def displacementBits (written : Nat) : Nat → Nat
  | 0 => 0
  | bits + 1 =>
    if bits + 1 > 4 then if 1 <<< bits < written then bits + 1 else displacementBits written bits
    else bits + 1

/-- The bytes of a backwards reference, copied one by one: whether the end of the buffer was met, and
what is written then. -/
def copyBytes (dstSize displacement : Nat) : Nat → List UInt8 → Bool × List UInt8
  | 0, dst => (false, dst)
  | length + 1, dst =>
    if dst.length ≥ dstSize then (true, dst)
    else copyBytes dstSize displacement length (dst ++ [dst.getD (dst.length - displacement) 0])

/-- `length_bits`, when so many bytes are written. -/
def lengthBits (written : Nat) : Nat := 16 - displacementBits written 12

def codeLength (written code : Nat) : Nat := (code &&& (1 <<< lengthBits written - 1)) + 3

def codeDisplacement (written code : Nat) : Nat := (code >>> lengthBits written) + 1

/-- The two loops of `lznt1_decompress_chunk`. The inner one runs until the mark in the upper half of
`flags` is shifted out; then the outer one takes the next byte for the flags. -/
def chunkLoop (dstSize flags : Nat) (src dst : List UInt8) : Option (List UInt8) :=
  match src with
  | [] => some dst
  | byte :: src =>
    if flags &&& 0xff00 = 0 then
      if dst.length ≥ dstSize then some dst else chunkLoop dstSize (0x8000 ||| byte.toNat) src dst
    else if flags &&& 1 ≠ 0 then
      -- backwards reference
      match src with
      | [] => none
      | high :: src =>
        let code := byte.toNat + 256 * high.toNat
        if dst.length < codeDisplacement dst.length code then none
        else
          let copied :=
            copyBytes dstSize (codeDisplacement dst.length code) (codeLength dst.length code) dst
          if copied.1 then some copied.2 else chunkLoop dstSize (flags >>> 1) src copied.2
    else
      -- uncompressed data
      if dst.length ≥ dstSize then some dst else chunkLoop dstSize (flags >>> 1) src (dst ++ [byte])

def lznt1DecompressChunk (dstSize : Nat) (src : List UInt8) : Option (List UInt8) :=
  chunkLoop dstSize 0 src []

/-! ### The size of the buffer -/

/-- A backwards reference without an end of the buffer. -/
def repeated (displacement : Nat) : Nat → List UInt8 → List UInt8
  | 0, dst => dst
  | length + 1, dst => repeated displacement length (dst ++ [dst.getD (dst.length - displacement) 0])

theorem repeated_length (displacement : Nat) : ∀ (length : Nat) (dst : List UInt8),
    (repeated displacement length dst).length = dst.length + length
  | 0, dst => rfl
  | length + 1, dst => by
    rw [repeated, repeated_length displacement length, length_append, length_singleton]
    omega

theorem front_repeated (displacement : Nat) : ∀ (length : Nat) (dst : List UInt8),
    dst <+: repeated displacement length dst
  | 0, dst => prefix_refl dst
  | length + 1, dst => (prefix_append dst _).trans (front_repeated displacement length _)

variable {d src data rest : List UInt8} {size : Nat} {compressed : Bool}

theorem take_of_front {d' : List UInt8} {n : Nat} (front : d <+: d') (long : n ≤ d.length) :
    d.take n = d'.take n := by
  obtain ⟨rest, rfl⟩ := front
  exact (take_append_of_le_length long).symm

/-- The copy is cut off at the end of the buffer. -/
theorem copyBytes_eq (dstSize displacement : Nat) : ∀ (length : Nat) (dst : List UInt8),
    dst.length ≤ dstSize → copyBytes dstSize displacement length dst =
      if dst.length + length ≤ dstSize then (false, repeated displacement length dst)
      else (true, (repeated displacement length dst).take dstSize)
  | 0, dst, room => (if_pos room).symm
  | length + 1, dst, room => by
    rw [copyBytes]
    by_cases full : dst.length ≥ dstSize
    · have cut := take_of_front (front_repeated displacement (length + 1) dst) full
      rw [if_pos full, if_neg (by omega), ← cut, take_of_length_le room]
    · rw [if_neg full, copyBytes_eq dstSize displacement length _ (by simp; omega), repeated,
        length_append, length_singleton, Nat.add_assoc, Nat.add_comm 1]

/-- **A smaller buffer gets the first bytes of the same expansion.** The induction is over the items:
`dst` is what both runs have written so far. -/
theorem chunkLoop_take {dstSize flags : Nat} {src dst d : List UInt8}
    (run : chunkLoop dstSize flags src dst = some d) (fits : d.length < dstSize)
    (inside : dst.length ≤ dstSize) {size : Nat} (room : dst.length ≤ size) :
    dst <+: d ∧ chunkLoop size flags src dst = some (d.take size) := by
  fun_induction chunkLoop dstSize flags src dst generalizing size with
  | case1 flags dst =>
    cases run
    rw [chunkLoop, take_of_length_le room]
    exact ⟨prefix_refl _, rfl⟩
  | case2 flags dst byte src outer full =>
    cases run
    exact absurd full (Nat.not_le.mpr fits)
  | case3 flags dst byte src outer free ih =>
    obtain ⟨front, rest⟩ := ih run inside room
    refine ⟨front, ?_⟩
    rw [chunkLoop.eq_def]
    simp only [if_pos outer]
    split
    · next full => rw [← take_of_front front full, take_of_length_le room]
    · exact rest
  | case4 => cases run
  | case5 => cases run
  | case6 flags dst byte inner reference high src code back copied full =>
    -- the larger buffer would be full
    have cut := copyBytes_eq dstSize (codeDisplacement dst.length code) (codeLength dst.length code)
      dst inside
    have long := repeated_length (codeDisplacement dst.length code) (codeLength dst.length code) dst
    simp only [copied, cut] at full run
    split at full
    · cases full
    · next excess =>
      rw [if_neg excess] at run
      cases run
      rw [length_take] at fits
      omega
  | case7 flags dst byte inner reference high src code back copied free ih =>
    have whole := copyBytes_eq dstSize (codeDisplacement dst.length code) (codeLength dst.length code)
      dst inside
    have long := repeated_length (codeDisplacement dst.length code) (codeLength dst.length code) dst
    simp only [copied, whole] at free run ih
    split at free
    · next within =>
      simp only [if_pos within] at run ih
      obtain ⟨front, _⟩ := ih run (by omega) (Nat.le_refl _)
      refine ⟨(front_repeated _ _ _).trans front, ?_⟩
      -- the smaller buffer gets all of the reference, or is full
      rw [chunkLoop.eq_def]
      simp only [if_neg inner, if_pos reference, ← show code = byte.toNat + 256 * high.toNat from rfl,
        if_neg back]
      rw [copyBytes_eq _ _ _ _ room]
      split
      · next enough => exact (ih run (by omega) (by omega)).2
      · next excess => exact congrArg some (take_of_front front (by omega))
    · exact absurd rfl free
  | case8 flags dst byte src inner literal full =>
    cases run
    exact absurd full (Nat.not_le.mpr fits)
  | case9 flags dst byte src inner literal free ih =>
    have long : (dst ++ [byte]).length = dst.length + 1 := length_append
    obtain ⟨front, _⟩ := ih run (by omega) (Nat.le_refl _)
    have front := (prefix_append dst [byte]).trans front
    refine ⟨front, ?_⟩
    rw [chunkLoop.eq_def]
    simp only [if_neg inner, if_neg literal]
    split
    · next full => rw [← take_of_front front full, take_of_length_le room]
    · exact (ih run (by omega) (by omega)).2

theorem codeLength_le (written : Nat) (low high : UInt8) :
    codeLength written (low.toNat + 256 * high.toNat) ≤ 65538 := by
  have masked : (low.toNat + 256 * high.toNat) &&& (1 <<< lengthBits written - 1) ≤
      low.toNat + 256 * high.toNat := and_le_left
  have := low.toNat_lt
  have := high.toNat_lt
  rw [codeLength]
  omega

/-- How far a chunk can expand: a reference has two bytes, and its length is at most 65538. -/
theorem chunkLoop_length {dstSize flags : Nat} {src dst d : List UInt8}
    (run : chunkLoop dstSize flags src dst = some d) : d.length ≤ dst.length + 65538 * src.length := by
  have copies (displacement length : Nat) (dst : List UInt8) :
      (copyBytes dstSize displacement length dst).2.length ≤ dst.length + length := by
    fun_induction copyBytes dstSize displacement length dst with
    | case1 dst => exact Nat.le_refl _
    | case2 => exact le_add_right _ _
    | case3 length dst free ih =>
      rw [length_append, length_singleton] at ih
      omega
  fun_induction chunkLoop dstSize flags src dst with
  | case1 => cases run; exact Nat.le_refl _
  | case2 => cases run; exact le_add_right _ _
  | case3 flags dst byte src outer free ih =>
    have := ih run
    rw [length_cons]
    omega
  | case4 => cases run
  | case5 => cases run
  | case6 flags dst byte inner reference high src code back copied full =>
    cases run
    have written := copies (codeDisplacement dst.length code) (codeLength dst.length code) dst
    have short : codeLength dst.length code ≤ 65538 := codeLength_le dst.length byte high
    simp only [length_cons]
    exact Nat.le_trans written (by omega)
  | case7 flags dst byte inner reference high src code back copied free ih =>
    have rest := ih run
    have written := copies (codeDisplacement dst.length code) (codeLength dst.length code) dst
    have short : codeLength dst.length code ≤ 65538 := codeLength_le dst.length byte high
    simp only [length_cons]
    refine Nat.le_trans rest (Nat.le_trans (Nat.add_le_add_right written _) (by omega))
  | case8 => cases run; exact le_add_right _ _
  | case9 flags dst byte src inner literal free ih =>
    have := ih run
    rw [length_append, length_singleton] at this
    rw [length_cons]
    omega

/-! ### The chunks of a stream -/

/-- What stands at `src_cur`. -/
inductive Next
  /-- Fewer than two bytes. -/
  | done
  /-- A header of zero: `goto out`. -/
  | stop
  /-- A chunk that goes beyond the end of the stream. -/
  | bad
  | chunk (compressed : Bool) (data rest : List UInt8)
deriving DecidableEq, Repr

/-- The reading of a header and the check of the chunk's size, the same in all three parts of
`lznt1_decompress`. -/
def nextChunk (src : List UInt8) : Next :=
  match src with
  | low :: high :: src =>
    let chunkHeader := low.toNat + 256 * high.toNat
    let chunkSize := (chunkHeader &&& 0xfff) + 1
    if chunkHeader = 0 then .stop
    else if src.length < chunkSize then .bad
    else .chunk (chunkHeader &&& 0x8000 ≠ 0) (src.take chunkSize) (src.drop chunkSize)
  | _ => .done

/-- How the first loop ends: at a header of zero, at a bad chunk, or at a place in the stream with
what is left of the offset. -/
inductive Skipped
  | out
  | bad
  | to (src : List UInt8) (offset : Nat)

/-- The loop over the chunks with a distance of 0x1000 or more to the offset. -/
def skipChunks (src : List UInt8) (offset : Nat) : Skipped :=
  if offset < 0x1000 then .to src offset
  else
    match nextChunk src with
    | .done => .to src offset
    | .stop => .out
    | .bad => .bad
    | .chunk _ _ rest => skipChunks rest (offset - 0x1000)
termination_by offset

/-- The bytes of a chunk, in a buffer of the given size. -/
def chunkBlock (dstSize : Nat) (compressed : Bool) (data : List UInt8) : Option (List UInt8) :=
  if compressed then lznt1DecompressChunk dstSize data else some (data.take dstSize)

/-- The bytes of a chunk without an end of the buffer: no chunk fills one of this size. -/
def expansion (compressed : Bool) (data : List UInt8) : Option (List UInt8) :=
  chunkBlock (65538 * data.length + 1) compressed data

theorem chunkBlock_length (block : chunkBlock size compressed data = some d) :
    d.length ≤ 65538 * data.length := by
  unfold chunkBlock at block
  split at block
  · have bound := chunkLoop_length block
    rw [length_nil] at bound
    omega
  · cases block
    rw [length_take]
    omega

theorem chunkBlock_take (block : chunkBlock size compressed data = some d) (fits : d.length < size)
    (other : Nat) : chunkBlock other compressed data = some (d.take other) := by
  unfold chunkBlock at block ⊢
  split at block
  · next isCompressed =>
    rw [if_pos isCompressed]
    exact (chunkLoop_take block fits (zero_le _) (zero_le _)).2
  · next stored =>
    cases block
    rw [length_take] at fits
    rw [if_neg stored, take_of_length_le (by omega : data.length ≤ size)]

theorem nextChunk_rest (found : nextChunk src = .chunk compressed data rest) :
    rest.length < src.length := by
  unfold nextChunk at found
  split at found
  · dsimp only at found
    split_ifs at found
    cases found
    simp only [length_drop, length_cons]
    omega
  · cases found

theorem nextChunk_data (found : nextChunk src = .chunk compressed data rest) :
    data.length ≤ 0x1000 := by
  unfold nextChunk at found
  split at found
  · next low high src =>
    dsimp only at found
    split_ifs at found
    cases found
    have masked : (low.toNat + 256 * high.toNat) &&& 0xfff ≤ 0xfff := and_le_right
    simp only [length_take]
    omega
  · cases found

/-- The loop over the remaining chunks. -/
def remainingChunks (dstSize offset : Nat) (src dst : List UInt8) : Except Status (List UInt8) :=
  match _found : nextChunk src with
  | .done => .ok dst
  | .stop => .ok dst
  | .bad => .error .badCompressionBuffer
  | .chunk compressed data rest =>
    let excess := (dst.length + offset) &&& 0xfff
    -- padding, when the previous chunk was decompressed to less than 4096 bytes
    let blockSize := if excess ≠ 0 then 0x1000 - excess else 0
    if excess ≠ 0 ∧ dst.length + blockSize ≥ dstSize then .ok dst
    else
      let padded := dst ++ List.replicate blockSize 0
      if padded.length ≥ dstSize then .ok padded
      else
        match chunkBlock (dstSize - padded.length) compressed data with
        | none => .error .badCompressionBuffer
        | some block => remainingChunks dstSize offset rest (padded ++ block)
termination_by src.length
decreasing_by exact nextChunk_rest ‹_›

/-- The partially included chunk, into an empty buffer. -/
def partialChunk (dstSize offset : Nat) (workspace compressed : Bool) (data rest : List UInt8) :
    Except Status (List UInt8) :=
  if dstSize = 0 then .ok []
  else if compressed then
    if ¬workspace then .error .accessViolation
    else
      match lznt1DecompressChunk 0x1000 data with
      | none => .error .badCompressionBuffer
      | some block =>
        remainingChunks dstSize offset rest
          (if block.length > offset then (block.drop offset).take dstSize else [])
  else
    remainingChunks dstSize offset rest
      (if data.length > offset then (data.drop offset).take dstSize else [])

def lznt1Decompress (dstSize : Nat) (src : List UInt8) (offset : Nat) (workspace : Bool) :
    Except Status (List UInt8) :=
  if src.length < 2 then .error .badCompressionBuffer
  else
    match skipChunks src offset with
    | .out => .ok []
    | .bad => .error .badCompressionBuffer
    | .to src offset =>
      if offset = 0 then remainingChunks dstSize offset src []
      else
        match nextChunk src with
        | .done => remainingChunks dstSize offset src []
        | .stop => .ok []
        | .bad => .error .badCompressionBuffer
        | .chunk compressed data rest => partialChunk dstSize offset workspace compressed data rest

def compressionFormatNone : Nat := 0

def compressionFormatDefault : Nat := 1

def compressionFormatLznt1 : Nat := 2

def rtlDecompressFragment (format dstSize : Nat) (src : List UInt8) (offset : Nat) (workspace : Bool) :
    Except Status (List UInt8) :=
  let format := format &&& 0xff
  if format = compressionFormatLznt1 then lznt1Decompress dstSize src offset workspace
  else if format = compressionFormatNone ∨ format = compressionFormatDefault then
    .error .invalidParameter
  else .error .unsupportedCompression

def rtlDecompressBuffer (format dstSize : Nat) (src : List UInt8) : Except Status (List UInt8) :=
  rtlDecompressFragment format dstSize src 0 false

end FreeWindows.Rtl
