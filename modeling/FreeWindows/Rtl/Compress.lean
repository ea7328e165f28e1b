/-
**Compression of LZNT1 data.**

`lznt1_compress` and `RtlCompressBuffer` of `dlls/ntdll/rtl.c`. Nothing is compressed: the bytes are
stored in chunks of 4096, the last one apart, each behind its header.

* `lznt1Compress_fills`: a buffer gets the stored chunks, or the status says that it is too small;
* `remainingChunks_storedChunks`: **decompression gives the bytes of the stored chunks**;
* `compress_roundTrip`: both for the two functions.
-/

import FreeWindows.Rtl.Fragments

namespace FreeWindows.Rtl

open List Nat

inductive CompressStatus
  | success
  | bufferTooSmall
  | invalidParameter
  | unsupportedCompression
deriving DecidableEq, Repr

/-- The status, and the bytes in front of `dst_cur`: `final_size` is their number. -/
structure Compression where
  status : CompressStatus
  written : List UInt8
deriving DecidableEq, Repr

/-- An uncompressed chunk behind its header. -/
def storedChunk (block : List UInt8) : List UInt8 :=
  let header := 0x3000 ||| (block.length - 1)
  UInt8.ofNat header :: UInt8.ofNat (header >>> 8) :: block

/-- The loop of `lznt1_compress`. -/
def lznt1Compress (dstSize : Nat) (src dst : List UInt8) : Compression :=
  if src = [] then ⟨.success, dst⟩
  else
    let blockSize := min 0x1000 src.length
    if dst.length + 2 + blockSize > dstSize then ⟨.bufferTooSmall, dst⟩
    else lznt1Compress dstSize (src.drop blockSize) (dst ++ storedChunk (src.take blockSize))
termination_by src.length
decreasing_by
  have := length_pos_iff.mpr ‹_›
  rw [length_drop]
  omega

def rtlCompressBuffer (format dstSize : Nat) (src : List UInt8) : Compression :=
  let format := format &&& 0xff
  if format = compressionFormatLznt1 then lznt1Compress dstSize src []
  else if format = compressionFormatNone ∨ format = compressionFormatDefault then
    ⟨.invalidParameter, []⟩
  else ⟨.unsupportedCompression, []⟩

/-- The compressed form: the chunks of 4096 bytes in a row. -/
def storedChunks (src : List UInt8) : List UInt8 :=
  if src = [] then [] else storedChunk (src.take 0x1000) ++ storedChunks (src.drop 0x1000)
termination_by src.length
decreasing_by
  have := length_pos_iff.mpr ‹_›
  rw [length_drop]
  omega

/-- What a buffer of the given size gets of a compressed form. -/
def Fills (dstSize : Nat) (form : List UInt8) (result : Compression) : Prop :=
  if form.length ≤ dstSize then result = ⟨.success, form⟩
  else result.status = .bufferTooSmall ∧ result.written.length ≤ dstSize

variable {block src dst : List UInt8} {dstSize : Nat}

theorem lznt1Compress_chunk (some : src ≠ []) : lznt1Compress dstSize src dst =
    if (dst ++ storedChunk (src.take 0x1000)).length > dstSize then ⟨.bufferTooSmall, dst⟩
    else lznt1Compress dstSize (src.drop 0x1000) (dst ++ storedChunk (src.take 0x1000)) := by
  have cut : src.take (min 0x1000 src.length) = src.take 0x1000 := take_eq_take_iff.mpr (by omega)
  have rest : src.drop (min 0x1000 src.length) = src.drop 0x1000 := drop_eq_drop_iff.mpr (by omega)
  have long : dst.length + 2 + min 0x1000 src.length =
      (dst ++ storedChunk (src.take 0x1000)).length := by
    rw [length_append, storedChunk, length_cons, length_cons, length_take]
    omega
  rw [lznt1Compress, if_neg some]
  simp only [cut, rest, long]

theorem lznt1Compress_fills (room : dst.length ≤ dstSize) :
    Fills dstSize (dst ++ storedChunks src) (lznt1Compress dstSize src dst) := by
  fun_induction storedChunks src generalizing dst with
  | case1 =>
    rw [lznt1Compress, if_pos rfl, append_nil, Fills, if_pos room]
  | case2 src some ih =>
    rw [lznt1Compress_chunk some, ← append_assoc]
    split
    · next excess =>
      rw [Fills, if_neg (by rw [length_append]; omega)]
      exact ⟨rfl, room⟩
    · next free => exact ih (Nat.le_of_not_lt free)

/-- The header of a chunk says how long it is, and that it is not compressed. -/
theorem nextChunk_storedChunk (some : block ≠ []) (small : block.length ≤ 0x1000) (rest : List UInt8) :
    nextChunk (storedChunk block ++ rest) = .chunk false block rest := by
  have positive := length_pos_iff.mpr some
  generalize isHeader : 0x3000 ||| (block.length - 1) = header
  have value : header = 0x2fff + block.length := by
    rw [← isHeader, ← two_pow_add_eq_or_of_lt (by omega : block.length - 1 < 2 ^ 12) 3]
    omega
  have bytes : (UInt8.ofNat header).toNat + 256 * (UInt8.ofNat (header >>> 8)).toNat = header := by
    simp only [UInt8.toNat_ofNat', shiftRight_eq_div_pow]
    omega
  have size : (header &&& 0xfff) + 1 = block.length := by
    rw [and_two_pow_sub_one_eq_mod header 12]
    omega
  have stored : header &&& 0x8000 = 0 := by
    rw [← Nat.mod_eq_of_lt (by omega : header < 2 ^ 14), ← Nat.and_two_pow_sub_one_eq_mod, Nat.and_assoc]
    exact and_zero header
  simp only [storedChunk, isHeader, cons_append, nextChunk, bytes, size, stored]
  rw [if_neg (by omega), if_neg (by simp), take_left, drop_left]
  rfl

/-- **Decompression gives the bytes of the stored chunks.** No chunk but the last one leaves a
padding. -/
theorem remainingChunks_storedChunks (aligned : src = [] ∨ dst.length % 0x1000 = 0)
    (room : dst.length + src.length ≤ dstSize) :
    remainingChunks dstSize 0 (storedChunks src) dst = .ok (dst ++ src) := by
  fun_induction storedChunks src generalizing dst with
  | case1 => rw [remainingChunks_end (.inl rfl), append_nil]
  | case2 src some ih =>
    have positive := length_pos_iff.mpr some
    have whole : dst = dst ++ padding (dst.length + 0) := by
      rw [Nat.add_zero, padding, aligned.resolve_left some]
      exact (append_nil dst).symm
    have found := @nextChunk_storedChunk (src.take 0x1000) (by simpa using some) (length_take_le _ _)
      (storedChunks (src.drop 0x1000))
    have kept : chunkBlock (dstSize - dst.length) false (src.take 0x1000) = .some (src.take 0x1000) := by
      rw [chunkBlock, if_neg Bool.false_ne_true, take_of_length_le (by rw [length_take]; omega)]
    rw [remainingChunks_chunk found whole (by omega), kept]
    dsimp only
    rw [ih, append_assoc, take_append_drop]
    · rw [drop_eq_nil_iff, length_append, length_take]
      have := aligned.resolve_left some
      omega
    · rw [length_append, length_take, length_drop]
      omega

theorem compress_roundTrip {format : Nat} (lznt1 : format &&& 0xff = compressionFormatLznt1)
    {x : List UInt8} (nonempty : x ≠ []) (dstSize : Nat) :
    ((storedChunks x).length ≤ dstSize →
      rtlCompressBuffer format dstSize x = ⟨.success, storedChunks x⟩ ∧
      ∀ size ≥ x.length, rtlDecompressBuffer format size (storedChunks x) = .ok x) ∧
    (dstSize < (storedChunks x).length →
      (rtlCompressBuffer format dstSize x).status = .bufferTooSmall ∧
      (rtlCompressBuffer format dstSize x).written.length ≤ dstSize) := by
  have fills : Fills dstSize (storedChunks x) (rtlCompressBuffer format dstSize x) := by
    rw [rtlCompressBuffer, if_pos lznt1]
    exact @lznt1Compress_fills x [] dstSize (zero_le _)
  refine ⟨fun room => ⟨?_, fun size enough => ?_⟩, fun short => ?_⟩
  · rwa [Fills, if_pos room] at fills
  · have long : ¬(storedChunks x).length < 2 := by
      rw [storedChunks, if_neg nonempty, length_append, storedChunk, length_cons, length_cons]
      omega
    rw [rtlDecompressBuffer, rtlDecompressFragment, if_pos lznt1, lznt1Decompress_zero, if_neg long]
    exact remainingChunks_storedChunks (.inr rfl) (by simpa using enough)
  · rwa [Fills, if_neg (Nat.not_le.mpr short)] at fills

/-- Two chunks, and a buffer that lacks one byte. -/
theorem compress_roundTrip_chunks :
    rtlCompressBuffer 2 5004 (replicate 5000 7) = ⟨.success, storedChunks (replicate 5000 7)⟩ ∧
      rtlDecompressBuffer 2 5000 (storedChunks (replicate 5000 7)) = .ok (replicate 5000 7) ∧
      (rtlCompressBuffer 2 5003 (replicate 5000 7)).status = .bufferTooSmall := by
  have chunks : ∀ x : List UInt8, x.length = 5000 → x ≠ [] ∧ (storedChunks x).length = 5004 := by
    intro x long
    have first : x ≠ [] := ne_nil_of_length_pos (by omega)
    have second : x.drop 0x1000 ≠ [] := ne_nil_of_length_pos (by rw [length_drop]; omega)
    have none : (x.drop 0x1000).drop 0x1000 = [] := drop_eq_nil_iff.mpr (by rw [length_drop]; omega)
    refine ⟨first, ?_⟩
    rw [storedChunks, if_neg first, storedChunks, if_neg second, none, storedChunks, if_pos rfl]
    simp only [storedChunk, length_append, length_cons, length_take, length_drop, length_nil]
    omega
  obtain ⟨some, total⟩ := chunks (replicate 5000 7) length_replicate
  have both := (@compress_roundTrip 2 rfl _ some 5004).1 (le_of_eq total)
  exact ⟨both.1, both.2 5000 (le_of_eq length_replicate),
    ((@compress_roundTrip 2 rfl _ some 5003).2 (by omega)).1⟩

end FreeWindows.Rtl
