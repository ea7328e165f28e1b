/-
**SHA-1** (`dlls/ntdll/crypt.c`).

A context has the state, a counter of the bytes in two words, and a buffer of one block. A copy that does not
stay in the buffer has no result.

* `aShaUpdate_append_iff`: two updates do what one does, and the length is right, if and only if they are of
  less than 2^29 bytes together. The counter is advanced by `BufferSize >> 29` as if it counted bits;
* `aShaFinal_of_updates`: after such updates the digest is that of the message with the padding of SHA-1.
-/

import FreeWindows.Lib.Absorb
import FreeWindows.Lib.Buffer

namespace FreeWindows.Rtl.Sha

open Lib List Sha Nat

/-! ### The block transform -/

def rol (value bits : UInt32) : UInt32 := value <<< bits ||| value >>> (32 - bits)

abbrev Block := Fin 16 → UInt32

local instance neZero16 : NeZero 16 := ⟨by decide⟩

/-- `blk0` and `blk1`: the word that is stored in the round `i`. -/
def blk (block : Block) (i : Nat) : UInt32 :=
  let at_ (k : Nat) := block (Fin.ofNat 16 k)
  if i < 16 then rol (at_ i) 24 &&& 0xff00ff00 ||| rol (at_ i) 8 &&& 0x00ff00ff
  else rol (at_ (i + 13) ^^^ at_ (i + 8) ^^^ at_ (i + 2) ^^^ at_ i) 1

/-- The function of a round, with its constant. -/
def f (i : Nat) (x y z : UInt32) : UInt32 :=
  if i < 20 then (z ^^^ x &&& (y ^^^ z)) + 0x5a827999
  else if i < 40 then (x ^^^ y ^^^ z) + 0x6ed9eba1
  else if i < 60 then (x &&& y ||| z &&& (x ||| y)) + 0x8f1bbcdc
  else (x ^^^ y ^^^ z) + 0xca62c1d6

structure Words where
  a : UInt32
  b : UInt32
  c : UInt32
  d : UInt32
  e : UInt32
deriving DecidableEq, Repr

/-- The operations `R0` to `R4`. The working variables change their places after each of them. -/
def round : Words × Block → Nat → Words × Block
  | (⟨v, w, x, y, z⟩, block), i =>
    (⟨z + f i w x y + blk block i + rol v 5, v, rol w 30, x, y⟩,
      Function.update block (Fin.ofNat 16 i) (blk block i))

/-- `SHA1Transform`, which leaves the expanded words in the buffer. -/
def sha1Transform (state : Words) (buffer : List UInt8) : Words × List UInt8 :=
  let words : Block := fun i => UInt32.ofNat (ofLe ((buffer.drop (4 * i)).take 4))
  let (last, block) := (range 80).foldl round (state, words)
  (⟨state.a + last.a, state.b + last.b, state.c + last.c, state.d + last.d, state.e + last.e⟩,
    (finRange 16).flatMap fun i => le 4 (block i).toNat)

theorem length_sha1Transform (state : Words) (buffer : List UInt8) :
    (sha1Transform state buffer).2.length = 64 := by
  simp [sha1Transform, length_flatMap, length_le]

/-! ### Contexts -/

structure ShaCtx where
  state : Words
  count0 : Nat
  count1 : Nat
  buffer : List UInt8
deriving DecidableEq, Repr

/-- `A_SHAInit`, which leaves the buffer as it is. -/
def aShaInit (buffer : List UInt8) : ShaCtx :=
  ⟨⟨0x67452301, 0xefcdab89, 0x98badcfe, 0x10325476, 0xc3d2e1f0⟩, 0, 0, buffer⟩

/-- The copies of `A_SHAUpdate`: blocks as long as there are any, and the rest. -/
def absorbLoop (state : Words) (buffer : List UInt8) (bufferContentSize : Fin 64) (bytes : List UInt8) :
    Option (Words × List UInt8) :=
  if _ : (bufferContentSize + bytes.length) % 2 ^ 32 ≥ 64 then do
    let buffer ← store buffer bufferContentSize (bytes.take (64 - bufferContentSize))
    let (state, buffer) := sha1Transform state buffer
    absorbLoop state buffer 0 (bytes.drop (64 - bufferContentSize))
  else do
    let buffer ← store buffer bufferContentSize bytes
    some (state, buffer)
termination_by bytes.length
decreasing_by
  rw [length_drop]
  omega

def aShaUpdate (ctx : ShaCtx) (bytes : List UInt8) : Option ShaCtx := do
  let bufferSize := bytes.length
  let count1 := (ctx.count1 + bufferSize) % 2 ^ 32
  let count0 := if count1 < bufferSize then ctx.count0 + 1 else ctx.count0
  let (state, buffer) ← absorbLoop ctx.state ctx.buffer (Fin.ofNat 64 ctx.count1) bytes
  some ⟨state, (count0 + bufferSize >>> 29) % 2 ^ 32, count1, buffer⟩

def lengthHi (ctx : ShaCtx) : Nat := ctx.count0 <<< 3 % 2 ^ 32 ||| ctx.count1 >>> 29

def lengthLo (ctx : ShaCtx) : Nat := ctx.count1 <<< 3 % 2 ^ 32

/-- `DWORD2BE`: the bytes in the opposite order. -/
def dword2be (x : UInt32) : UInt32 := UInt32.ofNat (ofLe (le 4 x.toNat).reverse)

def aShaFinal (ctx : ShaCtx) : Option (Words × ShaCtx) := do
  let bufferContentSize := ctx.count1 % 64
  let pad := if bufferContentSize ≥ 56 then 56 + 64 - bufferContentSize else 56 - bufferContentSize
  let number n := le 4 (dword2be (UInt32.ofNat n)).toNat
  let ctx ← aShaUpdate ctx (0x80 :: replicate (pad - 1) 0 ++ number (lengthHi ctx) ++ number (lengthLo ctx))
  let ⟨a, b, c, d, e⟩ := ctx.state
  some (⟨dword2be a, dword2be b, dword2be c, dword2be d, dword2be e⟩, aShaInit ctx.buffer)

/-! ### The counter -/

/-- The number of bytes according to the counter. -/
def counted (ctx : ShaCtx) : Nat := ctx.count0 * 2 ^ 32 + ctx.count1

/-- The length in bits that `A_SHAFinal` appends. -/
def appended (ctx : ShaCtx) : Nat := lengthHi ctx * 2 ^ 32 + lengthLo ctx

section Counter

variable {ctx ctx' : ShaCtx} {bytes : List UInt8}

theorem appended_eq (word : ctx.count1 < 2 ^ 32) : appended ctx = 8 * counted ctx % 2 ^ 64 := by
  have high : ctx.count0 <<< 3 % 2 ^ 32 = (ctx.count0 % 2 ^ 29) <<< 3 := by
    rw [shiftLeft_eq, shiftLeft_eq]
    omega
  have low : ctx.count1 >>> 29 < 2 ^ 3 := by
    rw [shiftRight_eq_div_pow]
    omega
  rw [appended, lengthHi, lengthLo, high, ← shiftLeft_add_eq_or_of_lt low, counted]
  simp only [shiftLeft_eq, shiftRight_eq_div_pow]
  omega

/-- **What an update adds to the counter.** -/
theorem counted_aShaUpdate (small : bytes.length < 2 ^ 32) (word : ctx.count1 < 2 ^ 32)
    (done : aShaUpdate ctx bytes = some ctx') : ctx'.count1 < 2 ^ 32 ∧
      counted ctx' = (counted ctx + bytes.length + bytes.length / 2 ^ 29 * 2 ^ 32) % 2 ^ 64 := by
  obtain ⟨⟨state, buffer⟩, -, same⟩ := Option.bind_eq_some_iff.mp done
  cases same
  refine ⟨mod_lt _ (by decide), ?_⟩
  simp only [counted, shiftRight_eq_div_pow]
  split <;> omega

end Counter

/-! ### Updates -/

/-- The state after whole blocks, and the bytes that are left. -/
def absorbed : Words → List UInt8 → Words × List UInt8 :=
  absorb 64 fun state block => (sha1Transform state block).1

/-- **The copies stay in the buffer and absorb the bytes.** -/
theorem absorbLoop_eq (state : Words) {buffer : List UInt8} (whole : buffer.length = 64) (content : Fin 64)
    {bytes : List UInt8} (fits : content + bytes.length < 2 ^ 32) {out : Words × List UInt8}
    (isOut : out = absorbed state (buffer.take content ++ bytes)) :
    ∃ buffer', absorbLoop state buffer content bytes = some (out.1, buffer') ∧ buffer'.length = 64 ∧
      buffer'.take out.2.length = out.2 := by
  induction left : bytes.length using Nat.strongRecOn generalizing state buffer content bytes with
  | _ _ ih =>
    subst left
    have front : (buffer.take content).length = content := by
      rw [length_take]
      omega
    have size : (buffer.take content ++ bytes).length = content + bytes.length := by rw [length_append, front]
    rw [absorbLoop]
    by_cases block : (content + bytes.length) % 2 ^ 32 ≥ 64
    · have long : 64 - content ≤ bytes.length := by omega
      have copied : store buffer content (bytes.take (64 - content)) =
          some ((buffer.take content ++ bytes).take 64) := by
        rw [store, length_take_of_le long, if_pos (by omega), drop_of_length_le (by omega), append_nil,
          take_append, front, take_take, Nat.min_eq_right (by omega)]
      rw [absorbed, absorb_block _ ⟨by decide, by omega⟩, drop_append, front,
        drop_of_length_le (by rw [front]; omega)] at isOut
      have next := length_sha1Transform state ((buffer.take content ++ bytes).take 64)
      rw [dif_pos block, copied, Option.bind_eq_bind, Option.bind_some]
      generalize sha1Transform state ((buffer.take content ++ bytes).take 64) = out' at isOut next ⊢
      exact ih _ (by rw [length_drop]; omega) out'.1 next 0 (by rw [length_drop, Fin.val_zero]; omega) isOut rfl
    · have short : content + bytes.length < 64 := by omega
      rw [absorbed, absorb_short _ (by omega)] at isOut
      rw [dif_neg block, store, if_pos (by omega), isOut]
      refine ⟨_, rfl, ?_, take_left⟩
      rw [length_append, length_drop]
      omega

/-- The context has taken in these bytes: the whole blocks in its state, and the rest in the buffer. -/
structure Tracks (ctx : ShaCtx) (taken : List UInt8) : Prop where
  whole : ctx.buffer.length = 64
  word : ctx.count1 < 2 ^ 32
  counted : counted ctx = taken.length % 2 ^ 64
  absorbed : absorbed (aShaInit []).state taken = (ctx.state, ctx.buffer.take (ctx.count1 % 64))

theorem tracks_aShaInit {buffer : List UInt8} (whole : buffer.length = 64) : Tracks (aShaInit buffer) [] where
  whole := whole
  word := by simp [aShaInit]
  counted := by simp [counted, aShaInit]
  absorbed := by rw [absorbed, absorb_short _ (by decide)]; rfl

/-- **An update of less than 2^29 bytes takes them in.** -/
theorem Tracks.update {ctx : ShaCtx} {taken bytes : List UInt8} (tracks : Tracks ctx taken)
    (small : bytes.length < 2 ^ 29) :
    ∃ ctx', aShaUpdate ctx bytes = some ctx' ∧ Tracks ctx' (taken ++ bytes) := by
  have more : Sha.absorbed (aShaInit []).state (taken ++ bytes) =
      Sha.absorbed ctx.state (ctx.buffer.take (ctx.count1 % 64) ++ bytes) := by
    rw [Sha.absorbed, absorb_append, ← Sha.absorbed, tracks.absorbed]
  have left : (Sha.absorbed (aShaInit []).state (taken ++ bytes)).2.length = (taken ++ bytes).length % 64 :=
    length_absorb (by decide) _ _
  obtain ⟨buffer, copied, whole, rest⟩ := absorbLoop_eq ctx.state tracks.whole (Fin.ofNat 64 ctx.count1)
    (by rw [Fin.val_ofNat]; omega) more
  obtain ⟨ctx', done, isState, isBuffer⟩ : ∃ ctx', aShaUpdate ctx bytes = some ctx' ∧
      ctx'.state = (Sha.absorbed (aShaInit []).state (taken ++ bytes)).1 ∧ ctx'.buffer = buffer :=
    ⟨_, by rw [aShaUpdate, copied]; rfl, rfl, rfl⟩
  have ⟨word, sum⟩ := counted_aShaUpdate (by omega) tracks.word done
  have total : Sha.counted ctx' = (taken ++ bytes).length % 2 ^ 64 := by
    rw [sum, tracks.counted, length_append, div_eq_of_lt small]
    omega
  refine ⟨ctx', done, isBuffer ▸ whole, word, total, ?_⟩
  have content : ctx'.count1 % 64 = (taken ++ bytes).length % 64 := by
    rw [Sha.counted] at total
    omega
  rw [content, isState, isBuffer, ← left]
  exact Prod.ext rfl rest.symm

theorem Tracks.foldlM {chunks : List (List UInt8)} (small : ∀ chunk ∈ chunks, chunk.length < 2 ^ 29)
    {ctx ctx' : ShaCtx} {taken : List UInt8} (tracks : Tracks ctx taken)
    (reached : chunks.foldlM aShaUpdate ctx = some ctx') : Tracks ctx' (taken ++ chunks.flatten) := by
  induction chunks generalizing ctx taken with
  | nil =>
    cases reached
    rwa [flatten_nil, append_nil]
  | cons chunk chunks ih =>
    obtain ⟨next, done, tracks⟩ := tracks.update (small chunk mem_cons_self)
    rw [foldlM_cons, done] at reached
    rw [flatten_cons, ← append_assoc]
    exact ih (fun chunk member => small chunk (mem_cons_of_mem _ member)) tracks reached

/-- Two updates and a single one leave the same state, count and buffered bytes, and the length that is
appended is that of `total` bytes. -/
def Chunked (ctx : ShaCtx) (total : Nat) (a b : List UInt8) : Prop :=
  ∃ split whole, (aShaUpdate ctx a).bind (aShaUpdate · b) = some split ∧ aShaUpdate ctx (a ++ b) = some whole ∧
    split.state = whole.state ∧ (split.count0, split.count1) = (whole.count0, whole.count1) ∧
    split.buffer.take (split.count1 % 64) = whole.buffer.take (whole.count1 % 64) ∧
    appended split = 8 * total % 2 ^ 64 ∧ appended whole = 8 * total % 2 ^ 64

section Chunks

variable {ctx : ShaCtx} {taken a b : List UInt8}

theorem Tracks.chunked (tracks : Tracks ctx taken) (small : a.length + b.length < 2 ^ 29) :
    Chunked ctx (taken.length + a.length + b.length) a b := by
  obtain ⟨next, first, between⟩ := tracks.update (show a.length < 2 ^ 29 by omega)
  obtain ⟨split, second, apart⟩ := between.update (show b.length < 2 ^ 29 by omega)
  obtain ⟨whole, single, together⟩ := tracks.update (show (a ++ b).length < 2 ^ 29 by rw [length_append]; omega)
  rw [append_assoc] at apart
  have ⟨isState, isBuffer⟩ := Prod.mk.inj (apart.absorbed.symm.trans together.absorbed)
  have length {ctx} (tracks : Tracks ctx (taken ++ (a ++ b))) :
      appended ctx = 8 * (taken.length + a.length + b.length) % 2 ^ 64 := by
    rw [appended_eq tracks.word, tracks.counted, length_append, length_append]
    omega
  refine ⟨split, whole, by rw [first]; exact second, single, isState, ?_, isBuffer, length apart,
    length together⟩
  have same := apart.counted.trans together.counted.symm
  have := apart.word
  have := together.word
  rw [Sha.counted, Sha.counted] at same
  exact Prod.ext (by simp only; omega) (by simp only; omega)

/-- From 2^29 bytes on, the carry of a bit counter makes the length wrong. -/
theorem Tracks.not_chunked (tracks : Tracks ctx taken) (sum : a.length + b.length < 2 ^ 32)
    (large : 2 ^ 29 ≤ a.length + b.length) : ¬ Chunked ctx (taken.length + a.length + b.length) a b := by
  rintro ⟨split, whole, -, single, -, -, -, -, length⟩
  have ⟨word, wrong⟩ := counted_aShaUpdate (by rwa [length_append]) tracks.word single
  rw [appended_eq word, wrong, tracks.counted, length_append] at length
  omega

/-- **Cutting an update in two changes nothing, and the length is right, exactly for less than 2^29 bytes.** -/
theorem aShaUpdate_append_iff {buffer : List UInt8} {chunks : List (List UInt8)} (initial : buffer.length = 64)
    (small : ∀ chunk ∈ chunks, chunk.length < 2 ^ 29)
    (reached : chunks.foldlM aShaUpdate (aShaInit buffer) = some ctx) (sum : a.length + b.length < 2 ^ 32) :
    Chunked ctx (chunks.flatten.length + a.length + b.length) a b ↔ a.length + b.length < 2 ^ 29 := by
  have tracks := (tracks_aShaInit initial).foldlM small reached
  rw [nil_append] at tracks
  exact ⟨fun chunked => Nat.not_le.mp fun large => tracks.not_chunked sum large chunked, tracks.chunked⟩

/-- Behind two updates that have filled a block: two more that end in different blocks. -/
theorem aShaUpdate_append_blocks : ∃ ctx,
    [replicate 3 1, replicate 70 2].foldlM aShaUpdate (aShaInit (replicate 64 0)) = some ctx ∧
      Chunked ctx 273 (replicate 100 3) (replicate 100 4) := by
  obtain ⟨first, one, tracks⟩ := (tracks_aShaInit length_replicate).update
    (show (replicate 3 1).length < 2 ^ 29 by decide)
  obtain ⟨ctx, two, -⟩ := tracks.update (show (replicate 70 2).length < 2 ^ 29 by decide)
  have reached : [replicate 3 1, replicate 70 2].foldlM aShaUpdate (aShaInit (replicate 64 0)) = some ctx := by
    rw [foldlM_cons, one, Option.bind_eq_bind, Option.bind_some, foldlM_cons, two]
    rfl
  exact ⟨ctx, reached,
    (aShaUpdate_append_iff length_replicate (by decide) reached (by decide)).mpr (by decide)⟩

/-- Two updates of 2^28 bytes are counted as 2^29 bytes, and a single one as 2^32 more. -/
theorem aShaUpdate_append_large :
    ¬ Chunked (aShaInit (replicate 64 0)) (2 ^ 29) (replicate (2 ^ 28) 0) (replicate (2 ^ 28) 0) := by
  intro chunked
  have half : (replicate (2 ^ 28) (0 : UInt8)).length = 2 ^ 28 := length_replicate
  exact (tracks_aShaInit length_replicate).not_chunked (by rw [half]; decide) (by rw [half]; decide)
    (by rw [half]; exact chunked)

end Chunks

/-! ### The digest -/

/-- The padding behind a message: a bit, zeros up to the end of a block, and the two words of the length
in bits. -/
def padding (length : Nat) : List UInt8 :=
  let number n := le 4 (dword2be (UInt32.ofNat n)).toNat
  0x80 :: replicate ((119 - length % 64) % 64) 0 ++ number (8 * length % 2 ^ 64 / 2 ^ 32) ++
    number (8 * length % 2 ^ 32)

def digest (message : List UInt8) : Words :=
  let ⟨a, b, c, d, e⟩ := (absorbed (aShaInit []).state (message ++ padding message.length)).1
  ⟨dword2be a, dword2be b, dword2be c, dword2be d, dword2be e⟩

theorem Tracks.aShaFinal {ctx : ShaCtx} {taken : List UInt8} (tracks : Tracks ctx taken) :
    ∃ buffer, aShaFinal ctx = some (digest taken, aShaInit buffer) := by
  have counted := tracks.counted
  have content : ctx.count1 % 64 = taken.length % 64 := by
    rw [Sha.counted] at counted
    omega
  have zeros : (if ctx.count1 % 64 ≥ 56 then 56 + 64 - ctx.count1 % 64 else 56 - ctx.count1 % 64) - 1 =
      (119 - taken.length % 64) % 64 := by
    rw [content]
    split <;> omega
  have words : lengthHi ctx = 8 * taken.length % 2 ^ 64 / 2 ^ 32 ∧
      lengthLo ctx = 8 * taken.length % 2 ^ 32 := by
    have low : lengthLo ctx < 2 ^ 32 := mod_lt _ (by decide)
    have length := appended_eq tracks.word
    rw [counted, appended] at length
    omega
  obtain ⟨ctx', done, last⟩ := tracks.update (show (padding taken.length).length < 2 ^ 29 by
    simp only [padding, length_append, length_cons, length_replicate, length_le]
    omega)
  refine ⟨ctx'.buffer, ?_⟩
  rw [Sha.aShaFinal, zeros, words.1, words.2]
  change (aShaUpdate ctx (padding taken.length)).bind _ = _
  rw [done, digest, last.absorbed]
  rfl

/-- **The digest** after updates of less than 2^29 bytes is that of the whole message. -/
theorem aShaFinal_of_updates {ctx : ShaCtx} {buffer : List UInt8} {chunks : List (List UInt8)}
    (initial : buffer.length = 64) (small : ∀ chunk ∈ chunks, chunk.length < 2 ^ 29)
    (reached : chunks.foldlM aShaUpdate (aShaInit buffer) = some ctx) :
    ∃ buffer', aShaFinal ctx = some (digest chunks.flatten, aShaInit buffer') :=
  ((tracks_aShaInit initial).foldlM small reached).aShaFinal

end FreeWindows.Rtl.Sha
