import AosKernel.Lib.Sha256
import AosKernel.Lib.Loop

/-!
# The kernel's SHA-256

`sha256_init`, `sha256_update` and `sha256_final` of `kernel/credentials.c`, with the compression
function `sha256_transform`. The context keeps the bytes of the unfinished block, so a message may
be passed in any number of pieces; `digest_eq_hash` says that the pieces do not show in the
digest. -/

namespace AosKernel.Credentials

open Lib Lib.Loop Sha256 UInt64

/-! ## Words -/

def sha256K : List UInt32 :=
  [0x428a2f98, 0x71374491, 0xb5c0fbcf, 0xe9b5dba5, 0x3956c25b, 0x59f111f1, 0x923f82a4, 0xab1c5ed5,
    0xd807aa98, 0x12835b01, 0x243185be, 0x550c7dc3, 0x72be5d74, 0x80deb1fe, 0x9bdc06a7, 0xc19bf174,
    0xe49b69c1, 0xefbe4786, 0x0fc19dc6, 0x240ca1cc, 0x2de92c6f, 0x4a7484aa, 0x5cb0a9dc, 0x76f988da,
    0x983e5152, 0xa831c66d, 0xb00327c8, 0xbf597fc7, 0xc6e00bf3, 0xd5a79147, 0x06ca6351, 0x14292967,
    0x27b70a85, 0x2e1b2138, 0x4d2c6dfc, 0x53380d13, 0x650a7354, 0x766a0abb, 0x81c2c92e, 0x92722c85,
    0xa2bfe8a1, 0xa81a664b, 0xc24b8b70, 0xc76c51a3, 0xd192e819, 0xd6990624, 0xf40e3585, 0x106aa070,
    0x19a4c116, 0x1e376c08, 0x2748774c, 0x34b0bcb5, 0x391c0cb3, 0x4ed8aa4a, 0x5b9cca4f, 0x682e6ff3,
    0x748f82ee, 0x78a5636f, 0x84c87814, 0x8cc70208, 0x90befffa, 0xa4506ceb, 0xbef9a3f7, 0xc67178f2]

def loadBe32 (bytes : List UInt8) (offset : Nat) : UInt32 :=
  ((bytes.getD offset 0).toUInt32 <<< 24) ||| ((bytes.getD (offset + 1) 0).toUInt32 <<< 16) |||
    ((bytes.getD (offset + 2) 0).toUInt32 <<< 8) ||| (bytes.getD (offset + 3) 0).toUInt32

def storeBe32 (value : UInt32) : List UInt8 :=
  [(value >>> 24).toUInt8, (value >>> 16).toUInt8, (value >>> 8).toUInt8, value.toUInt8]

def rotateRight (value count : UInt32) : UInt32 := (value >>> count) ||| (value <<< (32 - count))

/-! ## The context -/

structure Sha256Ctx where
  state : Sha256.State
  totalLen : UInt64
  block : Vector UInt8 64
  blockLen : Nat

/-- The second loop of `sha256_transform`: word `i` from the words before it. -/
def scheduleWord (i : Nat) (words : List UInt32) : UInt32 :=
  let w15 := words.getD (i - 15) 0
  let w2 := words.getD (i - 2) 0
  let s0 := rotateRight w15 7 ^^^ rotateRight w15 18 ^^^ (w15 >>> 3)
  let s1 := rotateRight w2 17 ^^^ rotateRight w2 19 ^^^ (w2 >>> 10)
  words.getD (i - 16) 0 + s0 + words.getD (i - 7) 0 + s1

/-- The first two loops of `sha256_transform`. -/
def scheduleWords (block : List UInt8) : List UInt32 :=
  forEach (fun i words => words ++ [scheduleWord i words]) 48 16
    ((List.range 16).map fun i => loadBe32 block (i * 4))

/-- One iteration of the last loop of `sha256_transform`. -/
def transformRound (words : List UInt32) (i : Nat) (s : Sha256.State) : Sha256.State :=
  let sum1 := rotateRight s.e 6 ^^^ rotateRight s.e 11 ^^^ rotateRight s.e 25
  let choose := (s.e &&& s.f) ^^^ (~~~s.e &&& s.g)
  let temp1 := s.h + sum1 + choose + sha256K.getD i 0 + words.getD i 0
  let sum0 := rotateRight s.a 2 ^^^ rotateRight s.a 13 ^^^ rotateRight s.a 22
  let majority := (s.a &&& s.b) ^^^ (s.a &&& s.c) ^^^ (s.b &&& s.c)
  let temp2 := sum0 + majority
  ⟨temp1 + temp2, s.a, s.b, s.c, s.d + temp1, s.e, s.f, s.g⟩

def sha256Transform (block : List UInt8) (ctx : Sha256Ctx) : Sha256Ctx :=
  let words := scheduleWords block
  { ctx with state := ctx.state.add (forEach (transformRound words) 64 0 ctx.state) }

variable (ctx : Sha256Ctx)

/-- `sha256_init`; the block keeps what the memory of the context holds. -/
def sha256Init : Sha256Ctx :=
  { ctx with
    state := ⟨0x6a09e667, 0xbb67ae85, 0x3c6ef372, 0xa54ff53a, 0x510e527f, 0x9b05688c, 0x1f83d9ab,
      0x5be0cd19⟩
    totalLen := 0
    blockLen := 0 }

/-- `ctx->block[ctx->block_len++] = b`. -/
def putByte (b : UInt8) (ctx : Sha256Ctx) : Sha256Ctx :=
  { ctx with block := ctx.block.setIfInBounds ctx.blockLen b, blockLen := ctx.blockLen + 1 }

def updateByte (b : UInt8) : Sha256Ctx :=
  let ctx := putByte b ctx
  if ctx.blockLen = 64 then { sha256Transform ctx.block.toList ctx with blockLen := 0 } else ctx

def sha256Update (data : List UInt8) : Sha256Ctx :=
  data.foldl updateByte { ctx with totalLen := ctx.totalLen + UInt64.ofNat data.length }

/-- `while (ctx->block_len < limit) ctx->block[ctx->block_len++] = 0`. -/
def zeroFill (limit : Nat) (ctx : Sha256Ctx) : Sha256Ctx :=
  forEach (fun _ => putByte 0) (limit - ctx.blockLen) ctx.blockLen ctx

/-- The loop of `sha256_final` that stores the length. -/
def putLength (bitLen : UInt64) (ctx : Sha256Ctx) : Sha256Ctx :=
  forEach (fun i ctx => { ctx with
    block := ctx.block.setIfInBounds (56 + i) (bitLen >>> UInt64.ofNat (56 - i * 8)).toUInt8 })
    8 0 ctx

/-- A context after `credentials_wipe`. -/
def Sha256Ctx.wiped : Sha256Ctx := ⟨⟨0, 0, 0, 0, 0, 0, 0, 0⟩, 0, Vector.replicate 64 0, 0⟩

def sha256Final : List UInt8 × Sha256Ctx :=
  let bitLen := ctx.totalLen * 8
  let ctx := putByte 0x80 ctx
  let ctx :=
    if 56 < ctx.blockLen then
      let ctx := zeroFill 64 ctx
      { sha256Transform ctx.block.toList ctx with blockLen := 0 }
    else ctx
  let ctx := putLength bitLen (zeroFill 56 ctx)
  let ctx := sha256Transform ctx.block.toList ctx
  (ctx.state.words.flatMap storeBe32, .wiped)

/-- The digest of a message that is passed in pieces, in a context with any contents. -/
def digest (pieces : List (List UInt8)) : List UInt8 :=
  (sha256Final (pieces.foldl sha256Update (sha256Init ctx))).1

/-! ## Bytes and words -/

lemma toNat_toUInt32_shift (b : UInt8) (n : UInt32) (h : n.toNat ≤ 24) :
    (b.toUInt32 <<< n).toNat = b.toNat <<< n.toNat := by
  have hb : b.toNat < 2 ^ 8 := b.toNat_lt
  have hn : n.toNat % 32 = n.toNat := Nat.mod_eq_of_lt (by omega)
  rw [UInt32.toNat_shiftLeft, UInt8.toNat_toUInt32, hn, Nat.mod_eq_of_lt]
  rw [Nat.shiftLeft_eq]
  calc b.toNat * 2 ^ n.toNat < 2 ^ 8 * 2 ^ n.toNat :=
        Nat.mul_lt_mul_of_pos_right hb (Nat.two_pow_pos _)
    _ ≤ 2 ^ 8 * 2 ^ 24 := Nat.mul_le_mul_left _ (Nat.pow_le_pow_right (by decide) h)
    _ = 2 ^ 32 := by decide

lemma word_of_bytes (a b c d : UInt8) :
    (a.toUInt32 <<< 24) ||| (b.toUInt32 <<< 16) ||| (c.toUInt32 <<< 8) ||| d.toUInt32 =
      UInt32.ofNat (beNat [a, b, c, d]) := by
  have ha := a.toNat_lt
  have hb := b.toNat_lt
  have hc := c.toNat_lt
  have hd := d.toNat_lt
  have hnat : beNat [a, b, c, d] =
      a.toNat <<< 24 + (b.toNat <<< 16 + (c.toNat <<< 8 + d.toNat)) := by
    simp only [beNat, List.reverse_cons, List.reverse_nil, List.nil_append, List.cons_append,
      leNat, Nat.shiftLeft_eq]
    omega
  apply UInt32.toNat_inj.1
  rw [UInt32.toNat_ofNat', hnat, Nat.mod_eq_of_lt (by simp only [Nat.shiftLeft_eq]; omega)]
  simp only [UInt32.toNat_or, UInt8.toNat_toUInt32]
  rw [toNat_toUInt32_shift a 24 (by decide), toNat_toUInt32_shift b 16 (by decide),
    toNat_toUInt32_shift c 8 (by decide), Nat.or_assoc, Nat.or_assoc]
  have h8 : (8 : UInt32).toNat = 8 := rfl
  have h16 : (16 : UInt32).toNat = 16 := rfl
  have h24 : (24 : UInt32).toNat = 24 := rfl
  have hcd : c.toNat <<< 8 + d.toNat < 2 ^ 16 := by
    omega
  have hbcd : b.toNat <<< 16 + (c.toNat <<< 8 + d.toNat) < 2 ^ 24 := by
    omega
  rw [h8, h16, h24, ← Nat.shiftLeft_add_eq_or_of_lt hd, ← Nat.shiftLeft_add_eq_or_of_lt hcd,
    ← Nat.shiftLeft_add_eq_or_of_lt hbcd]

variable {block : List UInt8}

lemma loadBe32_eq {t : Nat} (h : 4 * t + 4 ≤ block.length) :
    loadBe32 block (t * 4) = blockWord block t := by
  have hbytes : (block.drop (4 * t)).take 4 = [block.getD (t * 4) 0, block.getD (t * 4 + 1) 0,
      block.getD (t * 4 + 2) 0, block.getD (t * 4 + 3) 0] := by
    apply List.ext_getElem
    · simp
      omega
    · intro i h1 h2
      simp only [List.length_cons, List.length_nil] at h2
      have hi : i = 0 ∨ i = 1 ∨ i = 2 ∨ i = 3 := by omega
      rcases hi with rfl | rfl | rfl | rfl <;>
        simp only [List.getElem_take, List.getElem_drop, List.getElem_cons_zero,
          List.getElem_cons_succ] <;>
        rw [List.getD_eq_getElem?_getD, List.getElem?_eq_getElem (by omega), Option.getD_some] <;>
        congr 1 <;> omega
  rw [blockWord, hbytes]
  exact word_of_bytes _ _ _ _

lemma storeBe32_eq (w : UInt32) : storeBe32 w = beBytes 4 w.toNat := by
  simp only [storeBe32, beBytes, leBytes, List.reverse_cons, List.reverse_nil, List.nil_append,
    List.cons_append, List.cons.injEq, and_true]
  refine ⟨?_, ?_, ?_, ?_⟩ <;> apply UInt8.toNat_inj.1 <;>
    simp [Nat.shiftRight_eq_div_pow, Nat.div_div_eq_div_mul]

/-! ## The compression function -/

lemma add_reverse (a b c d : UInt32) : a + b + c + d = d + c + b + a := by
  ac_rfl

lemma scheduleWord_eq (block : List UInt8) {i : Nat} (h : 16 ≤ i) :
    scheduleWord i ((List.range i).map (schedule block)) = schedule block i := by
  have hget : ∀ j, j < i →
      ((List.range i).map (schedule block)).getD j 0 = schedule block j := by
    intro j hj
    simp [List.getD_eq_getElem?_getD, hj]
  rw [scheduleWord, hget _ (by omega), hget _ (by omega), hget _ (by omega), hget _ (by omega),
    schedule_of_le block h]
  exact add_reverse _ _ _ _

lemma scheduleWords_eq (h : block.length = 64) :
    scheduleWords block = (List.range 64).map (schedule block) := by
  refine forEach_inv _ (P := fun i words => words = (List.range i).map (schedule block))
    48 16 _ ?_ fun i words h1 _ hwords => ?_
  · refine List.map_congr_left fun t ht => ?_
    have ht : t < 16 := List.mem_range.1 ht
    rw [loadBe32_eq (by omega), schedule_of_lt block ht]
  · rw [hwords, scheduleWord_eq block h1, List.range_succ, List.map_append]
    rfl

lemma sha256K_eq : ∀ t < 64, sha256K.getD t 0 = roundConstant t := by
  decide +kernel

lemma transformRound_eq (block : List UInt8) {t : Nat} (h : t < 64) (s : Sha256.State) :
    transformRound ((List.range 64).map (schedule block)) t s =
      round (roundConstant t) (schedule block t) s := by
  have hget : ((List.range 64).map (schedule block)).getD t 0 = schedule block t := by
    simp [List.getD_eq_getElem?_getD, h]
  rw [transformRound, hget, sha256K_eq t h]
  rfl

lemma sha256Transform_eq (h : block.length = 64) (ctx : Sha256Ctx) :
    sha256Transform block ctx = { ctx with state := compress ctx.state block } := by
  have hrounds : forEach (transformRound (scheduleWords block)) 64 0 ctx.state =
      rounds block 64 ctx.state := by
    rw [scheduleWords_eq h]
    refine forEach_inv _ (P := fun i s => s = rounds block i ctx.state) 64 0 _ rfl
      fun i s _ hi hs => ?_
    rw [hs, transformRound_eq block (by omega)]
    rfl
  rw [sha256Transform, hrounds]
  rfl

/-! ## The unfinished block -/

/-- The context holds the chaining value `s` and the bytes `buf` of an unfinished block. -/
structure Sha256Ctx.Holds (ctx : Sha256Ctx) (s : Sha256.State) (buf : List UInt8) : Prop where
  state : ctx.state = s
  blockLen : ctx.blockLen = buf.length
  block : ctx.block.toList.take buf.length = buf

variable {buf : List UInt8}

lemma take_setIfInBounds {block : Vector UInt8 64} (b : UInt8)
    (h : block.toList.take buf.length = buf) (hlt : buf.length < 64) :
    (block.setIfInBounds buf.length b).toList.take (buf ++ [b]).length = buf ++ [b] := by
  have hlen : block.toList.length = 64 := by simp
  have hset : (block.setIfInBounds buf.length b).toList = block.toList.set buf.length b := by
    simp
  rw [hset, List.length_append, List.length_singleton, List.take_add_one, List.take_set_of_le,
    h, List.getElem?_set_self (by omega)]
  · rfl
  · exact le_refl _

section Buffer

variable {ctx : Sha256Ctx} {s : Sha256.State} {buf : List UInt8}

lemma Sha256Ctx.Holds.putByte (h : ctx.Holds s buf) (b : UInt8) (hlt : buf.length < 64) :
    (Credentials.putByte b ctx).Holds s (buf ++ [b]) where
  state := h.state
  blockLen := by simp [Credentials.putByte, h.blockLen]
  block := by
    simp only [Credentials.putByte, h.blockLen]
    exact take_setIfInBounds b h.block hlt

lemma Sha256Ctx.Holds.zeroFill (h : ctx.Holds s buf) {limit : Nat} (hlimit : limit ≤ 64)
    (hle : buf.length ≤ limit) :
    (Credentials.zeroFill limit ctx).Holds s (buf ++ zeroBytes (limit - buf.length)) := by
  have hfill := forEach_inv (fun _ => Credentials.putByte 0)
    (P := fun i ctx => ctx.Holds s (buf ++ zeroBytes (i - buf.length)))
    (limit - buf.length) buf.length ctx (by simpa [zeroBytes] using h) fun i ctx h1 h2 hctx => by
      have hnext := hctx.putByte 0 (by simp; omega)
      have hrep : i + 1 - buf.length = (i - buf.length) + 1 := by omega
      rw [hrep, zeroBytes, List.replicate_succ', ← List.append_assoc]
      exact hnext
  rw [Nat.add_sub_cancel' hle] at hfill
  rw [Credentials.zeroFill, h.blockLen]
  exact hfill

lemma Sha256Ctx.Holds.transform (h : ctx.Holds s buf) (hfull : buf.length = 64) :
    ({ sha256Transform ctx.block.toList ctx with blockLen := 0 } : Sha256Ctx).Holds
      (compress s buf) [] := by
  have hblock : ctx.block.toList = buf := by
    have hb := h.block
    rwa [hfull, List.take_of_length_le (by simp)] at hb
  rw [sha256Transform_eq (by simp), hblock]
  exact ⟨congrArg (compress · buf) h.state, rfl, rfl⟩

end Buffer

/-! ## Updates -/

/-- The context after the message: its whole blocks are hashed, the rest is in the block, and the
length is counted in 64 bits. -/
structure Sha256Ctx.After (ctx : Sha256Ctx) (message : List UInt8) : Prop where
  streams : ∃ s buf, ctx.Holds s buf ∧
    BlockHash.Streams 64 Sha256.compress Sha256.initial message s buf
  totalLen : ctx.totalLen = UInt64.ofNat message.length

lemma sha256Init_after : (sha256Init ctx).After [] where
  streams := by
    refine ⟨initial, [], ⟨?_, rfl, rfl⟩, .nil (by decide)⟩
    have hinitial : initial = ⟨0x6a09e667, 0xbb67ae85, 0x3c6ef372, 0xa54ff53a, 0x510e527f,
        0x9b05688c, 0x1f83d9ab, 0x5be0cd19⟩ := by decide +kernel
    exact hinitial.symm
  totalLen := rfl

variable {message : List UInt8} {s : Sha256.State} {ctx : Sha256Ctx}

lemma updateByte_streams (b : UInt8) (hctx : ctx.Holds s buf)
    (h : BlockHash.Streams 64 compress initial message s buf) :
    ∃ s' buf', (updateByte ctx b).Holds s' buf' ∧
      BlockHash.Streams 64 compress initial (message ++ [b]) s' buf' := by
  have hlt : buf.length < 64 := by
    obtain ⟨-, -, -, hlt, -⟩ := h
    exact hlt
  have hput := hctx.putByte b hlt
  have hlen : (putByte b ctx).blockLen = buf.length + 1 := by simpa using hput.blockLen
  by_cases hfull : buf.length + 1 = 64
  · have hupdate : updateByte ctx b =
        { sha256Transform (putByte b ctx).block.toList (putByte b ctx) with blockLen := 0 } :=
      if_pos (hlen.trans hfull)
    rw [hupdate]
    exact ⟨compress s (buf ++ [b]), [], hput.transform (by simpa using hfull),
      h.push_full b hfull⟩
  · have hupdate : updateByte ctx b = putByte b ctx :=
      if_neg fun hf => hfull (hlen.symm.trans hf)
    rw [hupdate]
    exact ⟨s, buf ++ [b], hput, h.push_short b (by omega)⟩

lemma updateByte_totalLen (ctx : Sha256Ctx) (b : UInt8) :
    (updateByte ctx b).totalLen = ctx.totalLen := by
  unfold updateByte sha256Transform
  dsimp only
  split
  · rfl
  · rfl

lemma updateBytes_streams (data : List UInt8)
    (h : ∃ s buf, ctx.Holds s buf ∧ BlockHash.Streams 64 compress initial message s
      buf) :
    (∃ s buf, (data.foldl updateByte ctx).Holds s buf ∧
      BlockHash.Streams 64 compress initial (message ++ data) s buf) ∧
    (data.foldl updateByte ctx).totalLen = ctx.totalLen := by
  induction data generalizing ctx message with
  | nil => exact ⟨by simpa using h, rfl⟩
  | cons b data ih =>
    obtain ⟨s, buf, hctx, hs⟩ := h
    obtain ⟨hrest, hlen⟩ := ih (updateByte_streams b hctx hs)
    rw [List.append_assoc, List.singleton_append] at hrest
    exact ⟨hrest, hlen.trans (updateByte_totalLen ctx b)⟩

lemma sha256Update_after (h : ctx.After message) (data : List UInt8) :
    (sha256Update ctx data).After (message ++ data) := by
  obtain ⟨⟨s, buf, hctx, hs⟩, htotal⟩ := h
  have hstart : ({ ctx with totalLen := ctx.totalLen + ofNat data.length } :
      Sha256Ctx).Holds s buf := ⟨hctx.state, hctx.blockLen, hctx.block⟩
  obtain ⟨hstreams, hlen⟩ := updateBytes_streams data ⟨s, buf, hstart, hs⟩
  refine ⟨hstreams, hlen.trans ?_⟩
  simp [htotal, ofNat_add]

lemma updates_after (h : ctx.After message) (pieces : List (List UInt8)) :
    (pieces.foldl sha256Update ctx).After (message ++ pieces.flatten) := by
  induction pieces generalizing ctx message with
  | nil => simpa using h
  | cons piece pieces ih =>
    have hrest := ih (sha256Update_after h piece)
    rwa [List.append_assoc] at hrest

/-! ## The end -/

variable (length : Nat)

lemma lengthBytes_eq :
    ((List.range 8).map fun i =>
      ((ofNat length * 8) >>> ofNat (56 - i * 8)).toUInt8) =
      beBytes 8 (8 * length) := by
  have hbits : ofNat length * 8 = ofNat (8 * length) := by
    rw [mul_comm, ofNat_mul]
    rfl
  simp only [beBytes, leBytes, List.reverse_cons, List.reverse_nil, List.nil_append,
    List.cons_append, List.range, List.range.loop, List.map_cons, List.map_nil, List.cons.injEq,
    and_true]
  refine ⟨?_, ?_, ?_, ?_, ?_, ?_, ?_, ?_⟩ <;> apply UInt8.toNat_inj.1 <;>
    simp [Nat.shiftRight_eq_div_pow, Nat.div_div_eq_div_mul] <;> omega

lemma putLength_holds (h : ctx.Holds s buf) (hlen : buf.length = 56) :
    (putLength (ofNat length * 8) ctx).state = s ∧
      (putLength (ofNat length * 8) ctx).block.toList = buf ++ beBytes 8 (8 * length) := by
  have hloop := forEach_inv (fun i (ctx : Sha256Ctx) => { ctx with
      block := ctx.block.setIfInBounds (56 + i)
        ((ofNat length * 8) >>> ofNat (56 - i * 8)).toUInt8 })
    (P := fun i ctx => ctx.state = s ∧
      let written := buf ++ (List.range i).map fun i =>
        ((ofNat length * 8) >>> ofNat (56 - i * 8)).toUInt8
      ctx.block.toList.take written.length = written)
    8 0 ctx ⟨h.state, by simpa using h.block⟩ fun i ctx _ hi hctx => by
      refine ⟨hctx.1, ?_⟩
      have hnext := take_setIfInBounds
        ((ofNat length * 8) >>> ofNat (56 - i * 8)).toUInt8 hctx.2
        (by simp [hlen]; omega)
      rw [List.range_succ, List.map_append, ← List.append_assoc]
      simpa [hlen, add_assoc] using hnext
  refine ⟨hloop.1, ?_⟩
  have hblock := hloop.2
  dsimp only at hblock
  rw [show 0 + 8 = 8 from rfl, lengthBytes_eq] at hblock
  rw [List.take_of_length_le (by simp [hlen])] at hblock
  exact hblock

/-- The last block: zeros up to the length field, then the length. -/
lemma lastBlock_eq (h : ctx.Holds s buf) (hle : buf.length ≤ 56) :
    (sha256Transform
        (putLength (ofNat length * 8) (zeroFill 56 ctx)).block.toList
        (putLength (ofNat length * 8) (zeroFill 56 ctx))).state =
      compress s (buf ++ zeroBytes (56 - buf.length) ++ beBytes 8 (8 * length)) := by
  obtain ⟨hstate, hblock⟩ := putLength_holds length (h.zeroFill (by decide) hle) (by simp; omega)
  rw [sha256Transform_eq (by simp), hblock, hstate]

lemma sha256Final_eq (h : ctx.After message) : (sha256Final ctx).1 = Sha256.hash message := by
  obtain ⟨⟨s, buf, hctx, hs⟩, htotal⟩ := h
  have hmod : buf.length = message.length % 64 := hs.buf_length
  have hlt : buf.length < 64 := hmod ▸ Nat.mod_lt _ (by decide)
  have hput := hctx.putByte 0x80 hlt
  have hstore : ∀ t : Sha256.State, t.words.flatMap storeBe32 = t.bytes :=
    fun t => congrArg (List.flatMap · t.words) (funext storeBe32_eq)
  unfold sha256Final Sha256.hash
  dsimp only
  rw [hstore, htotal, hs.absorb_append]
  by_cases hlong : 56 < (buf ++ [0x80]).length
  · -- The length does not fit behind the marker: one block of zeros is full before the last one.
    have hfill := hput.zeroFill (by decide) (by simp; omega : (buf ++ [0x80]).length ≤ 64)
    rw [if_pos (by rw [hput.blockLen]; exact hlong),
      lastBlock_eq message.length (hfill.transform (by simp; omega)) (by decide)]
    have hpad : buf ++ Sha256.padding message.length =
        (buf ++ [0x80] ++ zeroBytes (64 - (buf ++ [0x80]).length)) ++
          (zeroBytes 56 ++ beBytes 8 (8 * message.length)) := by
      have hzeros : Sha256.zeroCount message.length = (64 - (buf ++ [0x80]).length) + 56 := by
        simp only [List.length_append, List.length_singleton] at hlong ⊢
        rw [Sha256.zeroCount, ← hmod]
        omega
      rw [Sha256.padding, hzeros]
      simp [zeroBytes, List.replicate_add]
    have hfull : List.length
        (buf ++ [(0x80 : UInt8)] ++ zeroBytes (64 - (buf ++ [(0x80 : UInt8)]).length)) = 64 := by
      simp only [List.length_append, List.length_singleton, zeroBytes_length]
      omega
    rw [hpad, BlockHash.absorb_append (by decide) (dvd_of_eq hfull.symm),
      BlockHash.absorb_block (by decide) hfull, BlockHash.absorb_block (by decide) (by simp)]
    simp
  · rw [if_neg (by rw [hput.blockLen]; exact hlong), lastBlock_eq message.length hput (by omega)]
    have hpad : buf ++ Sha256.padding message.length =
        buf ++ [0x80] ++ zeroBytes (56 - (buf ++ [0x80]).length) ++
          beBytes 8 (8 * message.length) := by
      have hzeros : Sha256.zeroCount message.length = 56 - (buf ++ [0x80]).length := by
        simp only [List.length_append, List.length_singleton] at hlong ⊢
        rw [Sha256.zeroCount, ← hmod]
        omega
      rw [Sha256.padding, hzeros]
      simp
    rw [hpad, BlockHash.absorb_block (by decide) (by
      simp only [List.length_append, List.length_singleton, zeroBytes_length, beBytes_length]
        at hlong ⊢
      omega)]

/-- The digest does not depend on how the message is cut. -/
theorem digest_eq_hash (ctx : Sha256Ctx) (pieces : List (List UInt8)) :
    digest ctx pieces = Sha256.hash pieces.flatten :=
  sha256Final_eq (updates_after (sha256Init_after ctx) pieces)

end AosKernel.Credentials
