import AosKernel.Lib.LittleEndian
import Mathlib.Tactic
import Mathlib.Data.Nat.NthRoot.Defs

/-!
# Hashing by blocks, SHA-256, HMAC and PBKDF2

A compression function consumes a message block by block: `absorb` runs it over the whole blocks of
a list. A streaming hash keeps the chaining value of the whole blocks and the bytes of the
unfinished one (`Streams`); `Streams.push_short` and `Streams.push_full` are its two steps, and
`Streams.absorb_append` says what is left to do at the end.

Over it the hash function of FIPS 180-4, with a length field of 64 bits, so that `hash` is defined
for messages of any length, HMAC of RFC 2104 over an arbitrary hash function, and PBKDF2 of RFC 8018
over an arbitrary pseudorandom function.
-/

namespace AosKernel.Lib.BlockHash

open List

universe u v

variable {α : Type u} {σ : Type v}

/-- The chaining value after the whole blocks of `xs`; the rest of `xs` is not looked at. -/
def absorb (size : Nat) (compress : σ → List α → σ) (s : σ) (xs : List α) : σ :=
  (range (xs.length / size)).foldl (fun s i => compress s ((xs.drop (size * i)).take size)) s

variable {size : Nat} {compress : σ → List α → σ} {s : σ} {xs ys : List α}

lemma absorb_short (h : xs.length < size) : absorb size compress s xs = s := by
  simp [absorb, Nat.div_eq_of_lt h]

lemma absorb_block (hpos : 0 < size) (h : xs.length = size) :
    absorb size compress s xs = compress s xs := by
  simp [absorb, h, Nat.div_self hpos, take_of_length_le]

theorem absorb_append (hpos : 0 < size) (h : size ∣ xs.length) :
    absorb size compress s (xs ++ ys) = absorb size compress (absorb size compress s xs) ys := by
  obtain ⟨n, hn⟩ := h
  have hblocks : (xs ++ ys).length / size = n + ys.length / size := by
    rw [length_append, hn, Nat.mul_add_div hpos]
  have hxs : xs.length / size = n := by rw [hn, Nat.mul_div_cancel_left n hpos]
  unfold absorb
  rw [hblocks, hxs, range_add, foldl_append, foldl_map]
  congr 1
  · -- A block of the rest lies behind the blocks of `xs`.
    funext s i
    have hdrop : size * (n + i) = xs.length + size * i := by rw [hn, mul_add]
    rw [hdrop, drop_append, drop_eq_nil_of_le (Nat.le_add_right ..)]
    simp
  · -- A block of `xs` is not touched by what follows.
    refine foldl_ext _ _ _ fun s i hi => ?_
    have hlt : size * i + size ≤ xs.length := by
      rw [hn, ← Nat.mul_succ]
      exact Nat.mul_le_mul_left size (mem_range.1 hi)
    rw [drop_append_of_le_length (by omega), take_append_of_le_length]
    rw [length_drop]
    omega

/-- A streaming hash that has seen `xs`: the chaining value `t` of its whole blocks, and the bytes
`buf` after them. -/
def Streams (size : Nat) (compress : σ → List α → σ) (s : σ) (xs : List α) (t : σ)
    (buf : List α) : Prop :=
  ∃ whole, xs = whole ++ buf ∧ size ∣ whole.length ∧ buf.length < size ∧
    t = absorb size compress s whole

variable {t : σ} {buf : List α}

lemma Streams.nil (hpos : 0 < size) : Streams size compress s [] s [] :=
  ⟨[], rfl, ⟨0, rfl⟩, hpos, (absorb_short (by simpa using hpos)).symm⟩

section

variable (h : Streams size compress s xs t buf)
include h

theorem Streams.push_short (a : α) (hlt : buf.length + 1 < size) :
    Streams size compress s (xs ++ [a]) t (buf ++ [a]) := by
  obtain ⟨whole, rfl, hdvd, -, rfl⟩ := h
  exact ⟨whole, append_assoc .., hdvd, by simpa using hlt, rfl⟩

theorem Streams.push_full (a : α) (hfull : buf.length + 1 = size) :
    Streams size compress s (xs ++ [a]) (compress t (buf ++ [a])) [] := by
  obtain ⟨whole, rfl, hdvd, hlt, rfl⟩ := h
  have hpos : 0 < size := Nat.lt_of_le_of_lt (Nat.zero_le _) hlt
  have hlen : (buf ++ [a]).length = size := by simpa using hfull
  refine ⟨whole ++ (buf ++ [a]), by simp, ?_, hpos, ?_⟩
  · rw [length_append, hlen]
    exact Nat.dvd_add hdvd (Nat.dvd_refl size)
  · rw [absorb_append hpos hdvd, absorb_block hpos hlen]

/-- What is appended to the message is hashed from the unfinished block on. -/
theorem Streams.absorb_append (ys : List α) :
    absorb size compress s (xs ++ ys) = absorb size compress t (buf ++ ys) := by
  obtain ⟨whole, rfl, hdvd, hlt, rfl⟩ := h
  rw [append_assoc]
  exact BlockHash.absorb_append (Nat.lt_of_le_of_lt (Nat.zero_le _) hlt) hdvd

lemma Streams.buf_length : buf.length = xs.length % size := by
  obtain ⟨whole, rfl, ⟨n, hn⟩, hlt, -⟩ := h
  rw [length_append, hn, Nat.mul_add_mod, Nat.mod_eq_of_lt hlt]

end

end AosKernel.Lib.BlockHash

/-! ## SHA-256 -/

namespace AosKernel.Lib

/-- The low `w` bytes of `n`, most significant first. -/
def beBytes (w n : Nat) : List UInt8 := (leBytes w n).reverse

/-- The number a big-endian byte list stands for. -/
def beNat (bs : List UInt8) : Nat := leNat bs.reverse

@[simp] lemma beBytes_length (w n : Nat) : (beBytes w n).length = w := by simp [beBytes]

namespace Sha256

/-! ## Functions and constants -/

/-- A right rotation of a word. -/
def rotr (n x : UInt32) : UInt32 := (x >>> n) ||| (x <<< (32 - n))

def ch (x y z : UInt32) : UInt32 := (x &&& y) ^^^ (~~~x &&& z)

def maj (x y z : UInt32) : UInt32 := (x &&& y) ^^^ (x &&& z) ^^^ (y &&& z)

def bigSigma0 (x : UInt32) : UInt32 := rotr 2 x ^^^ rotr 13 x ^^^ rotr 22 x

def bigSigma1 (x : UInt32) : UInt32 := rotr 6 x ^^^ rotr 11 x ^^^ rotr 25 x

def smallSigma0 (x : UInt32) : UInt32 := rotr 7 x ^^^ rotr 18 x ^^^ (x >>> 3)

def smallSigma1 (x : UInt32) : UInt32 := rotr 17 x ^^^ rotr 19 x ^^^ (x >>> 10)

/-- The first 64 primes. -/
def primes : List Nat :=
  [2, 3, 5, 7, 11, 13, 17, 19, 23, 29, 31, 37, 41, 43, 47, 53, 59, 61, 67, 71, 73, 79, 83, 89, 97,
    101, 103, 107, 109, 113, 127, 131, 137, 139, 149, 151, 157, 163, 167, 173, 179, 181, 191, 193,
    197, 199, 211, 223, 227, 229, 233, 239, 241, 251, 257, 263, 269, 271, 277, 281, 283, 293, 307,
    311]

/-- The first 32 bits of the fractional part of the `k`-th root of the prime with the index. -/
def rootWord (k index : Nat) : UInt32 :=
  UInt32.ofNat (Nat.nthRoot k (primes.getD index 0 * 2 ^ (32 * k)))

/-- The constant of round `t`: from the cube roots of the primes. -/
def roundConstant (t : Nat) : UInt32 := rootWord 3 t

/-! ## The compression function -/

/-- A hash value, and the working variables of the rounds. -/
structure State where
  a : UInt32
  b : UInt32
  c : UInt32
  d : UInt32
  e : UInt32
  f : UInt32
  g : UInt32
  h : UInt32
  deriving DecidableEq

/-- The initial hash value: from the square roots of the first eight primes. -/
def initial : State where
  a := rootWord 2 0
  b := rootWord 2 1
  c := rootWord 2 2
  d := rootWord 2 3
  e := rootWord 2 4
  f := rootWord 2 5
  g := rootWord 2 6
  h := rootWord 2 7

def State.add (s t : State) : State :=
  ⟨s.a + t.a, s.b + t.b, s.c + t.c, s.d + t.d, s.e + t.e, s.f + t.f, s.g + t.g, s.h + t.h⟩

def State.words (s : State) : List UInt32 := [s.a, s.b, s.c, s.d, s.e, s.f, s.g, s.h]

def blockWord (block : List UInt8) (t : Nat) : UInt32 :=
  UInt32.ofNat (beNat ((block.drop (4 * t)).take 4))

def schedule (block : List UInt8) (t : Nat) : UInt32 :=
  if t < 16 then blockWord block t
  else smallSigma1 (schedule block (t - 2)) + schedule block (t - 7) +
    smallSigma0 (schedule block (t - 15)) + schedule block (t - 16)

/-- One round with constant `k` and schedule word `w`. -/
def round (k w : UInt32) (s : State) : State :=
  let t1 := s.h + bigSigma1 s.e + ch s.e s.f s.g + k + w
  let t2 := bigSigma0 s.a + maj s.a s.b s.c
  ⟨t1 + t2, s.a, s.b, s.c, s.d + t1, s.e, s.f, s.g⟩

/-- The first `n` rounds. -/
def rounds (block : List UInt8) : Nat → State → State
  | 0, s => s
  | n + 1, s => round (roundConstant n) (schedule block n) (rounds block n s)

/-- The hash value after one more block. -/
def compress (s : State) (block : List UInt8) : State := s.add (rounds block 64 s)

/-! ## The hash -/

/-- The zero bytes of the padding: up to eight bytes before the end of a block. -/
def zeroCount (length : Nat) : Nat := (119 - length % 64) % 64

/-- What is appended to a message of the length. -/
def padding (length : Nat) : List UInt8 :=
  0x80 :: zeroBytes (zeroCount length) ++ beBytes 8 (8 * length)

def State.bytes (s : State) : List UInt8 := s.words.flatMap fun w => beBytes 4 w.toNat

/-- SHA-256. -/
def hash (message : List UInt8) : List UInt8 :=
  (BlockHash.absorb 64 compress initial (message ++ padding message.length)).bytes

@[simp] lemma State.bytes_length (s : State) : s.bytes.length = 32 := by
  simp [State.bytes, State.words]

@[simp] lemma hash_length (message : List UInt8) : (hash message).length = 32 :=
  State.bytes_length _

lemma schedule_of_lt (block : List UInt8) {t : Nat} (h : t < 16) :
    schedule block t = blockWord block t := by
  rw [schedule, if_pos h]

lemma schedule_of_le (block : List UInt8) {t : Nat} (h : 16 ≤ t) :
    schedule block t = smallSigma1 (schedule block (t - 2)) + schedule block (t - 7) +
      smallSigma0 (schedule block (t - 15)) + schedule block (t - 16) := by
  rw [schedule, if_neg (by omega)]

end Sha256

/-! ## HMAC and PBKDF2 -/

def xorBytes (xs ys : List UInt8) : List UInt8 := List.zipWith (· ^^^ ·) xs ys

@[simp] lemma xorBytes_length (xs ys : List UInt8) :
    (xorBytes xs ys).length = min xs.length ys.length := by simp [xorBytes]

/-! ## HMAC -/

/-- The key as a block: hashed first if it is longer than a block, then filled with zeros. -/
def hmacKey (hash : List UInt8 → List UInt8) (blockSize : Nat) (key : List UInt8) : List UInt8 :=
  let key := if blockSize < key.length then hash key else key
  key ++ zeroBytes (blockSize - key.length)

def hmac (hash : List UInt8 → List UInt8) (blockSize : Nat) (key text : List UInt8) : List UInt8 :=
  let key := hmacKey hash blockSize key
  hash (key.map (· ^^^ 0x5c) ++ hash (key.map (· ^^^ 0x36) ++ text))

def Sha256.hmac (key text : List UInt8) : List UInt8 := Lib.hmac Sha256.hash 64 key text

@[simp] lemma Sha256.hmac_length (key text : List UInt8) : (Sha256.hmac key text).length = 32 :=
  Sha256.hash_length _

/-! ## PBKDF2 -/

namespace Pbkdf2

variable (prf : List UInt8 → List UInt8 → List UInt8) (password salt : List UInt8)

/-- The value `U` with number `n + 1` of block `i`. -/
def chain (i : Nat) : Nat → List UInt8
  | 0 => prf password (salt ++ beBytes 4 i)
  | n + 1 => prf password (chain i n)

/-- The exclusive or of the first `n + 1` values of block `i`. -/
def chainXor (i : Nat) : Nat → List UInt8
  | 0 => chain prf password salt i 0
  | n + 1 => xorBytes (chainXor i n) (chain prf password salt i (n + 1))

/-- PBKDF2 with a pseudorandom function of `hLen` bytes, `c` iterations and `dkLen` bytes of
result. -/
def pbkdf2 (hLen c dkLen : Nat) : List UInt8 :=
  ((List.range ((dkLen + hLen - 1) / hLen)).flatMap fun i =>
    chainXor prf password salt (i + 1) (c - 1)).take dkLen

variable {prf password salt}

lemma chain_length {hLen : Nat} (h : ∀ text, (prf password text).length = hLen) (i n : Nat) :
    (chain prf password salt i n).length = hLen := by
  cases n with
  | zero => exact h _
  | succ => exact h _

lemma chainXor_length {hLen : Nat} (h : ∀ text, (prf password text).length = hLen) (i n : Nat) :
    (chainXor prf password salt i n).length = hLen := by
  induction n with
  | zero => exact chain_length h i 0
  | succ n ih => simp [chainXor, ih, chain_length h]

lemma pbkdf2_one {hLen : Nat} (hpos : 0 < hLen) (h : ∀ text, (prf password text).length = hLen)
    (c : Nat) : pbkdf2 prf password salt hLen c hLen = chainXor prf password salt 1 (c - 1) := by
  have hblocks : (hLen + hLen - 1) / hLen = 1 := by
    rw [Nat.div_eq_of_lt_le] <;> omega
  simp [pbkdf2, hblocks, List.take_of_length_le, chainXor_length h]

end Pbkdf2

end AosKernel.Lib
