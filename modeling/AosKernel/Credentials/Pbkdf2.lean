import AosKernel.Credentials.Sha256
import AosKernel.Lib.ByteStore

/-!
# The kernel's HMAC and PBKDF2

`hmac_sha256` and `pbkdf2_sha256` of `kernel/credentials.c` over a memory of objects, so that a
result may be written over an argument: `pbkdf2_sha256` passes its local `value` as the message and
as the output of `hmac_sha256`. The contents of the local hash context before its first use are a
parameter. `password_hashing_correct` compares the functions with SHA-256, HMAC and PBKDF2.
-/

namespace AosKernel.Credentials

open Lib Lib.Loop Lib.ByteStore Function Sha256 Pbkdf2

/-! ## Memory -/

/-- The objects of the program and their bytes. -/
abbrev Memory (ω : Type) := ω → Store UInt8

structure Ptr (ω : Type) where
  object : ω
  offset : Nat

namespace Memory

variable {ω : Type}

def read (m : Memory ω) (p : Ptr ω) (size : Nat) : List UInt8 := slice (m p.object) p.offset size

variable [DecidableEq ω]

def write (m : Memory ω) (p : Ptr ω) (bytes : List UInt8) : Memory ω :=
  update m p.object (patch (m p.object) p.offset bytes)

variable (m : Memory ω)

lemma read_write_self (p : Ptr ω) (bytes : List UInt8) :
    (m.write p bytes).read p bytes.length = bytes := by
  simp [read, write, slice_patch_self]

lemma read_write_other {p q : Ptr ω} (h : q.object ≠ p.object) (bytes : List UInt8) (size : Nat) :
    (m.write p bytes).read q size = m.read q size := by
  simp [read, write, update_of_ne h]

lemma read_write_disjoint {p q : Ptr ω} {bytes : List UInt8} {size : Nat}
    (h : q.offset + size ≤ p.offset ∨ p.offset + bytes.length ≤ q.offset) :
    (m.write p bytes).read q size = m.read q size := by
  by_cases ho : q.object = p.object
  · simp only [read, write, ho, update_self]
    exact slice_patch_disjoint _ h
  · exact read_write_other m ho bytes size

end Memory

/-! ## HMAC -/

section Hmac

variable {ω : Type} [DecidableEq ω]

/-- The block of the key in `hmac_sha256`, and the context afterwards. -/
def hmacKeyBlock (ctx : Sha256Ctx) (key : List UInt8) : List UInt8 × Sha256Ctx :=
  if 64 < key.length then
    let r := sha256Final (sha256Update (sha256Init ctx) key)
    (splice (zeroBytes 64) 0 r.1, r.2)
  else (splice (zeroBytes 64) 0 key, ctx)

/-- `hmac_sha256`; `second` is `none` for a null pointer. -/
def hmacSha256 (ctx : Sha256Ctx) (key : Ptr ω) (keySize : Nat) (first : Ptr ω) (firstSize : Nat)
    (second : Option (Ptr ω)) (secondSize : Nat) (out : Ptr ω) (m : Memory ω) : Memory ω :=
  let (keyBlock, ctx) := hmacKeyBlock ctx (m.read key keySize)
  let ctx := sha256Update (sha256Init ctx) (keyBlock.map (· ^^^ 0x36))
  let ctx := sha256Update ctx (m.read first firstSize)
  let ctx :=
    match second with
    | some second =>
        if secondSize ≠ 0 then sha256Update ctx (m.read second secondSize) else ctx
    | none => ctx
  let (inner, ctx) := sha256Final ctx
  let ctx := sha256Update (sha256Init ctx) (keyBlock.map (· ^^^ 0x5c))
  m.write out (sha256Final (sha256Update ctx inner)).1

def hmacText (first : Ptr ω) (firstSize : Nat) (second : Option (Ptr ω)) (secondSize : Nat)
    (m : Memory ω) : List UInt8 :=
  m.read first firstSize ++
    match second with
    | some second => m.read second secondSize
    | none => []

lemma hmacKeyBlock_eq (ctx : Sha256Ctx) (key : List UInt8) :
    (hmacKeyBlock ctx key).1 = hmacKey hash 64 key := by
  unfold hmacKeyBlock hmacKey
  dsimp only
  split
  · next hlong =>
    have hdigest := sha256Final_eq (sha256Update_after (sha256Init_after ctx) key)
    dsimp only
    rw [hdigest]
    simp only [splice, zeroBytes, List.take_zero, List.nil_append, zero_add, List.drop_replicate]
  · simp only [splice, zeroBytes, List.take_zero, List.nil_append, zero_add, List.drop_replicate]

/-- The result is HMAC of what the memory held before the call, wherever it is written. -/
lemma hmacSha256_eq (ctx : Sha256Ctx) (key : Ptr ω) (keySize : Nat) (first : Ptr ω)
    (firstSize : Nat) (second : Option (Ptr ω)) (secondSize : Nat) (out : Ptr ω) (m : Memory ω) :
    hmacSha256 ctx key keySize first firstSize second secondSize out m =
      m.write out (hmac (m.read key keySize)
        (hmacText first firstSize second secondSize m)) := by
  have hkey := hmacKeyBlock_eq ctx (m.read key keySize)
  unfold hmacSha256
  generalize hmacKeyBlock ctx (m.read key keySize) = r at hkey ⊢
  obtain ⟨keyBlock, ctx1⟩ := r
  dsimp only at hkey ⊢
  generalize hinner : (match second with
    | some second =>
      if secondSize ≠ 0 then
        sha256Update (sha256Update (sha256Update (sha256Init ctx1) (keyBlock.map (· ^^^ 0x36)))
          (m.read first firstSize)) (m.read second secondSize)
      else sha256Update (sha256Update (sha256Init ctx1) (keyBlock.map (· ^^^ 0x36)))
        (m.read first firstSize)
    | none => sha256Update (sha256Update (sha256Init ctx1) (keyBlock.map (· ^^^ 0x36)))
        (m.read first firstSize)) = ctx2
  -- The inner hash has seen the padded key and the message.
  have hafter : ctx2.After (keyBlock.map (· ^^^ 0x36) ++
      hmacText first firstSize second secondSize m) := by
    have hfirst := sha256Update_after (sha256Update_after (sha256Init_after ctx1)
      (keyBlock.map (· ^^^ 0x36))) (m.read first firstSize)
    rw [List.nil_append] at hfirst
    rw [← hinner]
    unfold hmacText
    cases second with
    | none => simpa using hfirst
    | some second =>
      by_cases hsize : secondSize = 0
      · simpa [hsize, Memory.read] using hfirst
      · simpa [hsize] using sha256Update_after hfirst (m.read second secondSize)
  have houter := sha256Final_eq (sha256Update_after (sha256Update_after
    (sha256Init_after (sha256Final ctx2).2) (keyBlock.map (· ^^^ 0x5c))) (sha256Final ctx2).1)
  rw [houter, sha256Final_eq hafter, List.nil_append, hkey]
  rfl

end Hmac

/-! ## PBKDF2 -/

/-- The memory that `pbkdf2_sha256` works on: that of its callers and its two local arrays. -/
inductive Object where
  | caller
  | blockIndex
  | value
  deriving DecidableEq

/-- `local_strlen`, on a string that has a terminator. -/
def strlen (m : Memory Object) (p : Nat) (h : ∃ n, m .caller (p + n) = 0) : Nat := Nat.find h

/-- One iteration of the loop of `pbkdf2_sha256`. -/
def pbkdf2Round (ctx : Nat → Sha256Ctx) (password passwordSize out : Nat) (round : Nat)
    (m : Memory Object) : Memory Object :=
  let m := hmacSha256 (ctx round) ⟨.caller, password⟩ passwordSize ⟨.value, 0⟩ 32 none 0
    ⟨.value, 0⟩ m
  m.write ⟨.caller, out⟩ (xorBytes (m.read ⟨.caller, out⟩ 32) (m.read ⟨.value, 0⟩ 32))

/-- `pbkdf2_sha256`; `ctx` is what the context of each call of `hmac_sha256` holds before its first
use. -/
def pbkdf2Sha256 (ctx : Nat → Sha256Ctx) (password salt : Nat) (iterations : UInt32) (out : Nat)
    (m : Memory Object) (h : ∃ n, m .caller (password + n) = 0) : Memory Object :=
  let passwordSize := strlen m password h
  let m := m.write ⟨.blockIndex, 0⟩ [0, 0, 0, 1]
  let m := hmacSha256 (ctx 0) ⟨.caller, password⟩ passwordSize ⟨.caller, salt⟩ 16
    (some ⟨.blockIndex, 0⟩) 4 ⟨.value, 0⟩ m
  let m := m.write ⟨.caller, out⟩ (m.read ⟨.value, 0⟩ 32)
  let m := forEach (pbkdf2Round ctx password passwordSize out) (iterations.toNat - 1) 1 m
  m.write ⟨.value, 0⟩ (zeroBytes 32)

section Pbkdf2

variable {password passwordSize out : Nat} {key salt : List UInt8}

/-- The state of the loop before iteration `round`: the last value of the chain and the exclusive or
of all of them, with the password still in place. -/
structure RoundInv (password passwordSize out : Nat) (key salt : List UInt8) (round : Nat)
    (m : Memory Object) : Prop where
  password : m.read ⟨.caller, password⟩ passwordSize = key
  value : m.read ⟨.value, 0⟩ 32 = Pbkdf2.chain Sha256.hmac key salt 1 (round - 1)
  result : m.read ⟨.caller, out⟩ 32 = Pbkdf2.chainXor Sha256.hmac key salt 1 (round - 1)

lemma pbkdf2Round_inv (ctx : Nat → Sha256Ctx) {round : Nat} {m : Memory Object}
    (hpos : 1 ≤ round) (hsep : password + passwordSize ≤ out ∨ out + 32 ≤ password)
    (h : RoundInv password passwordSize out key salt round m) :
    RoundInv password passwordSize out key salt (round + 1)
      (pbkdf2Round ctx password passwordSize out round m) := by
  obtain ⟨n, rfl⟩ : ∃ n, round = n + 1 := ⟨round - 1, by omega⟩
  obtain ⟨hpassword, hvalue, hresult⟩ := h
  rw [Nat.add_sub_cancel] at hvalue hresult
  -- The new value of the chain is written over the old one.
  have hhmac : hmacSha256 (ctx (n + 1)) ⟨.caller, password⟩ passwordSize ⟨.value, 0⟩ 32 none 0
      ⟨.value, 0⟩ m = m.write ⟨.value, 0⟩ (chain hmac key salt 1 (n + 1)) := by
    rw [hmacSha256_eq, hmacText, hpassword, hvalue, List.append_nil, chain]
  have hlen : (chain hmac key salt 1 (n + 1)).length = 32 :=
    chain_length (hmac_length key) 1 (n + 1)
  have hxorLen : (chainXor hmac key salt 1 (n + 1)).length = 32 :=
    chainXor_length (hmac_length key) 1 (n + 1)
  have hxor : xorBytes (chainXor hmac key salt 1 n)
      (chain hmac key salt 1 (n + 1)) =
      chainXor hmac key salt 1 (n + 1) := by rw [chainXor]
  generalize hnext : chain hmac key salt 1 (n + 1) = next at hhmac hlen hxor
  have hnew : (m.write ⟨.value, 0⟩ next).read ⟨.value, 0⟩ 32 = next := by
    have hself := Memory.read_write_self m ⟨.value, 0⟩ next
    rwa [hlen] at hself
  unfold pbkdf2Round
  dsimp only
  rw [hhmac, hnew, Memory.read_write_other m (by simp), hresult, hxor]
  refine ⟨?_, ?_, ?_⟩
  · rw [Memory.read_write_disjoint _ (by rw [hxorLen]; exact hsep),
      Memory.read_write_other m (by simp), hpassword]
  · rw [Memory.read_write_other _ (by simp), hnew, Nat.add_sub_cancel, hnext]
  · have hself := Memory.read_write_self (m.write ⟨.value, 0⟩ next) ⟨.caller, out⟩
      (chainXor hmac key salt 1 (n + 1))
    rwa [hxorLen] at hself

lemma pbkdf2_start_inv (ctx : Sha256Ctx) (password passwordSize salt out : Nat)
    (m : Memory Object) (hsep : password + passwordSize ≤ out ∨ out + 32 ≤ password) :
    let m0 := m.write ⟨.blockIndex, 0⟩ [0, 0, 0, 1]
    let m1 := hmacSha256 ctx ⟨.caller, password⟩ passwordSize ⟨.caller, salt⟩ 16
      (some ⟨.blockIndex, 0⟩) 4 ⟨.value, 0⟩ m0
    RoundInv password passwordSize out (m.read ⟨.caller, password⟩ passwordSize)
      (m.read ⟨.caller, salt⟩ 16) 1 (m1.write ⟨.caller, out⟩ (m1.read ⟨.value, 0⟩ 32)) := by
  intro m0 m1
  have hindex : m0.read ⟨.blockIndex, 0⟩ 4 = beBytes 4 1 :=
    Memory.read_write_self m ⟨.blockIndex, 0⟩ [0, 0, 0, 1]
  have hm0 : ∀ offset size, m0.read ⟨.caller, offset⟩ size = m.read ⟨.caller, offset⟩ size :=
    fun offset size => Memory.read_write_other m (by simp) _ _
  generalize hU : chain hmac (m.read ⟨.caller, password⟩ passwordSize)
    (m.read ⟨.caller, salt⟩ 16) 1 0 = first
  have hlen : first.length = 32 := by
    rw [← hU]
    exact chain_length (hmac_length _) 1 0
  have hm1 : m1 = m0.write ⟨.value, 0⟩ first := by
    rw [← hU]
    exact (hmacSha256_eq ..).trans (by simp only [hmacText, hindex, hm0, chain])
  have hvalue : m1.read ⟨.value, 0⟩ 32 = first := by
    have hself := Memory.read_write_self m0 ⟨.value, 0⟩ first
    rwa [hlen, ← hm1] at hself
  rw [hvalue]
  refine ⟨?_, ?_, ?_⟩
  · rw [Memory.read_write_disjoint _ (by rw [hlen]; exact hsep), hm1,
      Memory.read_write_other m0 (by simp), hm0]
  · rw [Memory.read_write_other _ (by simp), hvalue, Nat.sub_self, hU]
  · have hself := Memory.read_write_self m1 ⟨.caller, out⟩ first
    rw [Nat.sub_self, chainXor, hU]
    rwa [hlen] at hself

lemma pbkdf2Sha256_eq (ctx : Nat → Sha256Ctx) (password salt : Nat) (iterations : UInt32)
    (out : Nat) (m : Memory Object) (h : ∃ n, m .caller (password + n) = 0)
    (hsep : password + strlen m password h ≤ out ∨ out + 32 ≤ password) :
    (pbkdf2Sha256 ctx password salt iterations out m h).read ⟨.caller, out⟩ 32 =
      pbkdf2 hmac (m.read ⟨.caller, password⟩ (strlen m password h))
        (m.read ⟨.caller, salt⟩ 16) 32 iterations.toNat 32 := by
  have hloop := forEach_inv (pbkdf2Round ctx password (strlen m password h) out)
    (P := RoundInv password (strlen m password h) out
      (m.read ⟨.caller, password⟩ (strlen m password h)) (m.read ⟨.caller, salt⟩ 16))
    (iterations.toNat - 1) 1 _
    (pbkdf2_start_inv (ctx 0) password (strlen m password h) salt out m hsep)
    fun round m hpos _ hinv => pbkdf2Round_inv ctx hpos hsep hinv
  unfold pbkdf2Sha256
  rw [Memory.read_write_other _ (by simp), hloop.result,
    pbkdf2_one (by decide) (hmac_length _), Nat.add_sub_cancel_left]

end Pbkdf2

/-! ## Result -/

/-- The three functions compute what their standards say: SHA-256 for every cutting of the message,
HMAC for every key and every place of the result, and PBKDF2 with 32 bytes of result whenever the
result does not lie over the password. -/
theorem password_hashing_correct :
    (∀ ctx pieces, digest ctx pieces = Sha256.hash pieces.flatten) ∧
    (∀ (ω : Type) [DecidableEq ω] (ctx : Sha256Ctx) (key : Ptr ω) (keySize : Nat) (first : Ptr ω)
      (firstSize : Nat) (second : Option (Ptr ω)) (secondSize : Nat) (out : Ptr ω) (m : Memory ω),
      hmacSha256 ctx key keySize first firstSize second secondSize out m =
        m.write out (hmac Sha256.hash 64 (m.read key keySize)
          (hmacText first firstSize second secondSize m))) ∧
    (∀ (ctx : Nat → Sha256Ctx) (password salt : Nat) (iterations : UInt32) (out : Nat)
      (m : Memory Object) (h : ∃ n, m .caller (password + n) = 0),
      (password + strlen m password h ≤ out ∨ out + 32 ≤ password) →
      (pbkdf2Sha256 ctx password salt iterations out m h).read ⟨.caller, out⟩ 32 =
        Pbkdf2.pbkdf2 (hmac Sha256.hash 64) (m.read ⟨.caller, password⟩ (strlen m password h))
          (m.read ⟨.caller, salt⟩ 16) 32 iterations.toNat 32) :=
  ⟨digest_eq_hash, fun _ _ => hmacSha256_eq, pbkdf2Sha256_eq⟩

/-- The memory of a caller: the password "aos" and the salt 1, 2, .., 16 behind it. -/
def sampleMemory : Memory Object := fun _ a =>
  [97, 111, 115, 0, 1, 2, 3, 4, 5, 6, 7, 8, 9, 10, 11, 12, 13, 14, 15, 16].getD a 0

/-- A password of three bytes with a salt and 12000 iterations. -/
theorem password_hashing_correct_short :
    (pbkdf2Sha256 (fun _ => .wiped) 0 4 12000 32 sampleMemory ⟨3, rfl⟩).read ⟨.caller, 32⟩ 32 =
      Pbkdf2.pbkdf2 (hmac Sha256.hash 64) [97, 111, 115]
        [1, 2, 3, 4, 5, 6, 7, 8, 9, 10, 11, 12, 13, 14, 15, 16] 32 12000 32 := by
  have hlen : strlen sampleMemory 0 ⟨3, rfl⟩ = 3 := (Nat.find_eq_iff _).2 ⟨rfl, by decide⟩
  have h := password_hashing_correct.2.2 (fun _ => .wiped) 0 4 12000 32 sampleMemory ⟨3, rfl⟩
    (.inl (by rw [hlen]; decide))
  rw [hlen] at h
  exact h

/-! ## Hexadecimal digits -/

def hexDigit (value : Fin 16) : CChar :=
  if value.val < 10 then ⟨UInt8.ofNat (48 + value.val), by revert value; decide⟩
  else ⟨UInt8.ofNat (97 + value.val - 10), by revert value; decide⟩

def parseHexDigit (c : CChar) : Option Nat :=
  if 48 ≤ c.val ∧ c.val ≤ 57 then some (c.val.toNat - 48)
  else if 97 ≤ c.val ∧ c.val ≤ 102 then some (c.val.toNat - 97 + 10)
  else if 65 ≤ c.val ∧ c.val ≤ 70 then some (c.val.toNat - 65 + 10)
  else none

def hexPair (b : UInt8) : CString :=
  [hexDigit (Fin.ofNat 16 (b.toNat >>> 4)), hexDigit (Fin.ofNat 16 (b.toNat &&& 0x0f))]

def bytesToHex (bytes : List UInt8) : CString := bytes.flatMap hexPair

abbrev Bytes (n : Nat) := { bytes : List UInt8 // bytes.length = n }

def hexToBytes : (n : Nat) → CString → Option (Bytes n)
  | 0, _ => some ⟨[], rfl⟩
  | n + 1, c :: d :: text =>
      match parseHexDigit c, parseHexDigit d with
      | some high, some low =>
          (hexToBytes n text).map fun bytes =>
            ⟨UInt8.ofNat ((high <<< 4) ||| low) :: bytes.val, by simp [bytes.property]⟩
      | _, _ => none
  | _ + 1, _ => none

lemma hexPair_value (n : Fin 256) :
    ((Fin.ofNat 16 (n.val >>> 4)).val <<< 4) ||| (Fin.ofNat 16 (n.val &&& 0x0f)).val = n.val := by
  revert n
  decide +kernel

end AosKernel.Credentials
