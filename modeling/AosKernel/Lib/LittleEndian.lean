import Mathlib.Tactic

/-!
# Little-endian fields and C strings

Fixed-width little-endian encoding of naturals, and NUL-terminated strings in byte buffers of a
fixed size. A `CString` is a list of non-zero bytes, so a string with an embedded terminator cannot
be built; `ofBytes` reads the string at the start of a buffer and `toField` is what a bounded string
copy leaves in a zeroed buffer.
-/

namespace AosKernel.Lib

/-! ## Little-endian numbers -/

/-- The low `w` bytes of `n`, least significant first. -/
def leBytes : Nat → Nat → List UInt8
  | 0, _ => []
  | w + 1, n => UInt8.ofNat n :: leBytes w (n / 256)

/-- The number a little-endian byte list stands for. -/
def leNat : List UInt8 → Nat
  | [] => 0
  | b :: bs => b.toNat + 256 * leNat bs

@[simp] lemma leBytes_length (w n : Nat) : (leBytes w n).length = w := by
  induction w generalizing n with
  | zero => rfl
  | succ w ih => simp [leBytes, ih]

lemma leNat_leBytes (w n : Nat) : leNat (leBytes w n) = n % 256 ^ w := by
  induction w generalizing n with
  | zero => simp [leBytes, leNat, Nat.mod_one]
  | succ w ih =>
    simp only [leBytes, leNat, ih, UInt8.toNat_ofNat']
    rw [pow_succ (256 : Nat) w, mul_comm (256 ^ w) 256, Nat.mod_mul]

lemma leNat_leBytes_of_lt {w n : Nat} (h : n < 256 ^ w) : leNat (leBytes w n) = n := by
  rw [leNat_leBytes, Nat.mod_eq_of_lt h]

/-- `n` zero bytes. -/
def zeroBytes (n : Nat) : List UInt8 := List.replicate n 0

@[simp] lemma zeroBytes_length (n : Nat) : (zeroBytes n).length = n := List.length_replicate

/-! ## C strings -/

/-- A byte that is not the terminator. -/
abbrev CChar := {b : UInt8 // b ≠ 0}

/-- The characters of a C string, without its terminator. -/
abbrev CString := List CChar

namespace CString

/-- The string at the start of a byte buffer. -/
def ofBytes : List UInt8 → CString
  | [] => []
  | b :: bs => if h : b ≠ 0 then ⟨b, h⟩ :: ofBytes bs else []

/-- A string literal. -/
def ascii (cs : List Char) : CString := ofBytes (cs.map fun c => UInt8.ofNat c.toNat)

/-- A string literal, from a string. -/
def ofString (s : String) : CString := ascii s.toList

/-- The bytes of a string, without its terminator. -/
def bytes : CString → List UInt8
  | [] => []
  | c :: s => c.1 :: bytes s

/-- The string a bounded copy leaves in a buffer of `n` bytes. -/
def truncate (n : Nat) (s : CString) : CString := s.take (n - 1)

/-- The bytes of a zeroed buffer of `n` bytes after a bounded copy of `s` into it. -/
def toField (n : Nat) (s : CString) : List UInt8 :=
  bytes (truncate n s) ++ zeroBytes (n - (truncate n s).length)

@[simp] lemma bytes_length (s : CString) : (bytes s).length = s.length := by
  induction s with
  | nil => rfl
  | cons c s ih => simp [bytes, ih]

variable (n : Nat)

lemma truncate_length_le (s : CString) : (truncate n s).length ≤ n - 1 := by
  simp [truncate]

lemma truncate_of_lt {n : Nat} {s : CString} (h : s.length < n) : truncate n s = s :=
  List.take_of_length_le (by omega)

@[simp] lemma toField_length (s : CString) : (toField n s).length = n := by
  have h := truncate_length_le n s
  simp only [toField, List.length_append, bytes_length, zeroBytes_length]
  omega

lemma ofBytes_bytes_append (s : CString) (bs : List UInt8) :
    ofBytes (bytes s ++ bs) = s ++ ofBytes bs := by
  induction s with
  | nil => rfl
  | cons c s ih =>
    obtain ⟨b, hb⟩ := c
    simp [bytes, ofBytes, hb, ih]

lemma ofBytes_zeroBytes : ofBytes (zeroBytes n) = [] := by
  cases n with
  | zero => rfl
  | succ => simp [zeroBytes, List.replicate_succ, ofBytes]

lemma ofBytes_toField (s : CString) : ofBytes (toField n s) = truncate n s := by
  rw [toField, ofBytes_bytes_append, ofBytes_zeroBytes, List.append_nil]

lemma ofBytes_length_le (bs : List UInt8) : (ofBytes bs).length ≤ bs.length := by
  induction bs with
  | nil => simp [ofBytes]
  | cons b bs ih =>
    unfold ofBytes
    split
    · simpa using ih
    · simp

end CString

end AosKernel.Lib
