import AosKernel.Credentials.Pbkdf2
import AosKernel.Lib.Paths
import Mathlib.Data.List.DropRight

/-!
# Texts and numbers of the package manager

The string helpers of `uni.c`. A buffer of `n` bytes is a `Text n`, a string that fits it with its
terminator, so a text that a helper has stored cannot be too long. The identifier of a package is
made by `id_from_text` from whatever the package says (`idFromText`), and `valid_package_id` is the
separate test that the removal applies to it (`validPackageId`).
-/

namespace AosKernel.Uni

open Lib

/-! ## Characters -/

lemma slash_ne_zero : (0x2f : UInt8) ≠ 0 := by decide

def slash : CChar := ⟨0x2f, slash_ne_zero⟩
def backslash : CChar := ⟨0x5c, by decide⟩
def newline : CChar := ⟨0x0a, by decide⟩
def carriageReturn : CChar := ⟨0x0d, by decide⟩
def tab : CChar := ⟨0x09, by decide⟩
def space : CChar := ⟨0x20, by decide⟩
def dot : CChar := ⟨0x2e, by decide⟩
def dash : CChar := ⟨0x2d, by decide⟩
def plus : CChar := ⟨0x2b, by decide⟩
def bar : CChar := ⟨0x7c, by decide⟩
def colon : CChar := ⟨0x3a, by decide⟩

def isLineEnd (c : CChar) : Bool := c == newline || c == carriageReturn

/-- The same test on the bytes of a file. -/
def isLineEndByte (b : UInt8) : Bool := b == 0x0a || b == 0x0d

def isBlank (c : CChar) : Bool := c == space || c == tab

def isLower (c : CChar) : Bool := 0x61 ≤ c.val && c.val ≤ 0x7a

def isDigit (c : CChar) : Bool := 0x30 ≤ c.val && c.val ≤ 0x39

/-! ## Buffers -/

/-- A string in a buffer of `n` bytes. -/
abbrev Text (n : Nat) := { s : CString // s.length < n }

/-- `copy_bytes`. What is behind a zero byte is copied too, and no reader sees it. -/
def copyBytes (n : Nat) (bytes : List UInt8) : Option (Text n) :=
  if h : bytes.length + 1 > n then none
  else some ⟨CString.ofBytes bytes, by have := CString.ofBytes_length_le bytes; omega⟩

def copyText (n : Nat) (s : CString) : Option (Text n) :=
  if h : s.length + 1 > n then none else some ⟨s, by omega⟩

def appendText {n : Nat} (dst : Text n) (src : CString) : Option (Text n) :=
  if h : src.length + 1 > n - dst.val.length then none
  else some ⟨dst.val ++ src, by have := dst.property; rw [List.length_append]; omega⟩

def appendChar {n : Nat} (dst : Text n) (c : CChar) : Option (Text n) :=
  if h : dst.val.length + 2 > n then none
  else some ⟨dst.val ++ [c], by rw [List.length_append, List.length_singleton]; omega⟩

def emptyText {n : Nat} : Text (n + 1) := ⟨[], Nat.succ_pos n⟩

section Buffers

variable {n : Nat} {dst : Text n} {s : CString} {c : CChar} {t : Text n}

/-- A text refused when too long is built exactly from its own bytes. -/
lemma fitted_eq_some_iff {p : Prop} [Decidable p] (hfits : ¬p → s.length < n)
    (hlong : p → n ≤ s.length) :
    (if h : p then none else some (⟨s, hfits h⟩ : Text n)) = some t ↔ t.val = s := by
  split
  · next h =>
    refine ⟨fun h' => by simp at h', fun h' => ?_⟩
    exact absurd (h' ▸ t.property) (not_lt.2 (hlong h))
  · simp only [Option.some.injEq]
    exact ⟨fun h' => h' ▸ rfl, fun h' => Subtype.ext h'.symm⟩

lemma copyText_eq_some_iff : copyText n s = some t ↔ t.val = s :=
  fitted_eq_some_iff _ (by omega)

lemma appendText_eq_some_iff : appendText dst s = some t ↔ t.val = dst.val ++ s :=
  fitted_eq_some_iff _ (by have := dst.property; rw [List.length_append]; omega)

lemma appendChar_eq_some_iff : appendChar dst c = some t ↔ t.val = dst.val ++ [c] :=
  fitted_eq_some_iff _ (by rw [List.length_append, List.length_singleton]; omega)

end Buffers

/-! ## Numbers -/

/-- The loop of `parse_decimal` and `parse_octal`; `seen` says whether there was a digit. -/
def numberLoop (base : Nat) : List UInt8 → Nat → Bool → Option Nat
  | [], result, seen => if seen then some result else none
  | c :: rest, result, seen =>
      if c = 0x20 ∨ c = 0 then
        if seen then some result else numberLoop base rest result seen
      else if c < 0x30 ∨ c.toNat ≥ 0x30 + base ∨ result > (2 ^ 64 - base) / base then none
      else numberLoop base rest (result * base + (c.toNat - 0x30)) true

def parseDecimal (bytes : List UInt8) : Option Nat := numberLoop 10 bytes 0 false

def parseOctal (bytes : List UInt8) : Option Nat := numberLoop 8 bytes 0 false

/-! ## Pieces of texts -/

def pathBasename (path : CString) : CString := path.rtakeWhile (· != slash)

def startsWith (value prefixText : CString) : Bool := prefixText.isPrefixOf value

def endsWith (value suffix : CString) : Bool := suffix.isSuffixOf value

/-- The lines `control_field` looks at, up to the one with the field. -/
def controlLoop (field : CString) (n : Nat) : List CString → Option (Text n)
  | [] => none
  | line :: rest =>
      if line.length ≤ field.length + 1 then controlLoop field n rest
      else if startsWith line field = false ∨ (line.drop field.length).head? ≠ some colon then
        controlLoop field n rest
      else copyText n (((line.drop (field.length + 1)).dropWhile isBlank).rdropWhile isBlank)

/-- `control_field`: the first line with the field decides, also when its value does not fit. -/
def controlField (text field : CString) (n : Nat) : Option (Text n) :=
  controlLoop field n (lines isLineEnd text)

/-! ## Identifiers of packages -/

abbrev idCap : Nat := 48

lemma lowercase_ne_zero (b : UInt8) (h : 0x41 ≤ b ∧ b ≤ 0x5a) : b + 32 ≠ 0 := by
  intro hzero
  have hhigh : b.toNat ≤ 0x5a := UInt8.le_iff_toNat_le.1 h.2
  have hsum : (b + 32).toNat = 0 := by rw [hzero]; rfl
  rw [UInt8.toNat_add] at hsum
  have h32 : (32 : UInt8).toNat = 32 := rfl
  omega

def lowercase (c : CChar) : CChar :=
  if h : 0x41 ≤ c.val ∧ c.val ≤ 0x5a then ⟨c.val + 32, lowercase_ne_zero c.val h⟩ else c

def isIdChar (c : CChar) : Bool := isLower c || isDigit c || c == dot || c == plus

/-- The loop of `id_from_text`. -/
def idLoop (capacity : Nat) : CString → CString → Bool → CString
  | [], out, _ => out
  | c :: text, out, previousDash =>
      if out.length + 1 < capacity then
        if isIdChar (lowercase c) then idLoop capacity text (out ++ [lowercase c]) false
        else if previousDash = false ∧ out ≠ [] then idLoop capacity text (out ++ [dash]) true
        else idLoop capacity text out previousDash
      else out

variable (text : CString)

variable {out : CString} {capacity : Nat}

lemma idLoop_length_lt (previousDash : Bool) (h : out.length < capacity) :
    (idLoop capacity text out previousDash).length < capacity := by
  induction text generalizing out previousDash with
  | nil => exact h
  | cons c text ih =>
    unfold idLoop
    split
    · split
      · exact ih _ (by simpa using ‹out.length + 1 < capacity›)
      · split
        · exact ih _ (by simpa using ‹out.length + 1 < capacity›)
        · exact ih _ h
    · exact h

/-- The end of an identifier that `id_from_text` takes off. -/
def isIdEnd (c : CChar) : Bool := c == dash || c == dot

def idFromText (text : CString) : Text idCap :=
  let out := (idLoop idCap text [] false).rdropWhile isIdEnd
  if out = [] then ⟨CString.ofString "package", by decide⟩
  else ⟨(idLoop idCap text [] false).rdropWhile isIdEnd,
    (List.IsPrefix.length_le (List.rdropWhile_prefix isIdEnd _)).trans_lt
      (idLoop_length_lt text false (by decide))⟩

def isValidIdChar (c : CChar) : Bool := isLower c || isDigit c || c == dot || c == plus || c == dash

def hasDotDot : CString → Bool
  | c :: d :: rest => (c == dot && d == dot) || hasDotDot (d :: rest)
  | _ => false

def validPackageId (id : CString) : Bool :=
  id != [] && id.length < idCap && id.head? != some dot && id.getLast? != some dot &&
    id.all isValidIdChar && !hasDotDot id

lemma isValidIdChar_of_mem_idLoop {previousDash : Bool} (h : ∀ c ∈ out, isValidIdChar c = true) :
    ∀ c ∈ idLoop capacity text out previousDash, isValidIdChar c = true := by
  have hextend : ∀ {out : CString} {d : CChar}, (∀ c ∈ out, isValidIdChar c = true) →
      isValidIdChar d = true → ∀ c ∈ out ++ [d], isValidIdChar c = true := by
    intro out d hout hd c hc
    rcases List.mem_append.1 hc with hc | hc
    · exact hout c hc
    · rwa [List.mem_singleton.1 hc]
  induction text generalizing out previousDash with
  | nil => exact h
  | cons c text ih =>
    unfold idLoop
    split
    · split
      · next hc =>
        have hvalid : isValidIdChar (lowercase c) = true := by
          unfold isValidIdChar
          unfold isIdChar at hc
          rw [hc]
          rfl
        exact ih (hextend h hvalid)
      · split
        · exact ih (hextend h rfl)
        · exact ih h
    · exact h

lemma isValidIdChar_of_mem_idFromText : ∀ c ∈ (idFromText text).val, isValidIdChar c = true := by
  unfold idFromText
  dsimp only
  split
  · decide +kernel
  · intro c hc
    exact isValidIdChar_of_mem_idLoop text (by simp) c
      ((List.rdropWhile_prefix isIdEnd _).subset hc)

lemma idFromText_ne_nil : (idFromText text).val ≠ [] := by
  unfold idFromText
  dsimp only
  split
  · decide
  · next h => exact h

lemma idFromText_getLast : (idFromText text).val.getLast? ≠ some dot := by
  unfold idFromText
  dsimp only
  split
  · decide
  next h =>
  intro hlast
  have hnot := List.rdropWhile_last_not isIdEnd (idLoop idCap text [] false) h
  rw [List.getLast?_eq_getLast_of_ne_nil h, Option.some.injEq] at hlast
  rw [hlast] at hnot
  exact hnot rfl

end AosKernel.Uni
