import AosKernel.Uni.Text
import AosKernel.Lib.PaddedLex

/-!
# The order of versions

Both `debian_version_compare` and the comparison of the policy compare a key of each version: its
epoch, and for the upstream part and for the revision a list of integers, with the weights of the
characters up to a digit, a zero for the end of these characters, the number that follows, and so on
(`partKey`). The keys are compared with padding, so the laws of a total preorder are those of the
library (`debianVersionCompare_order`).
-/

namespace AosKernel.Uni

open Lib CString

/-! ## The program -/

def asciiIsDigit (c : CChar) : Bool := 0x30 ≤ c.val && c.val ≤ 0x39

def asciiIsAlpha (c : CChar) : Bool :=
  (0x61 ≤ c.val && c.val ≤ 0x7a) || (0x41 ≤ c.val && c.val ≤ 0x5a)

def tilde : CChar := ⟨0x7e, by decide⟩
def zeroDigit : CChar := ⟨0x30, by decide⟩

/-- `version_character_order`; `none` is the character zero. -/
def versionCharacterOrder : Option CChar → Int
  | none => 0
  | some c => if c = tilde then -1 else if asciiIsAlpha c then c.val.toNat else c.val.toNat + 256

/-- `left_char` and `right_char`: the next character if it is not a digit. -/
def runHead (text : CString) : Option CChar := text.head?.filter fun c => !asciiIsDigit c

/-- The first inner loop of `version_part_compare`: its result, or the texts behind it. -/
def characterLoop : Nat → CString → CString → Int ⊕ (CString × CString)
  | 0, left, right => .inr (left, right)
  | fuel + 1, left, right =>
      let leftOrder := versionCharacterOrder (runHead left)
      let rightOrder := versionCharacterOrder (runHead right)
      if runHead left = none ∧ runHead right = none then .inr (left, right)
      else if leftOrder ≠ rightOrder then .inl (if leftOrder < rightOrder then -1 else 1)
      else characterLoop fuel (if (runHead left).isSome then left.tail else left)
        (if (runHead right).isSome then right.tail else right)

/-- The loop over the digits of two numbers with the same number of digits. -/
def digitsLoop : CString → CString → Int
  | a :: left, b :: right =>
      if a ≠ b then if a.val < b.val then -1 else 1 else digitsLoop left right
  | _, _ => 0

/-- The outer loop of `version_part_compare`; every round takes a character. -/
def partLoop : Nat → CString → CString → Int
  | 0, _, _ => 0
  | fuel + 1, left, right =>
      if left = [] ∧ right = [] then 0
      else match characterLoop (left.length + right.length + 1) left right with
        | .inl result => result
        | .inr (left, right) =>
            let left := left.dropWhile (· == zeroDigit)
            let right := right.dropWhile (· == zeroDigit)
            let leftDigits := left.takeWhile asciiIsDigit
            let rightDigits := right.takeWhile asciiIsDigit
            if leftDigits.length ≠ rightDigits.length then
              if leftDigits.length < rightDigits.length then -1 else 1
            else if digitsLoop leftDigits rightDigits ≠ 0 then digitsLoop leftDigits rightDigits
            else partLoop fuel (left.drop leftDigits.length) (right.drop rightDigits.length)

def versionPartCompare (left right : CString) : Int :=
  partLoop (left.length + right.length + 1) left right

/-- A digit of an epoch; it is left out when the epoch would not fit 64 bits. -/
def epochDigit (epoch : Nat) (c : CChar) : Nat :=
  if epoch ≤ (2 ^ 64 - 1 - 9) / 10 then epoch * 10 + (c.val.toNat - 0x30) else epoch

/-- `version_epoch`: the epoch, and the text behind it. -/
def versionEpoch (version : CString) : Nat × CString :=
  let digits := version.takeWhile asciiIsDigit
  let rest := version.dropWhile asciiIsDigit
  if digits ≠ [] ∧ rest.head? = some colon then (digits.foldl epochDigit 0, rest.drop 1)
  else (0, version)

/-- The loop that looks for the last hyphen, from the index `i`. -/
def revisionLoop : CString → Nat → Nat → Nat
  | [], _, revision => revision
  | c :: rest, i, revision => revisionLoop rest (i + 1) (if c = dash then i else revision)

/-- The text before the last hyphen, and the text behind it, or `0`. -/
def splitRevision (body : CString) : CString × CString :=
  let revision := revisionLoop body 0 body.length
  (body.take revision, if revision < body.length then body.drop (revision + 1) else [zeroDigit])

def debianVersionCompare (left right : CString) : Int :=
  let (leftEpoch, left) := versionEpoch left
  let (rightEpoch, right) := versionEpoch right
  if leftEpoch ≠ rightEpoch then if leftEpoch < rightEpoch then -1 else 1
  else
    let result := versionPartCompare (splitRevision left).1 (splitRevision right).1
    if result ≠ 0 then result
    else versionPartCompare (splitRevision left).2 (splitRevision right).2

/-! ## The policy -/

/-- The place of a character in the order of the policy: a tilde is before the end of a part, which
is at zero, and letters are before all other characters. -/
def policyWeight (c : CChar) : Int :=
  if c = tilde then -1 else if asciiIsAlpha c then c.val.toNat else c.val.toNat + 256

/-- The lexical comparison of two texts without digits. -/
def policyLex : CString → CString → Ordering
  | [], [] => .eq
  | [], b :: _ => compare 0 (policyWeight b)
  | a :: _, [] => compare (policyWeight a) 0
  | a :: left, b :: right => (compare (policyWeight a) (policyWeight b)).then (policyLex left right)

/-- The number that a text of digits stands for; it is zero for the empty text. -/
def decimal (digits : CString) : Nat := digits.foldl (fun n c => n * 10 + (c.val.toNat - 0x30)) 0

def leadingText (text : CString) : CString := text.takeWhile fun c => !asciiIsDigit c

def leadingDigits (text : CString) : CString :=
  (text.dropWhile fun c => !asciiIsDigit c).takeWhile asciiIsDigit

def behindDigits (text : CString) : CString :=
  (text.dropWhile fun c => !asciiIsDigit c).dropWhile asciiIsDigit

lemma behindDigits_length_lt {text : CString} (h : text ≠ []) :
    (behindDigits text).length < text.length := by
  cases text with
  | nil => exact absurd rfl h
  | cons c text =>
  unfold behindDigits
  cases hc : asciiIsDigit c with
  | false =>
    rw [List.dropWhile_cons_of_pos (by simp [hc])]
    calc _ ≤ (text.dropWhile fun c => !asciiIsDigit c).length := List.length_dropWhile_le _ _
      _ ≤ text.length := List.length_dropWhile_le _ _
      _ < (c :: text).length := Nat.lt_succ_self _
  | true =>
    rw [List.dropWhile_cons_of_neg (by simp [hc]), List.dropWhile_cons_of_pos hc]
    exact Nat.lt_succ_of_le (List.length_dropWhile_le _ _)

/-- The comparison of two parts: the characters before the first digits, then the numbers, and so on
until both parts are at their end. -/
def policyPart (left right : CString) : Ordering :=
  if left = [] ∧ right = [] then .eq
  else (policyLex (leadingText left) (leadingText right)).then
    ((compare (decimal (leadingDigits left)) (decimal (leadingDigits right))).then
      (policyPart (behindDigits left) (behindDigits right)))
termination_by left.length + right.length
decreasing_by
  rename_i h
  have hle : ∀ text : CString, (behindDigits text).length ≤ text.length := fun text =>
    (List.length_dropWhile_le _ _).trans (List.length_dropWhile_le _ _)
  rcases not_and_or.1 h with hleft | hright
  · exact Nat.add_lt_add_of_lt_of_le (behindDigits_length_lt hleft) (hle right)
  · exact Nat.add_lt_add_of_le_of_lt (hle left) (behindDigits_length_lt hright)

/-- Whether a version has an epoch: digits and a colon at its start. -/
def hasEpoch (version : CString) : Bool :=
  version.takeWhile asciiIsDigit != [] && (version.dropWhile asciiIsDigit).head? == some colon

/-- The epoch, which is zero if it is left out. -/
def policyEpoch (version : CString) : Nat :=
  if hasEpoch version then decimal (version.takeWhile asciiIsDigit) else 0

def policyBody (version : CString) : CString :=
  if hasEpoch version then (version.dropWhile asciiIsDigit).tail else version

/-- The text before the last hyphen, or the whole text. -/
def policyUpstream (body : CString) : CString :=
  if dash ∈ body then (body.rdropWhile (· != dash)).dropLast else body

/-- The text behind the last hyphen; a missing revision is the same as `0`. -/
def policyRevision (body : CString) : CString :=
  if dash ∈ body then body.rtakeWhile (· != dash) else [zeroDigit]

def policyCompare (left right : CString) : Ordering :=
  (compare (policyEpoch left) (policyEpoch right)).then
    ((policyPart (policyUpstream (policyBody left)) (policyUpstream (policyBody right))).then
      (policyPart (policyRevision (policyBody left)) (policyRevision (policyBody right))))

/-! ## The order of versions -/

open List

def signOf : Ordering → Int
  | .lt => -1
  | .eq => 0
  | .gt => 1

lemma signOf_swap (o : Ordering) : signOf o.swap = -signOf o := by cases o <;> rfl

lemma signOf_then (a b : Ordering) :
    signOf (a.then b) = if signOf a ≠ 0 then signOf a else signOf b := by
  cases a <;> rfl

lemma signOf_nonpos_iff (o : Ordering) : signOf o ≤ 0 ↔ o.isLE = true := by
  cases o <;> decide

/-! ## Keys -/

def partKey (text : CString) : List Int :=
  if text = [] then []
  else (leadingText text).map policyWeight ++
    0 :: (decimal (leadingDigits text) : Int) :: partKey (behindDigits text)
termination_by text.length
decreasing_by
  rename_i h
  exact behindDigits_length_lt h

section Padding

lemma padCompare_append_nil (xs ys : List Int) :
    padCompare 0 (xs ++ [0]) ys = padCompare 0 xs ys := by
  induction xs generalizing ys with
  | nil =>
    rw [nil_append, padCompare_step [] ys, padCompare_step]
    rfl
  | cons x xs ih =>
    rw [padCompare_step (x :: xs) ys, padCompare_step]
    exact congrArg _ (ih ys.tail)

/-- The key of a part starts with its characters and its first number, also if it is empty. -/
lemma padCompare_partKey_left (text : CString) (ys : List Int) :
    padCompare 0 (partKey text) ys = padCompare 0 ((leadingText text).map policyWeight ++
      0 :: (decimal (leadingDigits text) : Int) :: partKey (behindDigits text)) ys := by
  by_cases h : text = []
  · subst h
    have hkey : partKey [] = [] := by rw [partKey, if_pos rfl]
    show padCompare 0 (partKey []) ys = padCompare 0 ([] ++ 0 :: 0 :: partKey []) ys
    rw [hkey]
    calc padCompare 0 [] ys = padCompare 0 ([] ++ [0]) ys := (padCompare_append_nil [] ys).symm
      _ = padCompare 0 (([] ++ [0]) ++ [0]) ys := (padCompare_append_nil ([] ++ [0]) ys).symm
  · conv_lhs => rw [partKey, if_neg h]

lemma padCompare_partKey (left right : CString) :
    padCompare 0 (partKey left) (partKey right) =
      padCompare 0 ((leadingText left).map policyWeight ++
          0 :: (decimal (leadingDigits left) : Int) :: partKey (behindDigits left))
        ((leadingText right).map policyWeight ++
          0 :: (decimal (leadingDigits right) : Int) :: partKey (behindDigits right)) := by
  rw [padCompare_partKey_left, padCompare_swap, padCompare_partKey_left, ← padCompare_swap]

lemma policyWeight_ne_zero (c : CChar) : policyWeight c ≠ 0 := by
  have hpos : 0 < c.val.toNat := by
    have hne := c.property
    rw [Nat.pos_iff_ne_zero]
    intro hzero
    exact hne (UInt8.toNat_inj.1 hzero)
  unfold policyWeight
  split
  · decide
  · split <;> omega

/-- The end of the characters is compared with the characters of the other part. -/
lemma padCompare_weights (a b : CString) (xs ys : List Int) :
    padCompare 0 (a.map policyWeight ++ 0 :: xs) (b.map policyWeight ++ 0 :: ys) =
      (policyLex a b).then (padCompare 0 xs ys) := by
  induction a generalizing b with
  | nil =>
    cases b with
    | nil => simp [policyLex, padCompare]
    | cons d b =>
    rw [padCompare_step]
    have hne : compare 0 (policyWeight d) ≠ .eq := by
      rw [Ne, compare_eq_iff_eq]
      exact (policyWeight_ne_zero d).symm
    simp only [policyLex, map_nil, nil_append, headD_cons, map_cons, cons_append]
    cases hc : compare 0 (policyWeight d) with
    | lt => rfl
    | eq => exact absurd hc hne
    | gt => rfl
  | cons c a ih =>
    cases b with
    | nil =>
      rw [padCompare_step]
      have hne : compare (policyWeight c) 0 ≠ .eq := by
        rw [Ne, compare_eq_iff_eq]
        exact policyWeight_ne_zero c
      simp only [policyLex, map_nil, nil_append, headD_cons, map_cons, cons_append]
      cases hc : compare (policyWeight c) 0 with
      | lt => rfl
      | eq => exact absurd hc hne
      | gt => rfl
    | cons d b =>
      rw [padCompare_step]
      simp only [policyLex, map_cons, cons_append, headD_cons, tail_cons, ih]
      rw [Ordering.then_assoc]

lemma compare_natCast (a b : Nat) : compare (a : Int) (b : Int) = compare a b := by
  rcases lt_trichotomy a b with h | h | h
  · rw [compare_lt_iff_lt.2 h, compare_lt_iff_lt.2 (Int.ofNat_lt.2 h)]
  · rw [h, compare_eq_iff_eq.2 rfl, compare_eq_iff_eq.2 rfl]
  · rw [compare_gt_iff_gt.2 h, compare_gt_iff_gt.2 (Int.ofNat_lt.2 h)]

lemma policyPart_eq_key (left right : CString) :
    policyPart left right = padCompare 0 (partKey left) (partKey right) := by
  fun_induction policyPart left right with
  | case1 left right h =>
    rw [h.1, h.2, padCompare_self]
  | case2 left right h ih =>
    rw [padCompare_partKey, padCompare_weights, ih, padCompare_step (_ :: _) (_ :: _)]
    simp only [headD_cons, tail_cons, compare_natCast]

end Padding

/-! ## Numbers -/

section Numbers

def digitValue (c : CChar) : Nat := c.val.toNat - 0x30

lemma digitValue_lt {c : CChar} (h : asciiIsDigit c = true) : digitValue c < 10 := by
  simp only [asciiIsDigit, Bool.and_eq_true, decide_eq_true_eq, UInt8.le_iff_toNat_le] at h
  have hhigh : c.val.toNat ≤ 0x39 := h.2
  unfold digitValue
  omega

lemma val_lt_iff {a b : CChar} (ha : asciiIsDigit a = true) :
    a.val < b.val ↔ digitValue a < digitValue b := by
  simp only [asciiIsDigit, Bool.and_eq_true, decide_eq_true_eq, UInt8.le_iff_toNat_le] at ha
  have hlow : 0x30 ≤ a.val.toNat := ha.1
  rw [UInt8.lt_iff_toNat_lt]
  unfold digitValue
  omega

lemma digitValue_inj {a b : CChar} (ha : asciiIsDigit a = true) (hb : asciiIsDigit b = true)
    (h : digitValue a = digitValue b) : a = b := by
  simp only [asciiIsDigit, Bool.and_eq_true, decide_eq_true_eq, UInt8.le_iff_toNat_le] at ha hb
  have hlow : 0x30 ≤ a.val.toNat := ha.1
  have hlow' : 0x30 ≤ b.val.toNat := hb.1
  unfold digitValue at h
  exact Subtype.ext (UInt8.toNat_inj.1 (by omega))

lemma decimal_foldl (digits : CString) (n : Nat) :
    digits.foldl (fun n c => n * 10 + (c.val.toNat - 0x30)) n =
      n * 10 ^ digits.length + decimal digits := by
  induction digits generalizing n with
  | nil => simp [decimal]
  | cons c digits ih =>
    rw [decimal, foldl_cons, foldl_cons, ih, ih]
    rw [length_cons, pow_succ]
    ring

lemma decimal_cons (c : CChar) (digits : CString) :
    decimal (c :: digits) = digitValue c * 10 ^ digits.length + decimal digits := by
  rw [decimal, foldl_cons, decimal_foldl, zero_mul, zero_add]
  rfl

lemma decimal_lt {digits : CString} (h : ∀ c ∈ digits, asciiIsDigit c = true) :
    decimal digits < 10 ^ digits.length := by
  induction digits with
  | nil => simp [decimal]
  | cons c digits ih =>
    rw [forall_mem_cons] at h
    rw [decimal_cons, length_cons, pow_succ]
    have hc := digitValue_lt h.1
    have hrest := ih h.2
    have hmul : digitValue c * 10 ^ digits.length ≤ 9 * 10 ^ digits.length :=
      Nat.mul_le_mul_right _ (by omega)
    omega

lemma decimal_dropWhile (digits : CString) :
    decimal (digits.dropWhile (· == zeroDigit)) = decimal digits := by
  induction digits with
  | nil => rfl
  | cons c digits ih =>
    by_cases hc : c = zeroDigit
    · subst hc
      rw [dropWhile_cons_of_pos (by simp), ih, decimal_cons]
      simp [digitValue, zeroDigit]
    · rw [dropWhile_cons_of_neg (by rw [beq_iff_eq]; exact hc)]

variable {a b : CString}

lemma decimal_lt_of_length_lt (ha : ∀ c ∈ a, asciiIsDigit c = true)
    (hb : ∀ c ∈ b, asciiIsDigit c = true) (hzero : b.head? ≠ some zeroDigit)
    (h : a.length < b.length) : decimal a < decimal b := by
  cases b with
  | nil => exact absurd h (by simp)
  | cons c b =>
  rw [forall_mem_cons] at hb
  have hc : 1 ≤ digitValue c := by
    rw [Nat.one_le_iff_ne_zero]
    intro hvalue
    exact hzero (congrArg some (digitValue_inj hb.1 (by decide) hvalue))
  rw [length_cons] at h
  calc decimal a < 10 ^ a.length := decimal_lt ha
    _ ≤ 10 ^ b.length := Nat.pow_le_pow_right (by decide) (by omega)
    _ = 1 * 10 ^ b.length := (one_mul _).symm
    _ ≤ digitValue c * 10 ^ b.length := Nat.mul_le_mul_right _ hc
    _ ≤ decimal (c :: b) := by rw [decimal_cons]; exact Nat.le_add_right _ _

lemma signOf_compare (m n : Nat) :
    signOf (compare m n) = if m < n then -1 else if n < m then 1 else 0 := by
  rcases lt_trichotomy m n with h | h | h
  · rw [compare_lt_iff_lt.2 h, if_pos h]
    rfl
  · rw [compare_eq_iff_eq.2 h, if_neg h.not_lt, if_neg h.symm.not_lt]
    rfl
  · rw [compare_gt_iff_gt.2 h, if_neg h.not_gt, if_pos h]
    rfl

section

variable (ha : ∀ c ∈ a, asciiIsDigit c = true)
include ha

lemma decimal_cons_lt (h : a.length = b.length) {c d : CChar}
    (hcd : digitValue c < digitValue d) : decimal (c :: a) < decimal (d :: b) := by
  have hmul : (digitValue c + 1) * 10 ^ b.length ≤ digitValue d * 10 ^ b.length :=
    Nat.mul_le_mul_right _ hcd
  have hrest := decimal_lt ha
  rw [decimal_cons, decimal_cons, h]
  rw [h] at hrest
  rw [add_mul, one_mul] at hmul
  omega

lemma digitsLoop_eq (hb : ∀ c ∈ b, asciiIsDigit c = true) (h : a.length = b.length) :
    digitsLoop a b = signOf (compare (decimal a) (decimal b)) := by
  induction a generalizing b with
  | nil =>
    rw [length_eq_zero_iff.1 h.symm]
    simp [digitsLoop, signOf]
  | cons c a ih =>
    cases b with
    | nil => exact absurd h (by simp)
    | cons d b =>
    rw [forall_mem_cons] at ha hb
    rw [length_cons, length_cons, Nat.add_right_cancel_iff] at h
    rw [digitsLoop, signOf_compare]
    by_cases hcd : c = d
    · subst hcd
      rw [if_neg (by simp), ih ha.2 hb.2 h, signOf_compare, decimal_cons, decimal_cons, h]
      simp only [Nat.add_lt_add_iff_left]
    rw [if_pos hcd]
    rcases lt_trichotomy (digitValue c) (digitValue d) with hlt | heq | hgt
    · rw [if_pos ((val_lt_iff ha.1).2 hlt), if_pos (decimal_cons_lt ha.2 h hlt)]
    · exact absurd (digitValue_inj ha.1 hb.1 heq) hcd
    · have hless := decimal_cons_lt hb.2 h.symm hgt
      rw [if_neg fun hval => hgt.not_gt ((val_lt_iff ha.1).1 hval), if_neg hless.not_gt,
        if_pos hless]

/-- What `version_part_compare` does with two numbers, after their leading zeros. -/
lemma numbers_eq (hb : ∀ c ∈ b, asciiIsDigit c = true) :
    (if (a.dropWhile (· == zeroDigit)).length ≠ (b.dropWhile (· == zeroDigit)).length then
        if (a.dropWhile (· == zeroDigit)).length < (b.dropWhile (· == zeroDigit)).length then -1
        else 1
      else digitsLoop (a.dropWhile (· == zeroDigit)) (b.dropWhile (· == zeroDigit))) =
      signOf (compare (decimal a) (decimal b)) := by
  have hdigits : ∀ {d : CString}, (∀ c ∈ d, asciiIsDigit c = true) →
      ∀ c ∈ d.dropWhile (· == zeroDigit), asciiIsDigit c = true :=
    fun hd c hc => hd c ((dropWhile_sublist _).subset hc)
  have hhead : ∀ d : CString, (d.dropWhile (· == zeroDigit)).head? ≠ some zeroDigit := by
    intro d hd
    have := head?_dropWhile_not (fun c : CChar => c == zeroDigit) d
    rw [hd] at this
    simp at this
  rw [← decimal_dropWhile, ← decimal_dropWhile b]
  split
  · next hne =>
    rw [signOf_compare]
    split
    · next hlt =>
      rw [if_pos (decimal_lt_of_length_lt (hdigits ha) (hdigits hb) (hhead b) hlt)]
    next hge =>
    have hless := decimal_lt_of_length_lt (hdigits hb) (hdigits ha) (hhead a)
      (Nat.lt_of_le_of_ne (not_lt.1 hge) (Ne.symm hne))
    rw [if_neg hless.not_gt, if_pos hless]
  · next heq => exact digitsLoop_eq (hdigits ha) (hdigits hb) (not_not.1 heq)

end

end Numbers

/-! ## Parts -/

section Parts

variable (text : CString)

lemma runHead_dropWhile : runHead (text.dropWhile fun c => !asciiIsDigit c) = none := by
  have hnot := head?_dropWhile_not (fun c => !asciiIsDigit c) text
  unfold runHead
  cases hhead : (text.dropWhile fun c => !asciiIsDigit c).head? with
  | none => rfl
  | some =>
    rw [hhead] at hnot
    simpa using hnot

lemma runHead_cons {c : CChar} (h : asciiIsDigit c = false) (text : CString) :
    runHead (c :: text) = some c := by
  simp [runHead, h]

lemma versionCharacterOrder_some (c : CChar) : versionCharacterOrder (some c) = policyWeight c :=
  rfl

variable {p : CChar → Bool} {a left rest right : CString} {fuel : Nat}

/-- The loop over the characters that are not digits compares them as the policy does. -/
lemma characterLoop_eq {b : CString} (ha : ∀ c ∈ a, asciiIsDigit c = false)
    (hb : ∀ c ∈ b, asciiIsDigit c = false) (hleft : runHead left = none)
    (hright : runHead right = none) (hfuel : a.length < fuel) :
    characterLoop fuel (a ++ left) (b ++ right) =
      if policyLex a b = .eq then .inr (left, right) else .inl (signOf (policyLex a b)) := by
  induction fuel generalizing a b with
  | zero => exact absurd hfuel (by simp)
  | succ fuel ih =>
    -- A difference of the weights ends the loop with the sign of the comparison.
    have hdiffers : ∀ x y : Int, x ≠ y → ∀ o : Ordering,
        (compare x y).then o ≠ .eq ∧
          (if x < y then (-1 : Int) else 1) = signOf ((compare x y).then o) := by
      intro x y hxy o
      rcases lt_or_gt_of_ne hxy with h | h
      · rw [compare_lt_iff_lt.2 h, if_pos h]
        exact ⟨by simp, rfl⟩
      · rw [compare_gt_iff_gt.2 h, if_neg h.not_gt]
        exact ⟨by simp, rfl⟩
    have hdiffers' : ∀ x y : Int, x ≠ y → compare x y ≠ .eq ∧
        (if x < y then (-1 : Int) else 1) = signOf (compare x y) := by
      intro x y hxy
      have := hdiffers x y hxy .eq
      rwa [Ordering.then_eq] at this
    unfold characterLoop
    match a, b, ha, hb with
    | [], [], _, _ =>
      rw [nil_append, nil_append, hleft, hright, if_pos ⟨rfl, rfl⟩]
      rfl
    | [], d :: b, _, hb =>
      rw [forall_mem_cons] at hb
      have hne := (policyWeight_ne_zero d).symm
      rw [nil_append, cons_append, hleft, runHead_cons hb.1, if_neg (by simp),
        versionCharacterOrder_some, versionCharacterOrder, if_pos hne, policyLex,
        if_neg (hdiffers' _ _ hne).1, (hdiffers' _ _ hne).2]
    | c :: a, [], ha, _ =>
      rw [forall_mem_cons] at ha
      have hne := policyWeight_ne_zero c
      rw [nil_append, cons_append, hright, runHead_cons ha.1, if_neg (by simp),
        versionCharacterOrder_some, versionCharacterOrder, if_pos hne, policyLex,
        if_neg (hdiffers' _ _ hne).1, (hdiffers' _ _ hne).2]
    | c :: a, d :: b, ha, hb =>
      rw [forall_mem_cons] at ha hb
      rw [cons_append, cons_append, runHead_cons ha.1, runHead_cons hb.1,
        if_neg (by simp), versionCharacterOrder_some, versionCharacterOrder_some, policyLex]
      by_cases hne : policyWeight c = policyWeight d
      · rw [if_neg (by simpa using hne), compare_eq_iff_eq.2 hne]
        exact ih ha.2 hb.2 (by simpa using hfuel)
      · rw [if_pos hne, if_neg (hdiffers _ _ hne _).1, (hdiffers _ _ hne _).2]

lemma dropWhile_append_of_head (a : CString) (h : ∀ c, rest.head? = some c → p c = false) :
    (a ++ rest).dropWhile p = a.dropWhile p ++ rest := by
  induction a with
  | nil =>
    cases rest with
    | nil => rfl
    | cons c => simp [h c rfl]
  | cons c a ih =>
    cases hc : p c with
    | true => rw [cons_append, dropWhile_cons_of_pos hc, dropWhile_cons_of_pos hc, ih]
    | false =>
      rw [cons_append, dropWhile_cons_of_neg (by simp [hc]),
        dropWhile_cons_of_neg (by simp [hc]), cons_append]

lemma takeWhile_append_of_head (ha : ∀ c ∈ a, p c = true)
    (h : ∀ c, rest.head? = some c → p c = false) : (a ++ rest).takeWhile p = a := by
  rw [takeWhile_append_of_pos ha]
  cases rest with
  | nil => simp
  | cons c => simp [h c rfl]

lemma not_digit_of_mem_leadingText : ∀ c ∈ leadingText text, asciiIsDigit c = false := by
  intro c hc
  simpa using mem_takeWhile_imp hc

lemma digit_of_mem_leadingDigits : ∀ c ∈ leadingDigits text, asciiIsDigit c = true :=
  fun _ hc => mem_takeWhile_imp hc

lemma behindDigits_head : ∀ c, (behindDigits text).head? = some c → asciiIsDigit c = false := by
  intro c hc
  have hnot := head?_dropWhile_not asciiIsDigit (text.dropWhile fun c => !asciiIsDigit c)
  unfold behindDigits at hc
  rw [hc] at hnot
  simpa using hnot

/-- What is behind the characters, after the leading zeros: the other digits, and the rest. -/
lemma digits_after_zeros :
    ((text.dropWhile fun c => !asciiIsDigit c).dropWhile (· == zeroDigit)).takeWhile asciiIsDigit =
        (leadingDigits text).dropWhile (· == zeroDigit) ∧
      ((text.dropWhile fun c => !asciiIsDigit c).dropWhile (· == zeroDigit)).drop
        ((leadingDigits text).dropWhile (· == zeroDigit)).length = behindDigits text := by
  have hsplit : (text.dropWhile fun c => !asciiIsDigit c) =
      leadingDigits text ++ behindDigits text := takeWhile_append_dropWhile.symm
  have hzero : ∀ c, (behindDigits text).head? = some c → (c == zeroDigit) = false := by
    intro c hc
    rw [beq_eq_false_iff_ne]
    rintro rfl
    exact absurd (behindDigits_head text _ hc) (by decide)
  have hdrop : (text.dropWhile fun c => !asciiIsDigit c).dropWhile (· == zeroDigit) =
      (leadingDigits text).dropWhile (· == zeroDigit) ++ behindDigits text := by
    rw [hsplit, dropWhile_append_of_head _ hzero]
  have hdigits : ∀ c ∈ (leadingDigits text).dropWhile (· == zeroDigit), asciiIsDigit c = true :=
    fun c hc => digit_of_mem_leadingDigits text c ((dropWhile_sublist _).subset hc)
  rw [hdrop]
  exact ⟨takeWhile_append_of_head hdigits (behindDigits_head text), drop_left⟩

lemma partLoop_eq (hfuel : left.length + right.length < fuel) :
    partLoop fuel left right = signOf (padCompare 0 (partKey left) (partKey right)) := by
  induction fuel generalizing left right with
  | zero => exact absurd hfuel (by simp)
  | succ fuel ih =>
    unfold partLoop
    by_cases hend : left = [] ∧ right = []
    · rw [if_pos hend, hend.1, hend.2, padCompare_self]
      rfl
    have hlength : ∀ text : CString, (leadingText text).length ≤ text.length :=
      fun text => (takeWhile_sublist _).length_le
    have hchars : characterLoop (left.length + right.length + 1) left right =
        if policyLex (leadingText left) (leadingText right) = .eq then
          .inr (left.dropWhile fun c => !asciiIsDigit c, right.dropWhile fun c => !asciiIsDigit c)
        else .inl (signOf (policyLex (leadingText left) (leadingText right))) := by
      have hsplit : ∀ text : CString,
          leadingText text ++ (text.dropWhile fun c => !asciiIsDigit c) = text :=
        fun _ => takeWhile_append_dropWhile
      have hloop := characterLoop_eq (not_digit_of_mem_leadingText left)
        (not_digit_of_mem_leadingText right) (runHead_dropWhile left) (runHead_dropWhile right)
        (Nat.lt_succ_of_le ((hlength left).trans (Nat.le_add_right _ right.length)))
      rwa [hsplit, hsplit] at hloop
    rw [if_neg hend, padCompare_partKey, padCompare_weights, hchars]
    cases hlex : policyLex (leadingText left) (leadingText right) with
    | lt => rfl
    | gt => rfl
    | eq =>
      obtain ⟨hdigits, hrest⟩ := digits_after_zeros left
      obtain ⟨hdigits', hrest'⟩ := digits_after_zeros right
      have hnext : partLoop fuel (behindDigits left) (behindDigits right) =
          signOf (padCompare 0 (partKey (behindDigits left)) (partKey (behindDigits right))) := by
        have hle : ∀ text : CString, (behindDigits text).length ≤ text.length := fun text =>
          (length_dropWhile_le _ _).trans (length_dropWhile_le _ _)
        refine ih ?_
        have h₁ := hle left
        have h₂ := hle right
        rcases not_and_or.1 hend with hne | hne
        · have := behindDigits_length_lt hne
          omega
        · have := behindDigits_length_lt hne
          omega
      rw [if_pos rfl]
      dsimp only
      rw [hdigits, hdigits', hrest, hrest', hnext, padCompare_step (_ :: _) (_ :: _)]
      simp only [headD_cons, tail_cons, compare_natCast, Ordering.eq_then, signOf_then]
      rw [← numbers_eq (digit_of_mem_leadingDigits left) (digit_of_mem_leadingDigits right)]
      -- Numbers with different counts of digits are different.
      by_cases hlengths : ((leadingDigits left).dropWhile (· == zeroDigit)).length =
          ((leadingDigits right).dropWhile (· == zeroDigit)).length
      · simp only [hlengths, ne_eq, not_true_eq_false, if_false]
      · simp only [ne_eq, hlengths, not_false_eq_true, if_true]
        split <;> rfl

lemma versionPartCompare_eq_key (left right : CString) :
    versionPartCompare left right = signOf (padCompare 0 (partKey left) (partKey right)) :=
  partLoop_eq (Nat.lt_succ_self _)

end Parts

/-! ## Versions -/

section Versions

lemma versionEpoch_eq (version : CString) : versionEpoch version =
    (if hasEpoch version then (version.takeWhile asciiIsDigit).foldl epochDigit 0 else 0,
      policyBody version) := by
  unfold versionEpoch policyBody
  have hiff : (version.takeWhile asciiIsDigit ≠ [] ∧
      (version.dropWhile asciiIsDigit).head? = some colon) ↔ hasEpoch version = true := by
    simp [hasEpoch]
  by_cases h : hasEpoch version = true
  · rw [if_pos (hiff.2 h), if_pos h, if_pos h, drop_one]
  · rw [if_neg (fun hnot => h (hiff.1 hnot)), if_neg h, if_neg h]

/-- An epoch that fits 63 bits is computed without leaving out a digit. -/
lemma foldl_epochDigit {digits : CString} {n : Nat}
    (h : n * 10 ^ digits.length + decimal digits < 2 ^ 63) :
    digits.foldl epochDigit n = n * 10 ^ digits.length + decimal digits := by
  induction digits generalizing n with
  | nil => simp [decimal]
  | cons c digits ih =>
    have hexpand : n * 10 ^ (c :: digits).length + decimal (c :: digits) =
        (n * 10 + digitValue c) * 10 ^ digits.length + decimal digits := by
      rw [decimal_cons, length_cons, pow_succ]
      ring
    rw [hexpand] at h ⊢
    have hsmall : n * 10 ≤ (n * 10 + digitValue c) * 10 ^ digits.length :=
      (Nat.le_add_right _ _).trans (Nat.le_mul_of_pos_right _ (pos_of_ne_zero (by simp)))
    have hstep : epochDigit n c = n * 10 + digitValue c := by
      unfold epochDigit
      rw [if_pos (by omega)]
      rfl
    rw [foldl_cons, hstep, ih h]

lemma versionEpoch_fst {version : CString} (h : policyEpoch version < 2 ^ 63) :
    (versionEpoch version).1 = policyEpoch version := by
  rw [versionEpoch_eq]
  unfold policyEpoch at h ⊢
  split
  · next hepoch =>
    rw [if_pos hepoch] at h
    rw [foldl_epochDigit (by simpa using h)]
    simp
  · rfl

lemma revisionLoop_of_not_mem {text : CString} (h : dash ∉ text) (i revision : Nat) :
    revisionLoop text i revision = revision := by
  induction text generalizing i with
  | nil => rfl
  | cons c text ih =>
    rw [mem_cons, not_or] at h
    rw [revisionLoop, if_neg (Ne.symm h.1), ih h.2]

lemma revisionLoop_append (front : CString) {behind : CString} (h : dash ∉ behind)
    (i revision : Nat) : revisionLoop (front ++ dash :: behind) i revision = i + front.length := by
  induction front generalizing i revision with
  | nil => rw [nil_append, revisionLoop, if_pos rfl, revisionLoop_of_not_mem h]; rfl
  | cons c front ih =>
    rw [cons_append, revisionLoop, ih, length_cons]
    omega

lemma splitRevision_eq (body : CString) :
    splitRevision body = (policyUpstream body, policyRevision body) := by
  unfold splitRevision policyUpstream policyRevision
  by_cases hdash : dash ∈ body
  · rw [if_pos hdash, if_pos hdash]
    -- The text is cut at its last hyphen.
    obtain ⟨back, front, hreverse, hback⟩ :=
      eq_append_cons_of_mem (mem_reverse.2 hdash)
    have hbody : body = front.reverse ++ dash :: back.reverse := by
      have := congrArg reverse hreverse
      simpa using this
    have hbehind : dash ∉ back.reverse := by simpa using hback
    have hall : ∀ c ∈ back, (c != dash) = true := by
      intro c hc
      rw [bne_iff_ne]
      rintro rfl
      exact hback hc
    have hdrop : body.rdropWhile (· != dash) = front.reverse ++ [dash] := by
      rw [rdropWhile, hreverse, dropWhile_append_of_pos hall]
      simp
    have htake : body.rtakeWhile (· != dash) = back.reverse := by
      rw [rtakeWhile, hreverse, takeWhile_append_of_pos hall]
      simp
    rw [hdrop, htake, dropLast_concat]
    conv_lhs => rw [hbody]
    dsimp only
    rw [revisionLoop_append _ hbehind, zero_add, take_left, if_pos (by simp)]
    rw [drop_append, drop_of_length_le (Nat.le_succ _), nil_append]
    simp
  · rw [if_neg hdash, if_neg hdash]
    dsimp only
    rw [revisionLoop_of_not_mem hdash, take_length, if_neg (lt_irrefl _)]

def keyCompare (left right : CString) : Ordering :=
  (compare (versionEpoch left).1 (versionEpoch right).1).then
    ((padCompare 0 (partKey (policyUpstream (policyBody left)))
      (partKey (policyUpstream (policyBody right)))).then
      (padCompare 0 (partKey (policyRevision (policyBody left)))
        (partKey (policyRevision (policyBody right)))))

lemma debianVersionCompare_eq_key (left right : CString) :
    debianVersionCompare left right = signOf (keyCompare left right) := by
  have hbody : ∀ version, (versionEpoch version).2 = policyBody version := by
    intro version
    rw [versionEpoch_eq]
  unfold debianVersionCompare keyCompare
  dsimp only
  rw [hbody, hbody, signOf_then, signOf_then, ← versionPartCompare_eq_key,
    ← versionPartCompare_eq_key, splitRevision_eq, splitRevision_eq, signOf_compare]
  rcases lt_trichotomy (versionEpoch left).1 (versionEpoch right).1 with h | h | h
  · simp [h, h.ne]
  · simp [h]
  · simp [h, h.ne', h.not_gt]

lemma policyCompare_eq_key {left right : CString} (hleft : policyEpoch left < 2 ^ 63)
    (hright : policyEpoch right < 2 ^ 63) : policyCompare left right = keyCompare left right := by
  rw [policyCompare, keyCompare, versionEpoch_fst hleft, versionEpoch_fst hright,
    policyPart_eq_key, policyPart_eq_key]

lemma transCmp_keyCompare : Std.TransCmp keyCompare := by
  have hepoch : Std.TransCmp fun left right : CString =>
      compare (versionEpoch left).1 (versionEpoch right).1 := transCmp_comap _
  have hupstream : Std.TransCmp fun left right : CString =>
      padCompare 0 (partKey (policyUpstream (policyBody left)))
        (partKey (policyUpstream (policyBody right))) := transCmp_comap _
  have hrevision : Std.TransCmp fun left right : CString =>
      padCompare 0 (partKey (policyRevision (policyBody left)))
        (partKey (policyRevision (policyBody right))) := transCmp_comap _
  exact inferInstanceAs (Std.TransCmp (compareLex _ (compareLex _ _)))

/-- `debian_version_compare` is a total preorder on all strings, and its sign is the one of the
comparison of the policy where both epochs are below `2 ^ 63`. -/
theorem debianVersionCompare_order :
    (∀ a, debianVersionCompare a a = 0) ∧
    (∀ a b, debianVersionCompare b a = -debianVersionCompare a b) ∧
    (∀ a b c, debianVersionCompare a b ≤ 0 → debianVersionCompare b c ≤ 0 →
      debianVersionCompare a c ≤ 0) ∧
    ∀ a b, policyEpoch a < 2 ^ 63 → policyEpoch b < 2 ^ 63 →
      debianVersionCompare a b = signOf (policyCompare a b) := by
  have htrans := transCmp_keyCompare
  simp only [debianVersionCompare_eq_key]
  refine ⟨fun a => ?_, fun a b => ?_, fun a b c hab hbc => ?_, fun a b ha hb => ?_⟩
  · have hself : keyCompare a a = .eq := Std.ReflCmp.compare_self
    rw [hself]
    rfl
  · have hswap : keyCompare b a = (keyCompare a b).swap := Std.OrientedCmp.eq_swap
    rw [hswap, signOf_swap]
  · rw [signOf_nonpos_iff] at hab hbc ⊢
    exact Std.TransCmp.isLE_trans hab hbc
  · rw [policyCompare_eq_key ha hb]

end Versions

theorem debianVersionCompare_order_tilde :
    debianVersionCompare (ofString "1:1.0~rc1") (ofString "1:1.0") ≤ 0 ∧
      debianVersionCompare (ofString "1:1.0~rc1") (ofString "1:1.0") =
        signOf (policyCompare (ofString "1:1.0~rc1") (ofString "1:1.0")) :=
  ⟨by decide +kernel, debianVersionCompare_order.2.2.2 _ _ (by decide +kernel) (by decide +kernel)⟩

/-- The cases of the policy that are easy to get wrong: a tilde before the end, letters before other
characters, numbers by value, and a missing revision. -/
example : debianVersionCompare (ofString "1.0~rc1") (ofString "1.0") = -1 ∧
    debianVersionCompare (ofString "1.0a") (ofString "1.0+") = -1 ∧
    debianVersionCompare (ofString "1.010") (ofString "1.9") = 1 ∧
    debianVersionCompare (ofString "1:0.1") (ofString "2.0-1") = 1 ∧
    debianVersionCompare (ofString "1.0-0") (ofString "1.0") = 0 := by
  decide +kernel

end AosKernel.Uni
