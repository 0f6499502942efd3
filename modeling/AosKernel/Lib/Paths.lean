import Mathlib.Tactic
import Mathlib.Data.List.Infix

/-!
# Absolute paths as lists of components

Over an alphabet with a separator, an absolute path is a list of components, and `render` is its
text: a separator before each component. When no component has the separator in it, a path lies
below another one component by component exactly if its text continues the other's text at a
separator (`render_below_iff`), and the places where the text can be cut before a separator are the
ancestors of the path (`mem_cuts_render_iff`).
-/

namespace AosKernel.Lib

variable {α : Type} {p : α → Bool}

/-- The pieces between the separators. -/
def splitBy (p : α → Bool) : List α → List (List α)
  | [] => [[]]
  | c :: rest =>
      if p c then [] :: splitBy p rest
      else match splitBy p rest with
        | [] => [[c]]
        | d :: ds => (c :: d) :: ds

lemma splitBy_ne_nil (text : List α) : splitBy p text ≠ [] := by
  cases text with
  | nil => simp [splitBy]
  | cons =>
  unfold splitBy
  split
  · simp
  · split <;> simp

variable {text piece : List α}

lemma not_sep_of_mem_splitBy (h : piece ∈ splitBy p text) : ∀ x ∈ piece, p x = false := by
  induction text generalizing piece with
  | nil =>
    simp only [splitBy, List.mem_singleton] at h
    simp [h]
  | cons c rest ih =>
    unfold splitBy at h
    split at h
    · rcases List.mem_cons.1 h with rfl | h
      · simp
      · exact ih h
    next hc =>
    split at h
    · next hnil => exact absurd hnil (splitBy_ne_nil rest)
    next d ds heq =>
    rcases List.mem_cons.1 h with rfl | h
    · intro x hx
      rcases List.mem_cons.1 hx with rfl | hx
      · exact Bool.not_eq_true _ ▸ hc
      · exact ih (by rw [heq]; simp) x hx
    · exact ih (by rw [heq]; simp [h])

lemma splitBy_of_not_sep (h : ∀ x ∈ text, p x = false) : splitBy p text = [text] := by
  induction text with
  | nil => rfl
  | cons c rest ih =>
    rw [splitBy, if_neg (by simp [h]), ih fun x hx => h x (by simp [hx])]

variable {s : α}

lemma splitBy_append (h : ∀ x ∈ piece, p x = false) (hs : p s = true) (rest : List α) :
    splitBy p (piece ++ s :: rest) = piece :: splitBy p rest := by
  induction piece with
  | nil => simp [splitBy, hs]
  | cons c piece ih =>
    rw [List.cons_append, splitBy, if_neg (by simp [h]), ih fun x hx => h x (by simp [hx])]

/-- The lines of a text, as a scanner sees them that skips the runs of separators between them. -/
def lines (p : α → Bool) (text : List α) : List (List α) :=
  if text.isEmpty then []
  else match splitBy p text with
    | [] => []
    | first :: rest => first :: rest.filter fun line => !line.isEmpty

lemma splitBy_append_sep (a : List α) (hs : p s = true) (b : List α) :
    splitBy p (a ++ s :: b) = splitBy p a ++ splitBy p b := by
  induction a with
  | nil => simp [splitBy, hs]
  | cons c a ih =>
    simp only [List.cons_append, splitBy, ih]
    split
    · rfl
    · cases hsplit : splitBy p a with
      | nil => exact absurd hsplit (splitBy_ne_nil a)
      | cons => rfl

lemma length_le_of_mem_splitBy (h : piece ∈ splitBy p text) : piece.length ≤ text.length := by
  induction text generalizing piece with
  | nil =>
    simp only [splitBy, List.mem_singleton] at h
    simp [h]
  | cons c rest ih =>
    have hrest : ∀ piece' ∈ splitBy p rest, piece'.length ≤ (c :: rest).length :=
      fun piece' hmem => (ih hmem).trans (Nat.le_succ _)
    unfold splitBy at h
    split at h
    · rcases List.mem_cons.1 h with rfl | h
      · exact Nat.zero_le _
      · exact hrest piece h
    split at h
    · next hnil => exact absurd hnil (splitBy_ne_nil rest)
    next first others hsplit =>
    rw [hsplit] at ih hrest
    rcases List.mem_cons.1 h with rfl | h
    · exact Nat.succ_le_succ (ih List.mem_cons_self)
    · exact hrest piece (List.mem_cons_of_mem _ h)

/-- Behind a separator, the lines go on with the non-empty lines of the rest. -/
lemma lines_append_sep (a : List α) (hs : p s = true) (b : List α) :
    lines p (a ++ s :: b) =
      lines p (a ++ [s]) ++ (splitBy p b).filter fun line => !line.isEmpty := by
  unfold lines
  rw [if_neg (by simp), if_neg (by simp), splitBy_append_sep a hs b, splitBy_append_sep a hs []]
  cases hsplit : splitBy p a with
  | nil => exact absurd hsplit (splitBy_ne_nil a)
  | cons => simp [splitBy]

lemma mem_lines_append {line : List α} (h : ∀ x ∈ line, p x = false) (hs : p s = true)
    (rest : List α) : line ∈ lines p (line ++ s :: rest) := by
  unfold lines
  rw [splitBy_append h hs, if_neg (by simp)]
  exact List.mem_cons_self

end AosKernel.Lib

/-! ## Absolute paths -/

namespace AosKernel.Lib.Paths

open List

variable {α : Type} {sep : α}

/-- The text of a path. -/
def render (sep : α) (comps : List (List α)) : List α := comps.flatMap (sep :: ·)

/-- No component has the separator in it. -/
def Separated (sep : α) (comps : List (List α)) : Prop := ∀ c ∈ comps, sep ∉ c

@[simp] lemma render_nil : render sep [] = [] := rfl

@[simp] lemma render_cons (c : List α) (comps : List (List α)) :
    render sep (c :: comps) = sep :: (c ++ render sep comps) := by
  simp [render]

@[simp] lemma render_append (a b : List (List α)) :
    render sep (a ++ b) = render sep a ++ render sep b := by
  simp [render]

lemma render_head (comps : List (List α)) :
    render sep comps = [] ∨ (render sep comps).head? = some sep := by
  cases comps <;> simp

lemma Separated.tail {c : List α} {comps : List (List α)} (h : Separated sep (c :: comps)) :
    Separated sep comps := fun d hd => h d (mem_cons_of_mem _ hd)

/-- Two texts that go on at a separator, or end, have the same first component. -/
lemma append_inj_of_not_mem {a b s t : List α} (ha : sep ∉ a) (hb : sep ∉ b)
    (hs : s = [] ∨ s.head? = some sep) (ht : t = [] ∨ t.head? = some sep)
    (h : a ++ s = b ++ t) : a = b ∧ s = t := by
  induction a generalizing b with
  | nil =>
    cases b with
    | nil => exact ⟨rfl, h⟩
    | cons =>
    subst h
    simp only [mem_cons, not_or] at hb
    rcases hs with hs | hs
    · simp at hs
    · simp only [cons_append, head?_cons, Option.some.injEq] at hs
      exact absurd hs.symm hb.1
  | cons y a ih =>
    cases b with
    | nil =>
      subst h
      simp only [mem_cons, not_or] at ha
      rcases ht with ht | ht
      · simp at ht
      · simp only [cons_append, head?_cons, Option.some.injEq] at ht
        exact absurd ht.symm ha.1
    | cons =>
      simp only [cons_append, cons.injEq] at h
      simp only [mem_cons, not_or] at ha hb
      obtain ⟨rfl, rfl⟩ := ih ha.2 hb.2 h.2
      exact ⟨by rw [h.1], rfl⟩

/-- A path lies below another one exactly if its text goes on after the other's text at a separator,
or ends there. -/
theorem render_below_iff {p q : List (List α)} (hp : Separated sep p) (hq : Separated sep q) :
    (∃ rest, render sep p = render sep q ++ rest ∧ (rest = [] ∨ rest.head? = some sep)) ↔
      q <+: p := by
  constructor
  · rintro ⟨rest, h, hrest⟩
    induction q generalizing p with
    | nil => exact nil_prefix
    | cons d q ih =>
      cases p with
      | nil => simp at h
      | cons c p =>
      simp only [render_cons, cons_append, cons.injEq, true_and, append_assoc] at h
      -- The rest after the component `d` starts at a separator too.
      have hright : render sep q ++ rest = [] ∨ (render sep q ++ rest).head? = some sep := by
        cases q with
        | nil => simpa using hrest
        | cons e q => simp
      obtain ⟨rfl, htail⟩ := append_inj_of_not_mem (hp c (by simp)) (hq d (by simp))
        (render_head p) hright h
      obtain ⟨more, rfl⟩ := ih hp.tail hq.tail htail
      exact ⟨more, rfl⟩
  · rintro ⟨more, rfl⟩
    exact ⟨render sep more, by simp, render_head more⟩

/-! ## Relative texts -/

/-- The text of a path without its first separator. -/
def relative (sep : α) (comps : List (List α)) : List α := (render sep comps).tail

lemma cons_relative {comps : List (List α)} (h : comps ≠ []) :
    sep :: relative sep comps = render sep comps := by
  cases comps with
  | nil => exact absurd rfl h
  | cons => simp [relative]

lemma relative_concat (comps : List (List α)) (c : List α) :
    relative sep (comps ++ [c]) = if comps = [] then c else relative sep comps ++ sep :: c := by
  cases comps with
  | nil | cons => simp [relative]

lemma relative_length_le (a b : List (List α)) :
    (relative sep a).length ≤ (relative sep (a ++ b)).length := by
  simp only [relative, render_append, length_tail, length_append]
  omega

/-! ## Ancestors -/

section Cuts

variable [DecidableEq α]

/-- The texts that end before a separator of `rest`, when `before` is the text in front of it. -/
def cutsFrom (sep : α) (before : List α) : List α → List (List α)
  | [] => []
  | c :: rest =>
      if c = sep then before :: cutsFrom sep (before ++ [c]) rest
      else cutsFrom sep (before ++ [c]) rest

/-- The texts that end before a separator other than the first character. -/
def cuts (sep : α) : List α → List (List α)
  | [] => []
  | c :: rest => cutsFrom sep [c] rest

lemma cutsFrom_append {c : List α} (hc : sep ∉ c) (before rest : List α) :
    cutsFrom sep before (c ++ rest) = cutsFrom sep (before ++ c) rest := by
  induction c generalizing before with
  | nil => simp
  | cons x c ih =>
    simp only [mem_cons, not_or] at hc
    rw [cons_append, cutsFrom, if_neg (Ne.symm hc.1), ih hc.2]
    simp

lemma mem_cutsFrom_render_iff {comps : List (List α)} (h : Separated sep comps)
    (before text : List α) :
    text ∈ cutsFrom sep before (render sep comps) ↔
      ∃ k < comps.length, text = before ++ render sep (comps.take k) := by
  induction comps generalizing before with
  | nil => simp [cutsFrom]
  | cons c comps ih =>
    rw [render_cons, cutsFrom, if_pos rfl, cutsFrom_append (h c (by simp)), mem_cons, ih h.tail]
    constructor
    · rintro (rfl | ⟨k, hk, rfl⟩)
      · exact ⟨0, by simp, by simp⟩
      · exact ⟨k + 1, by simpa using hk, by simp⟩
    · rintro ⟨k, hk, rfl⟩
      cases k with
      | zero => exact .inl (by simp)
      | succ k => exact .inr ⟨k, by simpa using hk, by simp⟩

/-- The cuts of a path are its proper ancestors. -/
theorem mem_cuts_render_iff {comps : List (List α)} (h : Separated sep comps) (text : List α) :
    text ∈ cuts sep (render sep comps) ↔
      ∃ k, 0 < k ∧ k < comps.length ∧ text = render sep (comps.take k) := by
  cases comps with
  | nil => simp [cuts]
  | cons c comps =>
  rw [render_cons, cuts, cutsFrom_append (h c (by simp)), mem_cutsFrom_render_iff h.tail]
  constructor
  · rintro ⟨k, hk, rfl⟩
    exact ⟨k + 1, by omega, by simpa using hk, by simp⟩
  · rintro ⟨k, hpos, hk, rfl⟩
    obtain ⟨k, rfl⟩ : ∃ j, k = j + 1 := ⟨k - 1, by omega⟩
    exact ⟨k, by simpa using hk, by simp⟩

end Cuts

end AosKernel.Lib.Paths
