import Mathlib.Tactic

/-!
# Lexicographic comparison with padding

Two lists are compared element by element, and the shorter one is continued with a padding element.
The comparison is oriented and transitive (`padCompare_swap`, `padCompare_isLE_trans`), and so is
the comparison of anything through a key that is such a list. -/

namespace AosKernel.Lib

variable {α : Type} [LinearOrder α]

/-- The comparison of two lists that go on with `pad`. -/
def padCompare (pad : α) : List α → List α → Ordering
  | [], [] => .eq
  | [], y :: ys => (compare pad y).then (padCompare pad [] ys)
  | x :: xs, [] => (compare x pad).then (padCompare pad xs [])
  | x :: xs, y :: ys => (compare x y).then (padCompare pad xs ys)

variable {pad : α} (xs : List α)

lemma padCompare_step (ys : List α) :
    padCompare pad xs ys =
      (compare (xs.headD pad) (ys.headD pad)).then (padCompare pad xs.tail ys.tail) := by
  cases xs with
  | nil | cons =>
    cases ys with
    | nil | cons => simp [padCompare]

lemma padCompare_self : padCompare pad xs xs = .eq := by
  induction xs with
  | nil => simp [padCompare]
  | cons x xs ih => simp [padCompare, ih]

theorem padCompare_swap (ys : List α) : padCompare pad ys xs = (padCompare pad xs ys).swap := by
  induction xs generalizing ys with
  | nil =>
    induction ys with
    | nil => simp [padCompare]
    | cons y ys ih => rw [padCompare, padCompare, ih, Ordering.swap_then, Std.OrientedOrd.eq_swap]
  | cons x xs ih =>
    cases ys with
    | nil | cons => rw [padCompare, padCompare, ih, Ordering.swap_then, Std.OrientedOrd.eq_swap]

lemma isLE_then_iff {a b : α} {o : Ordering} :
    ((compare a b).then o).isLE = true ↔ a < b ∨ a = b ∧ o.isLE = true := by
  rcases lt_trichotomy a b with h | h | h
  · simp [compare_lt_iff_lt.2, h]
  · simp [h]
  · simp [compare_gt_iff_gt.2 h, h.not_gt, h.ne']

theorem padCompare_isLE_trans {xs ys zs : List α} (hxy : (padCompare pad xs ys).isLE = true)
    (hyz : (padCompare pad ys zs).isLE = true) : (padCompare pad xs zs).isLE = true := by
  -- The induction is on a bound of the three lengths, since any of the lists may end first.
  have hbound : ∀ n, ∀ xs ys zs : List α, xs.length ≤ n → ys.length ≤ n → zs.length ≤ n →
      (padCompare pad xs ys).isLE = true → (padCompare pad ys zs).isLE = true →
      (padCompare pad xs zs).isLE = true := by
    intro n
    induction n with
    | zero =>
      intro xs ys zs hx _ hz _ _
      rw [List.length_eq_zero_iff.1 (Nat.le_zero.1 hx),
        List.length_eq_zero_iff.1 (Nat.le_zero.1 hz), padCompare]
      rfl
    | succ n ih =>
      intro xs ys zs hx hy hz hxy hyz
      rw [padCompare_step, isLE_then_iff] at hxy hyz ⊢
      rcases hxy with hlt | ⟨heq, hxy⟩
      · rcases hyz with hlt' | ⟨heq', -⟩
        · exact .inl (hlt.trans hlt')
        · exact .inl (heq' ▸ hlt)
      rcases hyz with hlt' | ⟨heq', hyz⟩
      · exact .inl (heq ▸ hlt')
      have htail : ∀ {l : List α}, l.length ≤ n + 1 → l.tail.length ≤ n := by
        intro l hl
        rw [List.length_tail]
        omega
      exact .inr ⟨heq.trans heq', ih _ _ _ (htail hx) (htail hy) (htail hz) hxy hyz⟩
  exact hbound (max xs.length (max ys.length zs.length)) xs ys zs (le_max_left _ _)
    ((le_max_left _ _).trans (le_max_right _ _)) ((le_max_right _ _).trans (le_max_right _ _))
    hxy hyz

instance : Std.TransCmp (padCompare pad) where
  eq_swap := padCompare_swap _ _
  isLE_trans := padCompare_isLE_trans

lemma transCmp_comap {β κ : Type} {cmp : κ → κ → Ordering} [Std.TransCmp cmp] (key : β → κ) :
    Std.TransCmp fun a b => cmp (key a) (key b) where
  eq_swap := Std.OrientedCmp.eq_swap
  isLE_trans := Std.TransCmp.isLE_trans

end AosKernel.Lib
