import Mathlib.Tactic
import Mathlib.Order.CompletePartialOrder

/-!
# Extents placed by a bump pointer

A finite or infinite family of owners, each with at most one extent `[off, off + cap)`. `Packed`
says that the extents are pairwise apart and lie between a floor and the bump pointer. The
allocator's moves keep it: releasing an extent, placing one at or above the bump pointer, growing
the one that ends at the pointer, and recomputing the pointer. -/

namespace AosKernel.Lib

universe u

/-- The cells `[off, off + cap)`. -/
structure Extent where
  off : Nat
  cap : Nat
  deriving DecidableEq, Repr

namespace Extent

/-- `a` is a cell of the extent. -/
def Mem (e : Extent) (a : Nat) : Prop := e.off ≤ a ∧ a < e.off + e.cap

/-- The extents have no cell in common. -/
def Apart (e f : Extent) : Prop := ∀ a, e.Mem a → ¬ f.Mem a

lemma Apart.symm {e f : Extent} (h : Apart e f) : Apart f e := fun a hf he => h a he hf

lemma apart_iff_disjoint (e f : Extent) :
    Apart e f ↔ Disjoint (Set.Ico e.off (e.off + e.cap)) (Set.Ico f.off (f.off + f.cap)) := by
  rw [Set.disjoint_left]
  rfl

end Extent

/-- The extents of the owners are pairwise apart and lie in `[lo, next)`. -/
structure Packed {ι : Type u} (ext : ι → Option Extent) (lo next : Nat) : Prop where
  apart : ∀ {i j : ι} {e f : Extent}, i ≠ j → ext i = some e → ext j = some f → e.Apart f
  within : ∀ {i : ι} {e : Extent}, ext i = some e → e.cap = 0 ∨ (lo ≤ e.off ∧ e.off + e.cap ≤ next)
  lo_le : lo ≤ next

namespace Packed

variable {ι : Type u} {ext : ι → Option Extent} {lo next : Nat}

lemma empty (h : lo ≤ next) : Packed (fun _ : ι => none) lo next where
  apart := by intro i j e f _ he; simp at he
  within := by intro i e he; simp at he
  lo_le := h

/-- Recomputing the bump pointer: any pointer behind every extent serves. -/
theorem rebase (h : Packed ext lo next) {next' : Nat} (hlo : lo ≤ next')
    (hend : ∀ {i : ι} {e : Extent}, ext i = some e → e.cap = 0 ∨ e.off + e.cap ≤ next') :
    Packed ext lo next' where
  apart := h.apart
  within := by
    intro i e he
    rcases h.within he with h0 | h1
    · exact .inl h0
    · rcases hend he with h0 | h2
      · exact .inl h0
      · exact .inr ⟨h1.1, h2⟩
  lo_le := hlo

section Update

variable [DecidableEq ι]

section

variable (h : Packed ext lo next)
include h

lemma update (i : ι) (e : Option Extent) {next' : Nat} (hle : next ≤ next')
    (hin : ∀ x, e = some x → x.cap = 0 ∨ (lo ≤ x.off ∧ x.off + x.cap ≤ next'))
    (hapart : ∀ x j f, e = some x → j ≠ i → ext j = some f → x.Apart f) :
    Packed (Function.update ext i e) lo next' where
  apart := by
    intro j k f g hjk hj hk
    by_cases hji : j = i
    · subst hji
      rw [Function.update_self] at hj
      rw [Function.update_of_ne (Ne.symm hjk)] at hk
      exact hapart f k g hj (Ne.symm hjk) hk
    · rw [Function.update_of_ne hji] at hj
      by_cases hki : k = i
      · subst hki
        rw [Function.update_self] at hk
        exact (hapart g j f hk hjk hj).symm
      · rw [Function.update_of_ne hki] at hk
        exact h.apart hjk hj hk
  within := by
    intro j f hj
    by_cases hji : j = i
    · subst hji
      rw [Function.update_self] at hj
      exact hin f hj
    rw [Function.update_of_ne hji] at hj
    rcases h.within hj with h0 | h1
    · exact .inl h0
    · exact .inr ⟨h1.1, by omega⟩
  lo_le := le_trans h.lo_le hle

theorem release (i : ι) : Packed (Function.update ext i none) lo next :=
  h.update i none le_rfl (by simp) (by simp)

lemma placeEmpty (i : ι) (off : Nat) :
    Packed (Function.update ext i (some ⟨off, 0⟩)) lo next := by
  refine h.update i _ le_rfl ?_ ?_
  · rintro x ⟨⟩
    exact .inl rfl
  · rintro x j f ⟨⟩ _ _ a ha
    unfold Extent.Mem at ha
    simp only at ha
    omega

theorem place (i : ι) {off cap : Nat} (hoff : next ≤ off) :
    Packed (Function.update ext i (some ⟨off, cap⟩)) lo (off + cap) := by
  have hlo := h.lo_le
  refine h.update i _ (by omega) ?_ ?_
  · rintro x ⟨⟩
    exact .inr ⟨by simp only; omega, le_rfl⟩
  · rintro x j f ⟨⟩ _ hf a ha hfa
    unfold Extent.Mem at ha hfa
    simp only at ha
    rcases h.within hf with h0 | h1 <;> omega

theorem growLast {i : ι} {e : Extent} (hi : ext i = some e) (hcap : e.cap ≠ 0)
    (hend : e.off + e.cap = next) {cap : Nat} (hle : e.cap ≤ cap) :
    Packed (Function.update ext i (some ⟨e.off, cap⟩)) lo (e.off + cap) := by
  have hlo : lo ≤ e.off := by
    rcases h.within hi with h0 | h1
    · exact absurd h0 hcap
    · exact h1.1
  refine h.update i _ (by omega) ?_ ?_
  · rintro x ⟨⟩
    exact .inr ⟨hlo, le_rfl⟩
  · rintro x j f ⟨⟩ hji hf a ha hfa
    -- a cell of the old extent is free in `f`; a new cell lies at or above the bump pointer
    have hold := h.apart (Ne.symm hji) hi hf
    by_cases hlt : a < e.off + e.cap
    · exact hold a ⟨ha.1, hlt⟩ hfa
    · unfold Extent.Mem at hfa
      rcases h.within hf with h0 | h1 <;> omega

end

end Update

end Packed

end AosKernel.Lib
