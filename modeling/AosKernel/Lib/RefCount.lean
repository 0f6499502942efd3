import Mathlib.Algebra.BigOperators.Group.Finset.Basic
import Mathlib.Algebra.Order.BigOperators.Group.Finset
import Mathlib.Data.Finset.Card
import Mathlib.Tactic

/-!
# Counting references

Holders from a finite set `holders` each refer to at most one object; `refs holders target f` is the
number of holders that refer to `f`. References may also be kept in lists: `held ref l f` is the
number of members of `l` that refer to `f`, and `heldIn ref s lists f` the number in a finite family
of lists.
-/

namespace AosKernel.Lib.RefCount

open Function Finset

universe u v

variable {ι : Type u} {F : Type v} [DecidableEq F]

/-- The number of holders whose reference is `f`. -/
def refs (holders : Finset ι) (target : ι → Option F) (f : F) : Nat :=
  (holders.filter fun x => target x = some f).card

variable {holders : Finset ι} {target : ι → Option F}

variable {f : F} {x : ι} {target' : ι → Option F}

lemma refs_congr (f : F) (h : ∀ x ∈ holders, target x = some f ↔ target' x = some f) :
    refs holders target f = refs holders target' f := by
  unfold refs
  rw [filter_congr h]

lemma refs_eq_zero_iff : refs holders target f = 0 ↔ ∀ x ∈ holders, target x ≠ some f := by
  unfold refs
  rw [card_eq_zero, filter_eq_empty_iff]

lemma refs_split [DecidableEq ι] (hx : x ∈ holders) (target : ι → Option F) (f : F) :
    refs holders target f =
      (if target x = some f then 1 else 0) + refs (holders.erase x) target f := by
  unfold refs
  have hnot : x ∉ (holders.erase x).filter fun y => target y = some f := by simp
  conv_lhs => rw [← insert_erase hx, filter_insert]
  split
  · rw [card_insert_of_notMem hnot, add_comm]
  · rw [zero_add]

/-- Redirecting the holder `x` takes one reference from its old target and gives one to its new
target. -/
theorem refs_update [DecidableEq ι] (hx : x ∈ holders) (f : F)
    (h : ∀ y ∈ holders, y ≠ x → target' y = target y) :
    refs holders target' f + (if target x = some f then 1 else 0) =
      refs holders target f + (if target' x = some f then 1 else 0) := by
  have hrest : refs (holders.erase x) target' f = refs (holders.erase x) target f := by
    refine refs_congr f fun y hy => ?_
    rw [h y (mem_of_mem_erase hy) (ne_of_mem_erase hy)]
  rw [refs_split hx target' f, refs_split hx target f, hrest]
  omega

/-- Holders that refer to nothing do not change any count. -/
theorem refs_of_subset {holders' : Finset ι} (hsub : holders ⊆ holders') (f : F)
    (h : ∀ x ∈ holders', x ∉ holders → target x = none) :
    refs holders' target f = refs holders target f := by
  unfold refs
  congr 1
  ext x
  simp only [mem_filter]
  constructor
  · rintro ⟨hx, ht⟩
    refine ⟨?_, ht⟩
    by_contra hnot
    rw [h x hx hnot] at ht
    exact absurd ht (by simp)
  · rintro ⟨hx, ht⟩
    exact ⟨hsub hx, ht⟩

theorem eq_of_refs_eq_one {y : ι} (h : refs holders target f = 1) (hx : x ∈ holders)
    (hy : y ∈ holders) (htx : target x = some f) (hty : target y = some f) : x = y := by
  obtain ⟨z, hz⟩ := card_eq_one.1 h
  have h1 : x ∈ ({z} : Finset ι) := hz ▸ mem_filter.2 ⟨hx, htx⟩
  have h2 : y ∈ ({z} : Finset ι) := hz ▸ mem_filter.2 ⟨hy, hty⟩
  rw [mem_singleton.1 h1, mem_singleton.1 h2]

/-! ## References in lists -/

section Lists

universe w x

variable {α : Type w} {ι : Type x} (ref : α → Option F)

/-- The number of members of a list that refer to `f`. -/
def held (l : List α) (f : F) : Nat := l.countP fun a => ref a = some f

/-- The number of references to `f` in a finite family of lists. -/
def heldIn (s : Finset ι) (lists : ι → List α) (f : F) : Nat := ∑ i ∈ s, held ref (lists i) f

@[simp] lemma held_nil (f : F) : held ref [] f = 0 := rfl

lemma held_cons (a : α) (l : List α) (f : F) :
    held ref (a :: l) f = held ref [a] f + held ref l f := by
  simp only [held, List.countP_cons, List.countP_nil]
  omega

lemma held_append (l l' : List α) (f : F) : held ref (l ++ l') f = held ref l f + held ref l' f :=
  List.countP_append

lemma held_singleton (a : α) (f : F) : held ref [a] f = if ref a = some f then 1 else 0 := by
  simp [held, List.countP_cons]

variable {f : F} {l : List α} {a : α} {i : ι} {lists : ι → List α}

lemma held_singleton_of_none (h : ref a = none) (f : F) : held ref [a] f = 0 := by
  simp [held_singleton, h]

lemma held_le_length (l : List α) (f : F) : held ref l f ≤ l.length := List.countP_le_length

lemma held_pos_of_mem (ha : a ∈ l) (hf : ref a = some f) : 0 < held ref l f :=
  List.countP_pos_iff.2 ⟨a, ha, by simp [hf]⟩

lemma held_set {j : Nat} (hj : j < l.length) (a : α) (f : F) :
    held ref (l.set j a) f + held ref [l[j]] f = held ref l f + held ref [a] f := by
  induction l generalizing j with
  | nil => simp at hj
  | cons b l ih =>
    cases j with
    | zero =>
      rw [List.set_cons_zero, held_cons ref a, held_cons ref b, List.getElem_cons_zero]
      omega
    | succ j =>
    have hj' : j < l.length := by simpa using hj
    have := ih hj'
    rw [List.set_cons_succ, held_cons ref b, held_cons ref b l, List.getElem_cons_succ]
    omega

variable {s : Finset ι}

lemma held_le_heldIn (hi : i ∈ s) (lists : ι → List α) (f : F) :
    held ref (lists i) f ≤ heldIn ref s lists f :=
  single_le_sum (f := fun i => held ref (lists i) f) (fun _ _ => Nat.zero_le _) hi

theorem heldIn_update [DecidableEq ι] (hi : i ∈ s) (lists : ι → List α) (l : List α) (f : F) :
    heldIn ref s (update lists i l) f + held ref (lists i) f =
      heldIn ref s lists f + held ref l f := by
  have hrest : ∑ j ∈ s.erase i, held ref (update lists i l j) f =
      ∑ j ∈ s.erase i, held ref (lists j) f :=
    sum_congr rfl fun j hj => by rw [update_of_ne (ne_of_mem_erase hj)]
  unfold heldIn
  rw [← add_sum_erase _ _ hi, ← add_sum_erase _ (fun j => held ref (lists j) f) hi,
    hrest, update_self]
  omega

lemma heldIn_le {b : Nat} (h : ∀ i ∈ s, (lists i).length ≤ b) (f : F) :
    heldIn ref s lists f ≤ s.card * b := by
  refine (sum_le_card_nsmul _ _ b fun i hi => ?_).trans (by simp)
  exact (held_le_length ref _ f).trans (h i hi)

variable {ref}

lemma heldIn_eq_zero (h : ∀ i ∈ s, held ref (lists i) f = 0) : heldIn ref s lists f = 0 := by
  exact sum_eq_zero h

end Lists

end AosKernel.Lib.RefCount
