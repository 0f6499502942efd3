import Mathlib.Tactic

/-!
# Cell stores and ranged writes

A store maps addresses to cells. `slice` reads a range of cells, `patch` replaces a range by a list.
The laws below say what a read sees after a write: on the written range, on a disjoint range, and on
a range that contains the written one.
-/

namespace AosKernel.Lib.ByteStore

open List

universe u

variable {α : Type u}

/-- A store of cells addressed by naturals. -/
abbrev Store (α : Type u) := Nat → α

/-- The `len` cells from `off` on. -/
def slice (m : Store α) (off len : Nat) : List α := (range len).map fun i => m (off + i)

/-- The store with the cells from `off` on replaced by `data`. -/
def patch (m : Store α) (off : Nat) (data : List α) : Store α := fun a =>
  if off ≤ a then data.getD (a - off) (m a) else m a

/-- The list with the entries from `i` on replaced by `data`. -/
def splice (l : List α) (i : Nat) (data : List α) : List α :=
  l.take i ++ data ++ l.drop (i + data.length)

variable (m : Store α)

@[simp] lemma slice_length (off len : Nat) : (slice m off len).length = len := by
  simp [slice]

@[simp] lemma slice_zero (off : Nat) : slice m off 0 = [] := rfl

@[simp] lemma slice_getElem (off len i : Nat) (h : i < (slice m off len).length) :
    (slice m off len)[i] = m (off + i) := by
  simp [slice]

variable {off len : Nat}

lemma slice_congr {m m' : Store α} (h : ∀ a, off ≤ a → a < off + len → m' a = m a) :
    slice m' off len = slice m off len := by
  apply map_congr_left
  intro i hi
  have hlt : i < len := mem_range.1 hi
  exact h (off + i) (by omega) (by omega)

lemma slice_append (off a b : Nat) :
    slice m off (a + b) = slice m off a ++ slice m (off + a) b := by
  apply ext_getElem
  · simp
  · intro i h1 h2
    rw [getElem_append]
    split
    · simp
    next hi =>
    simp only [slice_length, not_lt] at hi
    simp only [slice_getElem, slice_length]
    congr 1
    omega

lemma take_drop_slice (off : Nat) {a b : Nat} (h : a + b ≤ len) :
    ((slice m off len).drop a).take b = slice m (off + a) b := by
  apply ext_getElem
  · simp
    omega
  · simp [add_assoc]

lemma take_slice {b : Nat} (h : b ≤ len) : (slice m off len).take b = slice m off b := by
  have h' : 0 + b ≤ len := by omega
  simpa using take_drop_slice m off h'

lemma slice_shift (base off len : Nat) :
    slice (fun a => m (base + a)) off len = slice m (base + off) len := by
  apply map_congr_left
  intro i _
  rw [add_assoc]

@[simp] lemma patch_nil (off : Nat) : patch m off [] = m := by
  funext a
  simp [patch]

variable {data : List α}

lemma patch_outside {a : Nat} (h : a < off ∨ off + data.length ≤ a) :
    patch m off data a = m a := by
  unfold patch
  split
  · next hle =>
    have hlen : data.length ≤ a - off := by omega
    simp [getD_eq_getElem?_getD, getElem?_eq_none hlen]
  · rfl

lemma patch_inside {i : Nat} (h : i < data.length) : patch m off data (off + i) = data[i] := by
  have hsub : off + i - off = i := by omega
  simp [patch, hsub, getD_eq_getElem?_getD, h]

lemma patch_shift (base off : Nat) (data : List α) :
    (fun a => patch m (base + off) data (base + a)) = patch (fun a => m (base + a)) off data := by
  unfold patch
  simp only [Nat.add_le_add_iff_left, Nat.add_sub_add_left]

theorem slice_patch_self (off : Nat) (data : List α) :
    slice (patch m off data) off data.length = data := by
  apply ext_getElem
  · simp
  · intro i h1 h2
    rw [slice_getElem, patch_inside]

lemma slice_patch_part (off : Nat) {k n : Nat} (h : k + n ≤ data.length) :
    slice (patch m off data) (off + k) n = (data.drop k).take n := by
  apply ext_getElem
  · simp
    omega
  · intro i h1 h2
    simp only [slice_length] at h1
    rw [slice_getElem, add_assoc, patch_inside m (by omega)]
    simp

theorem slice_patch_disjoint {off' : Nat} (h : off' + len ≤ off ∨ off + data.length ≤ off') :
    slice (patch m off data) off' len = slice m off' len := by
  apply slice_congr
  intro a h1 h2
  exact patch_outside m (by omega)

/-- A write inside a range splices the written list into the range's slice. -/
theorem slice_patch_inside (base : Nat) {i n : Nat} (h : i + data.length ≤ n) :
    slice (patch m (base + i) data) base n = splice (slice m base n) i data := by
  obtain ⟨r, rfl⟩ : ∃ r, n = i + data.length + r := ⟨n - (i + data.length), by omega⟩
  unfold splice
  rw [take_slice m (by omega), slice_append, slice_append,
    slice_patch_disjoint m (.inl le_rfl), slice_patch_self,
    slice_patch_disjoint m (.inr (by omega))]
  congr 1
  apply ext_getElem
  · simp
  · simp [add_assoc]

lemma patch_append (off : Nat) (d e : List α) :
    patch m off (d ++ e) = patch (patch m off d) (off + d.length) e := by
  funext a
  rcases lt_or_ge a off with hlt | hge
  · rw [patch_outside m (.inl hlt), patch_outside _ (.inl (by omega)), patch_outside m (.inl hlt)]
  obtain ⟨i, rfl⟩ : ∃ i, a = off + i := ⟨a - off, by omega⟩
  rcases lt_or_ge i d.length with hd | hd
  · rw [patch_inside m (by simp; omega), patch_outside _ (.inl (by omega)), patch_inside,
      getElem_append_left hd]
  rcases lt_or_ge i (d.length + e.length) with he | he
  · obtain ⟨j, rfl⟩ : ∃ j, i = d.length + j := ⟨i - d.length, by omega⟩
    have hj : j < e.length := by omega
    rw [patch_inside m (by simpa using he), ← add_assoc, patch_inside _ hj,
      getElem_append_right (by omega)]
    simp
  · rw [patch_outside m (.inr (by simp; omega)), patch_outside _ (.inr (by omega)),
      patch_outside m (.inr (by omega))]

/-- Copying `n` cells from `src` to the front, one after the other from the first on. -/
def copyDown (src : Nat) : Nat → Store α → Store α
  | 0, m => m
  | n + 1, m => Function.update (copyDown src n m) n (copyDown src n m (src + n))

/-- The ranges may overlap: no cell is written before it is read. -/
theorem slice_copyDown (src n : Nat) : slice (copyDown src n m) 0 n = slice m src n := by
  have hcells : ∀ n, (∀ i < n, copyDown src n m i = m (src + i)) ∧
      ∀ a ≥ n, copyDown src n m a = m a := by
    intro n
    induction n with
    | zero => exact ⟨fun i hi => absurd hi i.not_lt_zero, fun _ _ => rfl⟩
    | succ n ih =>
      refine ⟨fun i hi => ?_, fun a ha => ?_⟩
      · by_cases hin : i = n
        · rw [copyDown, hin, Function.update_self, ih.2 _ (by omega)]
        · rw [copyDown, Function.update_of_ne hin, ih.1 i (by omega)]
      · rw [copyDown, Function.update_of_ne (by omega), ih.2 a (by omega)]
  apply map_congr_left
  intro i hi
  rw [zero_add, (hcells n).1 i (mem_range.1 hi)]

end AosKernel.Lib.ByteStore
