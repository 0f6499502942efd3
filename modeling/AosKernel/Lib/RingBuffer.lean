import Mathlib.Data.List.Basic
import Mathlib.Data.Nat.ModEq
import Mathlib.Logic.Function.Basic

/-!
# Ring buffers

A bounded queue kept in an array with a read position, a write position and a count. `contents` is
the queue, oldest element first. Taking out (`drain`) and putting in (`fill`) work element by
element and stop at an empty or a full ring.
-/

namespace AosKernel.Lib

open Function List

universe u

/-- The array, the two positions and the count. -/
@[ext] structure RingBuffer (α : Type u) where
  buffer : Nat → α
  readPos : Nat
  writePos : Nat
  size : Nat

namespace RingBuffer

variable {α : Type u} (cap : Nat)

def pop (r : RingBuffer α) : RingBuffer α :=
  { r with readPos := (r.readPos + 1) % cap, size := r.size - 1 }

def push (a : α) (r : RingBuffer α) : RingBuffer α where
  buffer := update r.buffer r.writePos a
  readPos := r.readPos
  writePos := (r.writePos + 1) % cap
  size := r.size + 1

/-- Taking out at most `n` elements. -/
def drain : Nat → RingBuffer α → List α × RingBuffer α
  | 0, r => ([], r)
  | n + 1, r =>
      if r.size = 0 then ([], r)
      else (r.buffer r.readPos :: (drain n (r.pop cap)).1, (drain n (r.pop cap)).2)

/-- Putting in as many elements as there is room for, with their number. -/
def fill : List α → RingBuffer α → Nat × RingBuffer α
  | [], r => (0, r)
  | a :: l, r =>
      if r.size < cap then ((fill l (r.push cap a)).1 + 1, (fill l (r.push cap a)).2) else (0, r)

/-- The elements in the ring, oldest first. -/
def contents (r : RingBuffer α) : List α :=
  (range r.size).map fun k => r.buffer ((r.readPos + k) % cap)

/-- The count and the positions fit. -/
structure Valid (r : RingBuffer α) : Prop where
  size_le : r.size ≤ cap
  readPos_lt : r.readPos < cap
  writePos_eq : r.writePos = (r.readPos + r.size) % cap

variable {cap} {r : RingBuffer α}

lemma contents_eq_nil (h : r.size = 0) : r.contents cap = [] := by
  simp [contents, h]

lemma Valid.pop (h : r.Valid cap) (hs : r.size ≠ 0) : (r.pop cap).Valid cap := by
  have hle := h.size_le
  refine ⟨?_, Nat.mod_lt _ (by have := h.readPos_lt; omega), ?_⟩
  · change r.size - 1 ≤ cap
    omega
  · change r.writePos = ((r.readPos + 1) % cap + (r.size - 1)) % cap
    rw [h.writePos_eq, Nat.mod_add_mod]
    congr 1
    omega

lemma contents_pop (h : r.Valid cap) (hs : r.size ≠ 0) :
    r.contents cap = r.buffer r.readPos :: (r.pop cap).contents cap := by
  obtain ⟨n, hn⟩ := Nat.exists_eq_succ_of_ne_zero hs
  have hfirst : (r.readPos + 0) % cap = r.readPos := Nat.mod_eq_of_lt h.readPos_lt
  have hrest : (r.pop cap).contents cap =
      (range n).map fun k => r.buffer ((r.readPos + (k + 1)) % cap) := by
    simp only [contents, RingBuffer.pop, hn, Nat.succ_sub_one, Nat.mod_add_mod]
    refine map_congr_left fun k _ => ?_
    congr 2
    omega
  rw [hrest, contents, hn, range_succ_eq_map, map_cons, hfirst, map_map]
  rfl

lemma Valid.push (h : r.Valid cap) (hs : r.size < cap) (a : α) : (r.push cap a).Valid cap := by
  refine ⟨hs, h.readPos_lt, ?_⟩
  change (r.writePos + 1) % cap = (r.readPos + (r.size + 1)) % cap
  rw [h.writePos_eq, Nat.mod_add_mod, add_assoc]

lemma slot_ne {p k n : Nat} (hk : k < n) (hn : n < cap) : (p + k) % cap ≠ (p + n) % cap := by
  intro heq
  have hmod : k ≡ n [MOD cap] := Nat.ModEq.add_left_cancel' p heq
  have := hmod.eq_of_lt_of_lt (by omega) hn
  omega

lemma contents_push (h : r.Valid cap) (hs : r.size < cap) (a : α) :
    (r.push cap a).contents cap = r.contents cap ++ [a] := by
  have hold : ((range r.size).map fun k =>
      update r.buffer r.writePos a ((r.readPos + k) % cap)) = r.contents cap := by
    refine map_congr_left fun k hk => update_of_ne ?_ a r.buffer
    rw [h.writePos_eq]
    exact slot_ne (mem_range.1 hk) hs
  change (range (r.size + 1)).map _ = _
  rw [range_succ, map_append, map_singleton]
  change ((range r.size).map fun k =>
      update r.buffer r.writePos a ((r.readPos + k) % cap)) ++
    [update r.buffer r.writePos a ((r.readPos + r.size) % cap)] = _
  rw [hold, ← h.writePos_eq, update_self]

/-- What is taken out is the front of the queue, and the rest stays. -/
theorem drain_spec (n : Nat) (h : r.Valid cap) :
    (drain cap n r).2.Valid cap ∧ (drain cap n r).1 = (r.contents cap).take n ∧
      (drain cap n r).2.contents cap = (r.contents cap).drop n := by
  induction n generalizing r with
  | zero => exact ⟨h, rfl, rfl⟩
  | succ n ih =>
    unfold drain
    split
    · next hs => simp [contents_eq_nil hs, h]
    next hs =>
    obtain ⟨hv, hout, hin⟩ := ih (h.pop hs)
    refine ⟨hv, ?_, ?_⟩
    · rw [contents_pop h hs, take_succ_cons, ← hout]
    · rw [contents_pop h hs, drop_succ_cons, ← hin]

/-- What is put in is a front of the elements, added at the end of the queue. -/
theorem fill_spec (l : List α) (h : r.Valid cap) :
    (fill cap l r).2.Valid cap ∧ (fill cap l r).1 ≤ l.length ∧
      (fill cap l r).2.contents cap = r.contents cap ++ l.take (fill cap l r).1 := by
  induction l generalizing r with
  | nil => exact ⟨h, Nat.le_refl 0, by simp [fill]⟩
  | cons a l ih =>
    unfold fill
    split
    · next hs =>
      obtain ⟨hv, hle, hin⟩ := ih (h.push hs a)
      refine ⟨hv, Nat.succ_le_succ hle, ?_⟩
      rw [hin, contents_push h hs, take_succ_cons]
      simp
    · exact ⟨h, Nat.zero_le _, by simp⟩

end RingBuffer

end AosKernel.Lib
