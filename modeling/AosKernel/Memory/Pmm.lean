import AosKernel.Lib.Loop
import Mathlib.Data.Finset.Card

/-!
# The physical memory manager

Model of `kernel/pmm.c`: a bitmap of used blocks, a reference count for each block, and a counter of
free blocks. `pmm_alloc_block` returns the address of the lowest free block, or `NULL`;
`pmm_retain_block` and `pmm_free_block` count references, and the last `pmm_free_block` gives the
block back.
-/

namespace AosKernel.Memory

open Function

def addr (f : Nat) : UInt64 := UInt64.ofNat (f * 4096)

/-- Blocks covered by the bitmap: one gibibyte. -/
def maxBlocks : Nat := 262144

def uint16Max : Nat := 65535

/-- The state of `pmm.c`: bit `f` of `pmm_bitmap`, the counts and the two block counters. -/
structure Pmm where
  bitmap : Nat → Bool
  refcounts : Nat → Nat
  totalBlocks : Nat
  freeBlocks : Nat

/-- The first clear bit among `lo, ..., lo + n - 1`. -/
def firstFree (bitmap : Nat → Bool) : Nat → Nat → Option Nat
  | 0, _ => none
  | n + 1, i => if bitmap i then firstFree bitmap n (i + 1) else some i

namespace Pmm

/-- What allocating block `f` does to the state. -/
def take (p : Pmm) (f : Nat) : Pmm :=
  { p with
    bitmap := update p.bitmap f true
    refcounts := update p.refcounts f 1
    freeBlocks := if 0 < p.freeBlocks then p.freeBlocks - 1 else p.freeBlocks }

/-- What dropping the last reference to the used block `f` does to the state. -/
def release (p : Pmm) (f : Nat) : Pmm :=
  { p with
    bitmap := update p.bitmap f false
    refcounts := update p.refcounts f 0
    freeBlocks := p.freeBlocks + 1 }

def setRefcount (p : Pmm) (f n : Nat) : Pmm :=
  { p with refcounts := update p.refcounts f n }

end Pmm

/-- `pmm_alloc_block`; the address 0 is `NULL`. -/
def pmmAllocBlock (p : Pmm) : UInt64 × Pmm :=
  match firstFree p.bitmap p.totalBlocks 0 with
  | some f => (addr f, p.take f)
  | none => (0, p)

def pmmRetainBlock (p : Pmm) (a : UInt64) : Bool × Pmm :=
  let block := a.toNat / 4096
  if a &&& 0xFFF ≠ 0 ∨ p.totalBlocks ≤ block then (false, p)
  else if p.bitmap block = false ∨ p.refcounts block = 0 ∨ p.refcounts block = uint16Max then
    (false, p)
  else (true, p.setRefcount block (p.refcounts block + 1))

def pmmFreeBlock (p : Pmm) (a : UInt64) : Pmm :=
  let block := a.toNat / 4096
  if a &&& 0xFFF ≠ 0 ∨ p.totalBlocks ≤ block ∨ p.refcounts block = 0 then p
  else if 1 < p.refcounts block then p.setRefcount block (p.refcounts block - 1)
  else if p.bitmap block then p.release block
  else p.setRefcount block 0

def pmmBlockRefcount (p : Pmm) (a : UInt64) : Nat :=
  let block := a.toNat / 4096
  if a &&& 0xFFF ≠ 0 ∨ p.totalBlocks ≤ block then 0 else p.refcounts block

/-! ## Addresses of blocks -/

variable {f : Nat}

lemma addr_toNat (h : f < 2 ^ 52) : (addr f).toNat = f * 4096 := by
  unfold addr
  rw [UInt64.toNat_ofNat', Nat.mod_eq_of_lt (by omega)]

lemma addr_block (h : f < 2 ^ 52) : (addr f).toNat / 4096 = f := by
  rw [addr_toNat h, Nat.mul_div_cancel _ (by omega)]

lemma addr_inj {f' : Nat} (h : f < 2 ^ 52) (h' : f' < 2 ^ 52) (heq : addr f = addr f') :
    f = f' := by
  rw [← addr_block h, ← addr_block h', heq]

lemma addr_ne_zero (h : f < 2 ^ 52) (h0 : f ≠ 0) : addr f ≠ 0 := by
  intro heq
  have hnat := addr_toNat h
  rw [heq] at hnat
  simp only [UInt64.toNat_zero] at hnat
  omega

lemma addr_aligned (h : f < 2 ^ 52) : addr f &&& 0xFFF = 0 := by
  apply UInt64.toNat_inj.1
  rw [UInt64.toNat_and, addr_toNat h]
  have hmod := Nat.and_two_pow_sub_one_eq_mod (f * 4096) 12
  simpa using hmod

/-! ## The functions on block addresses -/

lemma firstFree_some {bitmap : Nat → Bool} :
    ∀ {n lo f : Nat}, firstFree bitmap n lo = some f → lo ≤ f ∧ f < lo + n ∧ bitmap f = false := by
  intro n
  induction n with
  | zero =>
    intro lo f h
    simp [firstFree] at h
  | succ n ih =>
    intro lo f h
    rw [firstFree] at h
    split at h
    · obtain ⟨h1, h2, h3⟩ := ih h
      exact ⟨by omega, by omega, h3⟩
    · rename_i hlo
      cases h
      exact ⟨le_rfl, by omega, Bool.eq_false_of_not_eq_true hlo⟩

lemma firstFree_none {bitmap : Nat → Bool} :
    ∀ {n lo : Nat}, firstFree bitmap n lo = none → ∀ f, lo ≤ f → f < lo + n → bitmap f = true := by
  intro n
  induction n with
  | zero =>
    omega
  | succ n ih =>
    intro lo h f h1 h2
    rw [firstFree] at h
    split at h
    · rename_i hlo
      rcases eq_or_lt_of_le h1 with rfl | hlt
      · exact hlo
      · exact ih h f (by omega) (by omega)
    · cases h

namespace Pmm

/-- The blocks `pmm_alloc_block` can return. -/
def free (p : Pmm) : Finset Nat := (Finset.range p.totalBlocks).filter fun f => p.bitmap f = false

lemma mem_free {p : Pmm} {f : Nat} : f ∈ p.free ↔ f < p.totalBlocks ∧ p.bitmap f = false := by
  simp [free]

lemma take_free (p : Pmm) (f : Nat) : (p.take f).free = p.free.erase f := by
  ext x
  simp only [Finset.mem_erase, mem_free, take]
  by_cases hx : x = f
  · subst hx
    simp
  · simp [hx]

lemma release_free {p : Pmm} {f : Nat} (hf : f < p.totalBlocks) :
    (p.release f).free = insert f p.free := by
  ext x
  simp only [Finset.mem_insert, mem_free, release]
  by_cases hx : x = f
  · subst hx
    simp [hf]
  · simp [hx]

/-- The state `pmm_init` leaves and every call keeps: the counter is the number of clear bits, and
block 0, whose address is `NULL`, is used. -/
structure Wf (p : Pmm) : Prop where
  total_le : p.totalBlocks ≤ maxBlocks
  zero_used : p.bitmap 0 = true
  count : p.freeBlocks = p.free.card

namespace Wf

variable {p : Pmm} {f : Nat}

lemma lt_of_lt_total (h : p.Wf) (hf : f < p.totalBlocks) : f < 2 ^ 52 := by
  have := h.total_le
  unfold maxBlocks at this
  omega

lemma ne_zero_of_free (h : p.Wf) (hf : f ∈ p.free) : f ≠ 0 := by
  rintro rfl
  have := (mem_free.1 hf).2
  rw [h.zero_used] at this
  exact Bool.noConfusion this


theorem take (h : p.Wf) (hf : f ∈ p.free) : (p.take f).Wf := by
  have hcard : 0 < p.free.card := Finset.card_pos.2 ⟨f, hf⟩
  refine ⟨h.total_le, ?_, ?_⟩
  · have h0 : (0 : Nat) ≠ f := fun heq => h.ne_zero_of_free hf heq.symm
    simpa [Pmm.take, update_of_ne h0] using h.zero_used
  · rw [take_free, Finset.card_erase_of_mem hf]
    simp only [Pmm.take]
    rw [h.count, if_pos hcard]

theorem release (h : p.Wf) (hf : f < p.totalBlocks) (hused : p.bitmap f = true) (h0 : f ≠ 0) :
    (p.release f).Wf := by
  have hnot : f ∉ p.free := by
    rw [mem_free, hused]
    simp
  refine ⟨h.total_le, ?_, ?_⟩
  · simpa [Pmm.release, update_of_ne (Ne.symm h0)] using h.zero_used
  · rw [release_free hf, Finset.card_insert_of_notMem hnot]
    simp only [Pmm.release]
    rw [h.count]

lemma setRefcount (h : p.Wf) (n : Nat) : (p.setRefcount f n).Wf :=
  ⟨h.total_le, h.zero_used, h.count⟩

end Wf

end Pmm

section Specs

variable {p : Pmm} {f : Nat}

lemma pmmAllocBlock_cases (h : p.Wf) :
    (p.free = ∅ ∧ pmmAllocBlock p = (0, p)) ∨
      ∃ f ∈ p.free, addr f ≠ 0 ∧ pmmAllocBlock p = (addr f, p.take f) := by
  unfold pmmAllocBlock
  cases hfind : firstFree p.bitmap p.totalBlocks 0 with
  | none =>
    refine .inl ⟨?_, rfl⟩
    refine Finset.filter_eq_empty_iff.2 fun x hx => ?_
    rw [firstFree_none hfind x (Nat.zero_le x) (by simpa using Finset.mem_range.1 hx)]
    simp
  | some f =>
    obtain ⟨-, hlt, hbit⟩ := firstFree_some hfind
    have hmem : f ∈ p.free := Pmm.mem_free.2 ⟨by omega, hbit⟩
    exact .inr ⟨f, hmem, addr_ne_zero (h.lt_of_lt_total (by omega)) (h.ne_zero_of_free hmem), rfl⟩

lemma pmmBlockRefcount_addr (h : p.Wf) (hf : f < p.totalBlocks) :
    pmmBlockRefcount p (addr f) = p.refcounts f := by
  have hlt := h.lt_of_lt_total hf
  simp [pmmBlockRefcount, addr_aligned hlt, addr_block hlt, not_le.2 hf]

lemma pmmRetainBlock_addr (h : p.Wf) (hf : f < p.totalBlocks) (hused : p.bitmap f = true)
    (hpos : 0 < p.refcounts f) :
    pmmRetainBlock p (addr f) =
      if p.refcounts f = uint16Max then (false, p)
      else (true, p.setRefcount f (p.refcounts f + 1)) := by
  have hlt := h.lt_of_lt_total hf
  simp [pmmRetainBlock, addr_aligned hlt, addr_block hlt, not_le.2 hf, hused,
    Nat.pos_iff_ne_zero.1 hpos]

lemma pmmFreeBlock_addr (h : p.Wf) (hf : f < p.totalBlocks) (hused : p.bitmap f = true)
    (hpos : 0 < p.refcounts f) :
    pmmFreeBlock p (addr f) =
      if 1 < p.refcounts f then p.setRefcount f (p.refcounts f - 1) else p.release f := by
  have hlt := h.lt_of_lt_total hf
  simp [pmmFreeBlock, addr_aligned hlt, addr_block hlt, not_le.2 hf, hused,
    Nat.pos_iff_ne_zero.1 hpos]

end Specs

end AosKernel.Memory
