import AosKernel.Memory.Pmm
import Mathlib.Data.Set.Card

/-!
# The physical memory manager from boot on

`pmm_init` builds the bitmap from the boot information: all blocks are used, the pages of available
regions are freed, stepping from the start of each, and the first megabyte, the kernel image, the
boot information and the modules are used again. The tags of the boot information and the entries of
a memory map are lists here.

A run is any sequence of `pmm_alloc_block`, `pmm_retain_block` and `pmm_free_block`, with any
addresses. Beside the state it keeps a tally for every block, of the references taken and the calls
of `pmm_free_block` since the block was last allocated (`pmm_accounts`).

Not every block that is handed out need be usable memory (`usable_memory_iff`): a region that does
not start at a page frees a block that it covers in part, entries of other types are not looked at,
and boot information of a megabyte or more is not marked. -/

namespace AosKernel.Memory

open Function Pmm List

/-! ## `pmm_init` -/

def oneGib : Nat := 1024 * 1024 * 1024

structure MmapEntry where
  addr : UInt64
  len : UInt64
  type : UInt32

/-- The tags of the boot information that `pmm_init` reads. -/
inductive MultibootTag where
  | mmap (entries : List MmapEntry)
  | module (modStart modEnd : UInt32)
  | other

/-- The boot information, its address and total size, and the bounds of the kernel image. -/
structure BootInfo where
  mbInfo : UInt64
  totalSize : UInt32
  tags : List MultibootTag
  kernelStart : UInt64
  kernelEnd : UInt64

namespace Pmm

def clearBlock (p : Pmm) (f : Nat) : Pmm :=
  if p.bitmap f then
    { p with bitmap := update p.bitmap f false, freeBlocks := p.freeBlocks + 1 }
  else p

def useBlock (p : Pmm) (f : Nat) : Pmm :=
  { p with
    bitmap := update p.bitmap f true
    freeBlocks := if p.bitmap f = false ∧ 0 < p.freeBlocks then p.freeBlocks - 1 else p.freeBlocks }

/-- `step` on the blocks of the addresses `a, a + 4096, ...` below `stop`. -/
def overRange (step : Pmm → Nat → Pmm) (stop a : Nat) (p : Pmm) : Pmm :=
  if a < stop then overRange step stop (a + 4096) (step p (a / 4096)) else p
  termination_by stop - a
  decreasing_by omega

def markUsedRange (p : Pmm) (start stop : UInt64) : Pmm :=
  if stop ≤ start then p
  else
    let rangeStart := (start &&& ~~~0xFFF).toNat
    let rangeEnd := ((stop + 0xFFF) &&& ~~~0xFFF).toNat
    if oneGib ≤ rangeStart then p
    else overRange useBlock (min rangeEnd oneGib) rangeStart p

/-- An entry of the memory map: the end of available memory raises `total_blocks`, and its blocks
below one gibibyte become free. -/
def addEntry (p : Pmm) (e : MmapEntry) : Pmm :=
  if e.type = 1 then
    let entryEnd := (e.addr + e.len).toNat
    let cappedEnd := min entryEnd oneGib
    let p := if p.totalBlocks * 4096 < cappedEnd
      then { p with totalBlocks := (cappedEnd + 4095) / 4096 } else p
    overRange clearBlock cappedEnd e.addr.toNat p
  else p

/-- The first walk over the tags. -/
def addTag (p : Pmm) : MultibootTag → Pmm
  | .mmap entries => entries.foldl addEntry p
  | _ => p

/-- The second walk over the tags. -/
def useTag (p : Pmm) : MultibootTag → Pmm
  | .module modStart modEnd => p.markUsedRange modStart.toUInt64 modEnd.toUInt64
  | _ => p

/-- All blocks used, none counted. -/
def blank : Pmm := ⟨fun _ => true, fun _ => 0, 0, 0⟩

end Pmm

def MultibootTag.isMmap : MultibootTag → Bool
  | .mmap _ => true
  | _ => false

/-- The blocks of the memory map, or 128 MiB without one. -/
def pmmMap (b : BootInfo) : Pmm :=
  let p := b.tags.foldl Pmm.addTag Pmm.blank
  if b.tags.any MultibootTag.isMmap then
    if p.totalBlocks = 0 then { p with totalBlocks := maxBlocks } else p
  else (range 32768).foldl Pmm.clearBlock { p with totalBlocks := 32768 }

def pmmInit (b : BootInfo) : Pmm :=
  let p := (range 256).foldl Pmm.useBlock (pmmMap b)
  let p := p.markUsedRange b.kernelStart b.kernelEnd
  let p := if 8 ≤ b.totalSize ∧ b.totalSize < 1024 * 1024
    then p.markUsedRange b.mbInfo (b.mbInfo + b.totalSize.toUInt64) else p
  b.tags.foldl Pmm.useTag p

/-! ## The state `pmm_init` leaves -/

lemma le_blocks_mul (n : Nat) : n ≤ (n + 4095) / 4096 * 4096 := by
  omega

lemma blocks_le_maxBlocks {n : Nat} (h : n ≤ oneGib) : (n + 4095) / 4096 ≤ maxBlocks := by
  unfold oneGib at h
  unfold maxBlocks
  omega

namespace Pmm

/-- While the bitmap is built: the clear bits are below `total_blocks` and counted, and no block has
a reference. -/
structure Building (p : Pmm) : Prop where
  total_le : p.totalBlocks ≤ maxBlocks
  clear_lt : ∀ f, p.bitmap f = false → f < p.totalBlocks
  count : p.freeBlocks = p.free.card
  unreferenced : ∀ f, p.refcounts f = 0

namespace Building

variable {p : Pmm}

lemma blank : Pmm.blank.Building where
  total_le := Nat.zero_le _
  clear_lt := by simp [Pmm.blank]
  count := by simp [Pmm.blank, Pmm.free]
  unreferenced _ := rfl

/-- Raising `total_blocks` adds no free block, as no bit above it is clear. -/
lemma raise (h : p.Building) {n : Nat} (hle : p.totalBlocks ≤ n) (hn : n ≤ maxBlocks) :
    ({ p with totalBlocks := n } : Pmm).Building where
  total_le := hn
  clear_lt f hf := (h.clear_lt f hf).trans_le hle
  count := by
    rw [h.count]
    congr 1
    ext f
    rw [mem_free, mem_free]
    exact ⟨fun hf => ⟨hf.1.trans_le hle, hf.2⟩, fun hf => ⟨h.clear_lt f hf.2, hf.2⟩⟩
  unreferenced := h.unreferenced

lemma clearBlock (h : p.Building) {f : Nat} (hf : f < p.totalBlocks) :
    (p.clearBlock f).Building := by
  unfold Pmm.clearBlock
  split
  · next hused =>
    have hnot : f ∉ p.free := by simp [mem_free, hused]
    refine ⟨h.total_le, fun x hx => ?_, ?_, h.unreferenced⟩
    · by_cases hxf : x = f
      · exact hxf ▸ hf
      · exact h.clear_lt x (by simpa [update_of_ne hxf] using hx)
    · have hcard : (p.release f).free.card = p.freeBlocks + 1 := by
        rw [release_free hf, Finset.card_insert_of_notMem hnot, ← h.count]
      exact hcard.symm
  · exact h

lemma useBlock (h : p.Building) (f : Nat) : (p.useBlock f).Building := by
  have hfree : (p.useBlock f).free = p.free.erase f := take_free p f
  refine ⟨h.total_le, fun x hx => ?_, ?_, h.unreferenced⟩
  · by_cases hxf : x = f
    · subst hxf
      simp [Pmm.useBlock] at hx
    · exact h.clear_lt x (by simpa [Pmm.useBlock, update_of_ne hxf] using hx)
  · rw [hfree]
    cases hbit : p.bitmap f with
    | false =>
      have hmem : f ∈ p.free := mem_free.2 ⟨h.clear_lt f hbit, hbit⟩
      have hpos : 0 < p.freeBlocks := h.count ▸ Finset.card_pos.2 ⟨f, hmem⟩
      rw [Finset.card_erase_of_mem hmem, ← h.count]
      simp [Pmm.useBlock, hbit, hpos]
    | true =>
      have hnot : f ∉ p.free := by simp [mem_free, hbit]
      rw [Finset.erase_eq_of_notMem hnot, ← h.count]
      simp [Pmm.useBlock, hbit]

end Building

/-- What a walk over a range keeps, if every step on a block of the range keeps it. -/
lemma overRange_inv {step : Pmm → Nat → Pmm} {P : Pmm → Prop} {stop : Nat}
    (hstep : ∀ p a, a < stop → P p → P (step p (a / 4096))) :
    ∀ (a : Nat) (p : Pmm), P p → P (overRange step stop a p) := by
  intro a p h
  fun_induction overRange step stop a p with
  | case1 a p hlt ih => exact ih (hstep p a hlt h)
  | case2 a p hlt => exact h

lemma foldl_inv {α : Type} {step : Pmm → α → Pmm} {P : Pmm → Prop} {l : List α}
    (hstep : ∀ p, ∀ x ∈ l, P p → P (step p x)) {p : Pmm} (h : P p) : P (l.foldl step p) :=
  foldlRecOn l step h fun p hp x hx => hstep p x hx hp

namespace Building

variable {p : Pmm}

lemma markUsedRange (h : p.Building) (start stop : UInt64) :
    (p.markUsedRange start stop).Building := by
  unfold Pmm.markUsedRange
  dsimp only
  split
  · exact h
  · split
    · exact h
    · exact overRange_inv (fun _ _ _ hp => hp.useBlock _) _ _ h

lemma addEntry (h : p.Building) (e : MmapEntry) : (p.addEntry e).Building := by
  unfold Pmm.addEntry
  dsimp only
  split
  · generalize hcap : min (e.addr + e.len).toNat oneGib = cappedEnd
    have hgib : cappedEnd ≤ oneGib := hcap ▸ min_le_right _ _
    -- After `total_blocks` is raised, every block of the entry is below it.
    have hraised : ∀ q : Pmm, q.Building ∧ cappedEnd ≤ q.totalBlocks * 4096 →
        (overRange Pmm.clearBlock cappedEnd e.addr.toNat q).Building := by
      intro q hq
      refine (overRange_inv (P := fun q => q.Building ∧ cappedEnd ≤ q.totalBlocks * 4096)
        (fun q a ha hq => ?_) _ _ hq).1
      have htotal : (q.clearBlock (a / 4096)).totalBlocks = q.totalBlocks := by
        unfold Pmm.clearBlock
        split <;> rfl
      exact ⟨hq.1.clearBlock (by omega), htotal ▸ hq.2⟩
    split
    · next hlt =>
      have hceil := le_blocks_mul cappedEnd
      have hle : p.totalBlocks ≤ (cappedEnd + 4095) / 4096 := by
        omega
      have hgrown := h.raise hle (blocks_le_maxBlocks hgib)
      -- The quotient is hidden, so that comparing states does not compute with the literal.
      exact hraised _ ⟨hgrown, hceil⟩
    · next hlt => exact hraised p ⟨h, not_lt.1 hlt⟩
  · exact h

lemma addTag (h : p.Building) (t : MultibootTag) : (p.addTag t).Building := by
  cases t with
  | mmap => exact foldl_inv (fun _ e _ hp => hp.addEntry e) h
  | module => exact h
  | other => exact h

lemma useTag (h : p.Building) (t : MultibootTag) : (p.useTag t).Building := by
  cases t with
  | module => exact h.markUsedRange _ _
  | mmap => exact h
  | other => exact h

end Building

end Pmm

variable (b : BootInfo)

lemma building_pmmMap : (pmmMap b).Building := by
  have hwalk : (b.tags.foldl addTag blank).Building :=
    foldl_inv (fun _ t _ hp => hp.addTag t) .blank
  unfold pmmMap
  dsimp only
  split
  · split
    · next hzero => exact hwalk.raise (hzero ▸ Nat.zero_le _) le_rfl
    · exact hwalk
  next hnone =>
  -- Without a memory map the walk over the tags has changed nothing.
  have hblank : b.tags.foldl addTag blank = blank := by
    refine foldl_inv (P := fun p => p = blank) (fun p t ht hp => ?_) rfl
    cases t with
    | mmap => exact absurd (any_eq_true.2 ⟨_, ht, rfl⟩) hnone
    | module => exact hp
    | other => exact hp
  rw [hblank]
  refine (foldl_inv (P := fun p => p.Building ∧ p.totalBlocks = 32768)
    (fun p f hf hp => ?_) ⟨Pmm.Building.blank.raise (Nat.zero_le _) (by decide), rfl⟩).1
  have htotal : (p.clearBlock f).totalBlocks = p.totalBlocks := by
    unfold clearBlock
    split <;> rfl
  exact ⟨hp.1.clearBlock (hp.2 ▸ mem_range.1 hf), htotal.trans hp.2⟩

lemma building_pmmInit : (pmmInit b).Building := by
  have hlow : ((range 256).foldl useBlock (pmmMap b)).Building :=
    foldl_inv (fun _ f _ hp => hp.useBlock f) (building_pmmMap b)
  have hkernel := hlow.markUsedRange b.kernelStart b.kernelEnd
  refine foldl_inv (fun _ t _ hp => hp.useTag t) ?_
  split
  · exact hkernel.markUsedRange _ _
  · exact hkernel

lemma Pmm.useBlock_used {p : Pmm} {f : Nat} (h : p.bitmap f = true) (x : Nat) :
    (p.useBlock x).bitmap f = true := by
  by_cases hx : f = x
  · simp [useBlock, hx]
  · simpa [useBlock, update_of_ne hx] using h

lemma Pmm.markUsedRange_used {p : Pmm} {f : Nat} (h : p.bitmap f = true) (start stop : UInt64) :
    (p.markUsedRange start stop).bitmap f = true := by
  unfold markUsedRange
  dsimp only
  split
  · exact h
  split
  · exact h
  · exact overRange_inv (P := fun p => p.bitmap f = true) (fun _ _ _ hp => useBlock_used hp _) _ _ h

lemma zero_used_pmmInit : (pmmInit b).bitmap 0 = true := by
  have hlow : ((range 256).foldl useBlock (pmmMap b)).bitmap 0 = true := by
    rw [range_succ_eq_map, foldl_cons]
    exact foldl_inv (P := fun p => p.bitmap 0 = true)
      (fun _ x _ hp => useBlock_used hp x) (by simp [useBlock])
  have hkernel := markUsedRange_used hlow b.kernelStart b.kernelEnd
  refine foldl_inv (P := fun p => p.bitmap 0 = true) (fun p t _ hp => ?_) ?_
  · cases t with
    | module => exact markUsedRange_used hp _ _
    | mmap => exact hp
    | other => exact hp
  · split
    · exact markUsedRange_used hkernel _ _
    · exact hkernel

lemma wf_pmmInit : (pmmInit b).Wf :=
  ⟨(building_pmmInit b).total_le, zero_used_pmmInit b, (building_pmmInit b).count⟩

/-! ## Runs -/

/-- The calls of the allocator, with any addresses. -/
inductive PmmOp where
  | alloc
  | retain (a : UInt64)
  | free (a : UInt64)

/-- References to a block since its last allocation: taken by it and by successful calls of
`pmm_retain_block`, and calls of `pmm_free_block`. -/
structure Tally where
  taken : Nat
  freed : Nat

/-- The state of a run, with the tally of every block allocated so far. -/
structure PmmRun where
  pmm : Pmm
  tally : Nat → Option Tally

/-- `pmm_alloc_block` returns block `f`. -/
def Pmm.HandsOut (p : Pmm) (f : Nat) : Prop :=
  (pmmAllocBlock p).1 ≠ 0 ∧ (pmmAllocBlock p).1 = addr f

namespace PmmRun

def step (s : PmmRun) : PmmOp → PmmRun
  | .alloc =>
      let r := pmmAllocBlock s.pmm
      ⟨r.2, if r.1 = 0 then s.tally else update s.tally (r.1.toNat / 4096) (some ⟨1, 0⟩)⟩
  | .retain a =>
      let r := pmmRetainBlock s.pmm a
      ⟨r.2, if r.1 then update s.tally (a.toNat / 4096)
        ((s.tally (a.toNat / 4096)).map fun t => ⟨t.taken + 1, t.freed⟩) else s.tally⟩
  | .free a =>
      ⟨pmmFreeBlock s.pmm a, if a &&& 0xFFF = 0 then update s.tally (a.toNat / 4096)
        ((s.tally (a.toNat / 4096)).map fun t => ⟨t.taken, t.freed + 1⟩) else s.tally⟩

def boot (b : BootInfo) : PmmRun := ⟨pmmInit b, fun _ => none⟩

def run (s : PmmRun) (ops : List PmmOp) : PmmRun := ops.foldl step s

/-- What every call keeps. A block of `init`, the blocks in use after `pmm_init`, was never
allocated; the references of an allocated block are those taken and not freed. -/
structure Accounted (init : Nat → Bool) (s : PmmRun) : Prop where
  wf : s.pmm.Wf
  zero : init 0 = true
  reserved : ∀ f, init f = true → s.pmm.bitmap f = true ∧ s.pmm.refcounts f = 0
  used : ∀ f, 0 < s.pmm.refcounts f → s.pmm.bitmap f = true
  refs : ∀ f t, s.tally f = some t → s.pmm.refcounts f = t.taken - t.freed
  counted : ∀ f, 0 < s.pmm.refcounts f → ∃ t, s.tally f = some t
  outside : ∀ f, s.pmm.totalBlocks ≤ f → s.tally f = none

namespace Accounted

variable {init : Nat → Bool} {s : PmmRun} {f : Nat}

section

variable (h : Accounted init s)
include h

lemma retally {p : Pmm} {t : Tally} (hwf : p.Wf) (hf : f < s.pmm.totalBlocks)
    (hinit : init f ≠ true) (htotal : p.totalBlocks = s.pmm.totalBlocks)
    (hbit : ∀ x, x ≠ f → p.bitmap x = s.pmm.bitmap x)
    (hrefs : p.refcounts = update s.pmm.refcounts f (t.taken - t.freed))
    (hused : 0 < t.taken - t.freed → p.bitmap f = true) :
    Accounted init ⟨p, update s.tally f (some t)⟩ := by
  refine ⟨hwf, h.zero, fun x hx => ?_, fun x hx => ?_, fun x t' ht => ?_, fun x hx => ?_,
    fun x hx => ?_⟩
  · have hne : x ≠ f := by
      rintro rfl
      exact hinit hx
    simpa [hbit x hne, hrefs, update_of_ne hne] using h.reserved x hx
  · by_cases hxf : x = f
    · subst hxf
      exact hused (by simpa [hrefs] using hx)
    · simpa [hbit x hxf] using h.used x (by simpa [hrefs, update_of_ne hxf] using hx)
  · by_cases hxf : x = f
    · subst hxf
      obtain rfl : t = t' := by simpa using ht
      simp [hrefs]
    · simpa [hrefs, update_of_ne hxf] using h.refs x t' (by simpa [update_of_ne hxf] using ht)
  · by_cases hxf : x = f
    · exact ⟨t, by simp [hxf]⟩
    · simpa [update_of_ne hxf] using h.counted x (by simpa [hrefs, update_of_ne hxf] using hx)
  · have hne : x ≠ f := by
      rintro rfl
      exact absurd hf (not_lt.2 (htotal ▸ hx))
    simpa [update_of_ne hne] using h.outside x (htotal ▸ hx)

theorem take (hf : f ∈ s.pmm.free) :
    Accounted init ⟨s.pmm.take f, update s.tally f (some ⟨1, 0⟩)⟩ := by
  obtain ⟨hlt, hclear⟩ := Pmm.mem_free.1 hf
  refine h.retally (h.wf.take hf) hlt (fun hi => ?_) rfl (fun x hx => ?_) rfl fun _ => ?_
  · simp [(h.reserved f hi).1] at hclear
  · simp [Pmm.take, update_of_ne hx]
  · simp [Pmm.take]

lemma not_init (hpos : 0 < s.pmm.refcounts f) : init f ≠ true :=
  fun hi => hpos.ne' (h.reserved f hi).2

/-- A free of a block without references counts only in the tally. -/
lemma overfree (hf : s.pmm.totalBlocks ≤ f ∨ s.pmm.refcounts f = 0) :
    Accounted init ⟨s.pmm, update s.tally f ((s.tally f).map fun t => ⟨t.taken, t.freed + 1⟩)⟩ := by
  refine ⟨h.wf, h.zero, h.reserved, h.used, fun x t ht => ?_, fun x hx => ?_, fun x hx => ?_⟩
  · by_cases hxf : x = f
    · subst hxf
      simp only [update_self, Option.map_eq_some_iff] at ht
      obtain ⟨t₀, ht₀, rfl⟩ := ht
      have hrefs := h.refs x t₀ ht₀
      rcases hf with hout | hzero
      · simp [h.outside x hout] at ht₀
      · dsimp only
        omega
    · exact h.refs x t (by simpa [update_of_ne hxf] using ht)
  · obtain ⟨t, ht⟩ := h.counted x hx
    by_cases hxf : x = f
    · subst hxf
      exact ⟨⟨t.taken, t.freed + 1⟩, by simp [ht]⟩
    · exact ⟨t, by simpa [update_of_ne hxf] using ht⟩
  · by_cases hxf : x = f
    · subst hxf
      simp [h.outside x hx]
    · simpa [update_of_ne hxf] using h.outside x hx

lemma alloc : Accounted init (s.step .alloc) := by
  rcases pmmAllocBlock_cases h.wf with ⟨-, heq⟩ | ⟨f, hf, hne, heq⟩
  · simpa [step, heq] using h
  · have hblock := addr_block (h.wf.lt_of_lt_total (mem_free.1 hf).1)
    simpa [step, heq, hne, hblock] using h.take hf

theorem retain (a : UInt64) : Accounted init (s.step (.retain a)) := by
  simp only [step, pmmRetainBlock]
  split
  · simpa using h
  next hin =>
  split
  · simpa using h
  next href =>
  rw [not_or, not_le] at hin
  rw [not_or, not_or] at href
  have hpos := pos_of_ne_zero href.2.1
  obtain ⟨t, ht⟩ := h.counted _ hpos
  have hrefs := h.refs _ t ht
  have hsum : s.pmm.refcounts (a.toNat / 4096) + 1 = t.taken + 1 - t.freed := by omega
  simp only [if_true, ht, Option.map_some]
  refine h.retally (h.wf.setRefcount _) hin.2 (h.not_init hpos) rfl (fun _ _ => rfl) ?_ fun _ => ?_
  · simp [setRefcount, hsum]
  · simpa [setRefcount] using href.1

lemma free (a : UInt64) : Accounted init (s.step (.free a)) := by
  simp only [step, pmmFreeBlock]
  by_cases halign : a &&& 0xFFF = 0
  · rw [if_pos halign]
    split
    · next hout =>
      rcases hout with hbad | hout
      · exact absurd halign hbad
      · exact h.overfree hout
    next hin =>
    rw [not_or, not_or, not_le] at hin
    have hpos := pos_of_ne_zero hin.2.2
    have hbit := h.used _ hpos
    obtain ⟨t, ht⟩ := h.counted _ hpos
    have hrefs := h.refs _ t ht
    rw [ht, Option.map_some]
    split
    · have hsum : s.pmm.refcounts (a.toNat / 4096) - 1 = t.taken - (t.freed + 1) := by omega
      refine h.retally (h.wf.setRefcount _) hin.2.1 (h.not_init hpos) rfl (fun _ _ => rfl) ?_
        fun _ => hbit
      simp [setRefcount, hsum]
    next hlast =>
    have hsum : t.taken - (t.freed + 1) = 0 := by omega
    have hne : a.toNat / 4096 ≠ 0 := by
      intro hzero
      rw [hzero, (h.reserved 0 h.zero).2] at hpos
      exact absurd hpos (lt_irrefl 0)
    refine h.retally (h.wf.release hin.2.1 hbit hne) hin.2.1 (h.not_init hpos) rfl
      (fun x hx => update_of_ne hx _ _) ?_ fun hgt => ?_
    · simp [release, hsum]
    · simp [hsum] at hgt
  · rw [if_neg halign, if_pos (.inl halign)]
    exact h

theorem step (op : PmmOp) : Accounted init (s.step op) := by
  cases op with
  | alloc => exact h.alloc
  | retain a => exact h.retain a
  | free a => exact h.free a

theorem run (ops : List PmmOp) : Accounted init (s.run ops) :=
  foldlRecOn ops PmmRun.step h fun _ hs op _ => hs.step op

lemma clear_of_handsOut (hf : f < maxBlocks) (hout : s.pmm.HandsOut f) :
    s.pmm.bitmap f = false := by
  obtain ⟨hne, heq⟩ := hout
  rcases pmmAllocBlock_cases h.wf with ⟨-, hnull⟩ | ⟨g, hg, -, hsome⟩
  · exact absurd (congrArg Prod.fst hnull) hne
  have hfg : g = f := by
    refine addr_inj (h.wf.lt_of_lt_total (mem_free.1 hg).1) ?_ ?_
    · exact hf.trans (by decide)
    · rw [← heq, hsome]
  exact hfg ▸ (mem_free.1 hg).2

end

end Accounted

lemma accounted_boot (b : BootInfo) : Accounted (pmmInit b).bitmap (boot b) where
  wf := wf_pmmInit b
  zero := zero_used_pmmInit b
  reserved f hf := ⟨hf, (building_pmmInit b).unreferenced f⟩
  used f hf := absurd ((building_pmmInit b).unreferenced f) (Nat.pos_iff_ne_zero.1 hf)
  refs f t ht := by simp [boot] at ht
  counted f hf := absurd ((building_pmmInit b).unreferenced f) (Nat.pos_iff_ne_zero.1 hf)
  outside _ _ := rfl

/-- In every state of every run from `pmm_init`: the counter is the number of clear bits below the
total; a block with references is used; a block that is handed out again has been freed as often as
it was taken since its last allocation; and the blocks in use after `pmm_init` stay in use and are
not handed out. -/
theorem pmm_accounts (b : BootInfo) (ops : List PmmOp) :
    ((boot b).run ops).pmm.freeBlocks =
        ((Finset.range ((boot b).run ops).pmm.totalBlocks).filter
          fun f => ((boot b).run ops).pmm.bitmap f = false).card ∧
      (∀ f, 0 < ((boot b).run ops).pmm.refcounts f → ((boot b).run ops).pmm.bitmap f = true) ∧
      (∀ f < maxBlocks, ((boot b).run ops).pmm.HandsOut f →
        ∀ t, ((boot b).run ops).tally f = some t → t.taken ≤ t.freed) ∧
      ∀ f < maxBlocks, (pmmInit b).bitmap f = true →
        ((boot b).run ops).pmm.bitmap f = true ∧ ¬ ((boot b).run ops).pmm.HandsOut f := by
  have h := (accounted_boot b).run ops
  refine ⟨h.wf.count, h.used, fun f hf hout t ht => ?_, fun f hf hinit => ?_⟩
  · have hclear := h.clear_of_handsOut hf hout
    have hzero : ((boot b).run ops).pmm.refcounts f = 0 := by
      by_contra hpos
      simp [h.used f (pos_of_ne_zero hpos)] at hclear
    have hrefs := h.refs f t ht
    omega
  · have hused := (h.reserved f hinit).1
    exact ⟨hused, fun hout => by simp [h.clear_of_handsOut hf hout] at hused⟩

end PmmRun

/-! ## What `pmm_init` makes available -/

open MultibootTag

/-- The bytes from `start` to `stop` meet block `f`. -/
def Meets (start stop f : Nat) : Prop := max start (f * 4096) < min stop (f * 4096 + 4096)

def MultibootTag.entries : MultibootTag → List MmapEntry
  | .mmap entries => entries
  | _ => []

def BootInfo.entries (b : BootInfo) : List MmapEntry := b.tags.flatMap MultibootTag.entries

/-- The block is wholly in available memory, and in nothing else. -/
structure BootInfo.Usable (b : BootInfo) (f : Nat) : Prop where
  available : ∀ a, a / 4096 = f → ∃ e ∈ b.entries, e.type = 1 ∧ e.addr.toNat ≤ a ∧
    a < e.addr.toNat + e.len.toNat
  others : ∀ e ∈ b.entries, e.type ≠ 1 → ¬ Meets e.addr.toNat (e.addr.toNat + e.len.toNat) f
  low : 256 ≤ f
  kernel : ¬ Meets b.kernelStart.toNat b.kernelEnd.toNat f
  bootInfo : ¬ Meets b.mbInfo.toNat (b.mbInfo.toNat + b.totalSize.toNat) f
  modules : ∀ s e, MultibootTag.module s e ∈ b.tags → ¬ Meets s.toNat e.toNat f

/-- The walk over an available entry steps on the block. -/
def MmapEntry.Scans (e : MmapEntry) (f : Nat) : Prop :=
  e.type = 1 ∧ ∃ k, e.addr.toNat + 4096 * k < min (e.addr + e.len).toNat oneGib ∧
    (e.addr.toNat + 4096 * k) / 4096 = f

/-- `mark_used_range` marks the block. -/
def Marks (start stop : UInt64) (f : Nat) : Prop :=
  ¬ stop ≤ start ∧ ¬ oneGib ≤ (start &&& ~~~0xFFF).toNat ∧
    ∃ k, (start &&& ~~~0xFFF).toNat + 4096 * k <
      min ((stop + 0xFFF) &&& ~~~0xFFF).toNat oneGib ∧
      ((start &&& ~~~0xFFF).toNat + 4096 * k) / 4096 = f

/-- A walk over the memory maps steps on the block, or there is no map and it is below 128 MiB. -/
def BootInfo.Freed (b : BootInfo) (f : Nat) : Prop :=
  (∃ e ∈ b.entries, e.Scans f) ∨ b.tags.any MultibootTag.isMmap = false ∧ f < 32768

/-- The block is marked as used again. -/
def BootInfo.Reserved (b : BootInfo) (f : Nat) : Prop :=
  f < 256 ∨ Marks b.kernelStart b.kernelEnd f ∨
    (8 ≤ b.totalSize ∧ b.totalSize < 1024 * 1024 ∧
      Marks b.mbInfo (b.mbInfo + b.totalSize.toUInt64) f) ∨
    ∃ s e, MultibootTag.module s e ∈ b.tags ∧ Marks s.toUInt64 e.toUInt64 f

/-! ## The bits after `pmm_init` -/

namespace Pmm

lemma foldl_bit {α : Type} {step : Pmm → α → Pmm} {hits : α → Prop} {f : Nat} {v : Bool}
    {l : List α} (hstep : ∀ p, ∀ x ∈ l, (step p x).bitmap f = v ↔ p.bitmap f = v ∨ hits x)
    (p : Pmm) : (l.foldl step p).bitmap f = v ↔ p.bitmap f = v ∨ ∃ x ∈ l, hits x := by
  induction l generalizing p with
  | nil => simp
  | cons x l ih =>
    rw [foldl_cons, ih fun p y hy => hstep p y (by simp [hy]), hstep p x (by simp)]
    simp [or_assoc]

lemma overRange_bit {step : Pmm → Nat → Pmm} {f : Nat} {v : Bool}
    (hstep : ∀ p x, (step p x).bitmap f = v ↔ p.bitmap f = v ∨ x = f) (stop a : Nat) (p : Pmm) :
    (overRange step stop a p).bitmap f = v ↔
      p.bitmap f = v ∨ ∃ k, a + 4096 * k < stop ∧ (a + 4096 * k) / 4096 = f := by
  fun_induction overRange step stop a p with
  | case1 a p hlt ih =>
    rw [ih, hstep, or_assoc]
    refine or_congr_right ⟨?_, ?_⟩
    · rintro (hf | ⟨k, hk, hf⟩)
      · exact ⟨0, by simpa using hlt, by simpa using hf⟩
      · exact ⟨k + 1, by omega, by omega⟩
    · rintro ⟨k, hk, hf⟩
      cases k with
      | zero => exact .inl (by simpa using hf)
      | succ k => exact .inr ⟨k, by omega, by omega⟩
  | case2 =>
    refine (or_iff_left ?_).symm
    rintro ⟨k, hk, -⟩
    omega

variable (p : Pmm)

lemma clearBlock_clear (x f : Nat) :
    (p.clearBlock x).bitmap f = false ↔ p.bitmap f = false ∨ x = f := by
  unfold clearBlock
  by_cases hx : f = x
  · subst hx
    cases h : p.bitmap f <;> simp [h]
  · split <;> simp [update_of_ne hx, Ne.symm hx]

lemma useBlock_set (x f : Nat) : (p.useBlock x).bitmap f = true ↔ p.bitmap f = true ∨ x = f := by
  by_cases hx : f = x
  · simp [useBlock, hx]
  · simp [useBlock, update_of_ne hx, Ne.symm hx]

lemma markUsedRange_set (start stop : UInt64) (f : Nat) :
    (p.markUsedRange start stop).bitmap f = true ↔ p.bitmap f = true ∨ Marks start stop f := by
  unfold markUsedRange Marks
  dsimp only
  split
  · next h => exact (or_iff_left fun hm => hm.1 h).symm
  next h =>
  split
  · next hgib => exact (or_iff_left fun hm => hm.2.1 hgib).symm
  · next hgib =>
    rw [overRange_bit (fun p x => useBlock_set p x f)]
    exact or_congr_right ⟨fun hk => ⟨h, hgib, hk⟩, fun hm => hm.2.2⟩

lemma addEntry_clear (e : MmapEntry) (f : Nat) :
    (p.addEntry e).bitmap f = false ↔ p.bitmap f = false ∨ e.Scans f := by
  unfold addEntry MmapEntry.Scans
  split
  · next htype =>
    rw [overRange_bit (fun p x => clearBlock_clear p x f)]
    simp only [htype, true_and]
    split <;> rfl
  · next htype => simp [htype]

lemma addTag_clear (t : MultibootTag) (f : Nat) :
    (p.addTag t).bitmap f = false ↔ p.bitmap f = false ∨ ∃ e ∈ t.entries, e.Scans f := by
  cases t with
  | mmap => exact foldl_bit (fun p e _ => addEntry_clear p e f) p
  | module | other => simp [addTag, entries]

lemma useTag_set (t : MultibootTag) (f : Nat) :
    (p.useTag t).bitmap f = true ↔ p.bitmap f = true ∨
      ∃ s e, t = .module s e ∧ Marks s.toUInt64 e.toUInt64 f := by
  cases t with
  | module s e => simpa [useTag] using markUsedRange_set p s.toUInt64 e.toUInt64 f
  | mmap | other => simp [useTag]

end Pmm

lemma pmmMap_clear_iff (b : BootInfo) (f : Nat) : (pmmMap b).bitmap f = false ↔ b.Freed f := by
  have hwalk : (b.tags.foldl addTag blank).bitmap f = false ↔
      ∃ e ∈ b.entries, e.Scans f := by
    rw [foldl_bit fun p t _ => addTag_clear p t f]
    simp only [blank, BootInfo.entries, mem_flatMap, Bool.true_eq_false, false_or]
    constructor
    · rintro ⟨t, ht, e, he, hs⟩
      exact ⟨e, ⟨t, ht, he⟩, hs⟩
    · rintro ⟨e, ⟨t, ht, he⟩, hs⟩
      exact ⟨t, ht, e, he, hs⟩
  unfold pmmMap BootInfo.Freed
  dsimp only
  split
  · next hmap =>
    rw [← hwalk, hmap]
    split <;> simp
  · next hmap =>
    rw [foldl_bit fun p x _ => clearBlock_clear p x f, ← hwalk]
    simp [Bool.not_eq_true _ ▸ hmap]

lemma pmmInit_clear_iff (b : BootInfo) (f : Nat) :
    (pmmInit b).bitmap f = false ↔ b.Freed f ∧ ¬ b.Reserved f := by
  have hused : (pmmInit b).bitmap f = true ↔ (pmmMap b).bitmap f = true ∨ b.Reserved f := by
    unfold pmmInit BootInfo.Reserved
    rw [foldl_bit fun p t _ => useTag_set p t f]
    have hlow : ((range 256).foldl useBlock (pmmMap b)).bitmap f = true ↔
        (pmmMap b).bitmap f = true ∨ f < 256 := by
      rw [foldl_bit fun p x _ => useBlock_set p x f]
      simp
    have hmodules : (∃ t ∈ b.tags, ∃ s e, t = module s e ∧
        Marks s.toUInt64 e.toUInt64 f) ↔
        ∃ s e, module s e ∈ b.tags ∧ Marks s.toUInt64 e.toUInt64 f := by
      constructor
      · rintro ⟨_, ht, s, e, rfl, hm⟩
        exact ⟨s, e, ht, hm⟩
      · rintro ⟨s, e, ht, hm⟩
        exact ⟨_, ht, s, e, rfl, hm⟩
    rw [hmodules]
    split
    · next hsize =>
      rw [markUsedRange_set, markUsedRange_set, hlow]
      simp only [hsize, true_and, or_assoc]
    · next hsize =>
      rw [markUsedRange_set, hlow]
      simp only [← and_assoc, hsize, false_and, false_or, or_assoc]
  rw [← pmmMap_clear_iff, ← Bool.not_eq_true, ← Bool.not_eq_true, hused, not_or]

/-! ## What is handed out -/

namespace PmmRun

lemma exists_run_handsOut {init : Nat → Bool} {s : PmmRun} (h : Accounted init s) {f : Nat}
    (hf : f ∈ s.pmm.free) : ∃ ops, (s.run ops).pmm.HandsOut f := by
  induction hn : s.pmm.free.card generalizing s with
  | zero => exact absurd hf (by simp [Finset.card_eq_zero.1 hn])
  | succ n ih =>
    rcases pmmAllocBlock_cases h.wf with ⟨hnone, -⟩ | ⟨g, hg, hne, heq⟩
    · simp [hnone] at hf
    by_cases hfg : f = g
    · subst hfg
      exact ⟨[], by simp [Pmm.HandsOut, run, heq, hne]⟩
    have hpmm : (s.step .alloc).pmm = s.pmm.take g := by simp [step, heq]
    have hfree : (s.step .alloc).pmm.free = s.pmm.free.erase g := by
      rw [hpmm]
      exact take_free s.pmm g
    obtain ⟨ops, hops⟩ := ih (h.step .alloc) (by rw [hfree]; exact Finset.mem_erase.2 ⟨hfg, hf⟩)
      (by rw [hfree, Finset.card_erase_of_mem hg, hn]; rfl)
    exact ⟨.alloc :: ops, hops⟩

/-- Every block that is ever handed out is usable, and the counter after `pmm_init` is the number of
these blocks, exactly if every block that is freed and not marked again is usable. -/
theorem usable_memory_iff (b : BootInfo) :
    ((∀ ops, ∀ f < maxBlocks, ((boot b).run ops).pmm.HandsOut f → b.Usable f) ∧
      (pmmInit b).freeBlocks = {f | (pmmInit b).bitmap f = false ∧ b.Usable f}.ncard) ↔
    ∀ f, b.Freed f → ¬ b.Reserved f → b.Usable f := by
  have hmem : ∀ f, f ∈ (pmmInit b).free ↔ (pmmInit b).bitmap f = false := by
    intro f
    rw [mem_free]
    exact and_iff_right_of_imp ((building_pmmInit b).clear_lt f)
  constructor
  · rintro ⟨hall, -⟩ f hfreed hnot
    have hclear := (pmmInit_clear_iff b f).2 ⟨hfreed, hnot⟩
    obtain ⟨ops, hops⟩ := exists_run_handsOut (accounted_boot b) ((hmem f).2 hclear)
    have hlt := ((building_pmmInit b).clear_lt f hclear).trans_le (building_pmmInit b).total_le
    exact hall ops f hlt hops
  · intro h
    have hclear : ∀ f, (pmmInit b).bitmap f = false → b.Usable f := fun f hf =>
      h f ((pmmInit_clear_iff b f).1 hf).1 ((pmmInit_clear_iff b f).1 hf).2
    refine ⟨fun ops f hf hout => hclear f ?_, ?_⟩
    · -- A block in use after `pmm_init` is never handed out.
      by_contra hused
      have hruns := (accounted_boot b).run ops
      have hbit := (hruns.reserved f (Bool.not_eq_false _ ▸ hused)).1
      rw [hruns.clear_of_handsOut hf hout] at hbit
      simp at hbit
    · have hset : {f | (pmmInit b).bitmap f = false ∧ b.Usable f} = ↑(pmmInit b).free := by
        ext f
        simp only [Set.mem_ofPred_eq, Finset.mem_coe, hmem]
        exact and_iff_left_of_imp (hclear f)
      rw [hset, Set.ncard_coe_finset, (building_pmmInit b).count]

/-- The kernel image from 1 MiB on, the boot information behind it at 2 MiB, and two available
regions: the 2 MiB that hold both, and a page that starts in the middle of block 768. -/
def unalignedInfo : BootInfo :=
  ⟨0x200000, 80, [.mmap [⟨0x100000, 0x200000, 1⟩, ⟨0x300800, 4096, 1⟩]], 0x100000, 0x200000⟩

/-- Block 768 is handed out although only its second half is available. -/
theorem unaligned_region_freed :
    (∃ ops, ((boot unalignedInfo).run ops).pmm.HandsOut 768) ∧ ¬ unalignedInfo.Usable 768 := by
  refine ⟨?_, fun h => ?_⟩
  · have hmarks : ∀ {start stop : UInt64}, ((stop + 0xFFF) &&& ~~~0xFFF).toNat ≤ 0x300000 →
        ¬ Marks start stop 768 := by
      rintro start stop hend ⟨-, -, k, hk, hf⟩
      omega
    have hclear : (pmmInit unalignedInfo).bitmap 768 = false := by
      rw [pmmInit_clear_iff]
      have hmem : (⟨0x300800, 4096, 1⟩ : MmapEntry) ∈ unalignedInfo.entries := by
        simp [unalignedInfo, BootInfo.entries, entries]
      refine ⟨.inl ⟨_, hmem, rfl, 0, by decide, by decide⟩, ?_⟩
      rintro (h | h | ⟨-, -, h⟩ | ⟨s, e, h, -⟩)
      · exact absurd h (by decide)
      · exact hmarks (by decide) h
      · exact hmarks (by decide) h
      · simp [unalignedInfo] at h
    refine exists_run_handsOut (accounted_boot unalignedInfo) (mem_free.2 ⟨?_, hclear⟩)
    exact (building_pmmInit _).clear_lt 768 hclear
  · obtain ⟨e, he, -, hle, hlt⟩ := h.available (768 * 4096) (by decide)
    simp only [unalignedInfo, BootInfo.entries, entries, flatMap_cons, flatMap_nil,
      append_nil, mem_cons, not_mem_nil, or_false] at he
    rcases he with rfl | rfl
    · exact absurd hlt (by decide)
    · exact absurd hle (by decide)

end PmmRun

end AosKernel.Memory
