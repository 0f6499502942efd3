import AosKernel.Memory.Fork

/-!
# Runs of the virtual memory manager

A `System` is the machine and its live address spaces. `Op` is one call of `vmm.c`, as the system
calls, the page fault handler and the loaders make it, or one store of a user program; `step`
performs it and `run` a sequence of them. What an operation does is summed up in `Evolved`: which
pages show something else afterwards, and which blocks are lost, that is used and owned by nobody.
Each step keeps a layout of the machine up to date (`step_spec`), so every state of every run from
`Boot` has one (`Reachable.layout`).
-/

namespace AosKernel.Memory

open Lib.Loop Machine Finset

variable {cfg : Config} {m : Machine} {g : Layout}

/-- What an operation does to a layout. The pages of address spaces that are live before and after
show the same words, except those in `changed`; the free blocks in `lost` become reserved. -/
structure Evolved (p4 : Nat) (lost : Finset Nat) (changed : Nat → Nat → Prop) (m : Machine)
    (g : Layout) (m' : Machine) (g' : Layout) : Prop where
  reserved : ∀ f, f ≠ p4 → (g'.owner f = .reserved ↔ g.owner f = .reserved ∨ f ∈ lost)
  free : ∀ f ∈ lost, g.owner f = .free
  view : ∀ r v, r ∈ g.spaces → r ∈ g'.spaces → ¬ changed r v → view m' g' r v = view m g r v

variable {m' : Machine}

variable {g' : Layout} {r : Nat} {changed : Nat → Nat → Prop} {virt : UInt64}

lemma Evolved.of_reserved {p4 : Nat}
    (hres : ∀ f, f ≠ p4 → (g'.owner f = .reserved ↔ g.owner f = .reserved))
    (hview : ∀ r v, r ∈ g.spaces → r ∈ g'.spaces → ¬ changed r v → Memory.view m' g' r v =
      Memory.view m g r v) : Evolved p4 ∅ changed m g m' g' :=
  ⟨fun f hf => by rw [hres f hf]; simp, fun f hf => absurd hf (notMem_empty f), hview⟩

lemma Kept.evolved (h : Kept changed m g m' g') (p4 : Nat) : Evolved p4 ∅ changed m g m' g' :=
  Evolved.of_reserved (fun f _ => h.reserved f) fun r v _ _ => h.view r v

/-! ## Creation -/

/-- A free block becomes the PML4 of an address space, and no other block changes. -/
theorem Evolved.newRoot (h : Inv cfg m g) {c : Nat} (hc : g.owner c = .free)
    (hmem : ∀ f, f ≠ c → m'.mem f = m.mem f) :
    Evolved cfg.p4Block ∅ Unchanged m g m' (g.newRoot c) := by
  refine Evolved.of_reserved (fun f _ => ?_) fun r v _ _ _ => view_congr rfl ?_
  · by_cases hfc : f = c
    · subst hfc
      rw [show ((g.setOwner f .reserved).addRoot f).owner f = .table f 0 0 from
        Layout.setOwner_owner_self _ _ _, hc]
      exact ⟨by simp, by simp⟩
    · rw [show (g.newRoot c).owner f = g.owner f from
        (Layout.setOwner_owner_of_ne _ _ hfc).trans (Layout.setOwner_owner_of_ne _ _ hfc)]
  · intro f a hpage
    refine hmem f ?_
    rintro rfl
    rw [h.page_data hpage] at hc
    cases hc

lemma create_spec (h : Inv cfg m g) (kernelSource : UInt64) :
    vmmCreateUserSpace cfg m kernelSource = (0, m) ∨
      ∃ c m', vmmCreateUserSpace cfg m kernelSource = (addr c, m') ∧ addr c ≠ 0 ∧ c < 2 ^ 40 ∧
        Inv cfg m' (g.newRoot c) ∧
        Evolved cfg.p4Block ∅ Unchanged m g m' (g.newRoot c) := by
  rcases h.alloc with ⟨-, halloc⟩ | ⟨c, hfree, haddr, halloc, hfresh⟩
  · simp [vmmCreateUserSpace, halloc]
  have hlt := hfresh.lt
  -- The loop writes kernel entries of the new PML4 and nothing else.
  have hloop := forEach_inv (fun i m' => if kernelIndex i then m'.write (addr c) i
      (m'.read (if kernelSource = 0 then cfg.p4Table else kernelSource) i) else m')
    (P := fun _ m' => Fresh cfg m' (g.setOwner c .reserved) c ∧
      (∀ i < 512, UserPrefix 1 i → has (m'.mem c i) pagePresent = false) ∧
      ∀ f, f ≠ c → m'.mem f = m.mem f) 512 0
    ((m.take c).memset (addr c)) ?_ ?_
  · obtain ⟨hfresh', hz, hmem⟩ := hloop
    refine .inr ⟨c, _, ?_, haddr, hlt, hfresh'.newRoot hz, Evolved.newRoot h hfree hmem⟩
    simp only [vmmCreateUserSpace, halloc, if_neg haddr]
  · refine ⟨hfresh.setPage fun _ => 0, fun i _ _ => ?_, fun f hf => ?_⟩
    · rw [memset, setPage_addr _ hlt]
      simp [has]
    · rw [memset, setPage_addr _ hlt]
      simp [hf]
  · rintro i m1 - hi ⟨hf1, hz1, hmem1⟩
    cases hk : kernelIndex i with
    | false => simpa only [hk, Bool.false_eq_true, if_false] using ⟨hf1, hz1, hmem1⟩
    | true =>
    simp only [if_true]
    refine ⟨hf1.setPage _, fun j hj hu => ?_, fun f hf => ?_⟩
    · have hji : j ≠ i := by
        rintro rfl
        rw [(kernelIndex_eq_false hj).2 (by simpa [UserPrefix] using hu)] at hk
        exact Bool.noConfusion hk
      rw [write_addr _ hlt]
      simp only
      rw [writeWord_of_ne _ _ fun hc => hji hc.2]
      exact hz1 j hj hu
    · rw [write_addr _ hlt]
      simp only
      rw [writeWord_other _ _ _ hf]
      exact hmem1 f hf

/-! ## Mapping a fresh block -/

/-- What the callers of `vmm_map_page` do: allocate a block, fill it and map it. -/
def mapFresh (m : Machine) (pml4 virt : UInt64) (content : Nat → UInt64) (flags : UInt64) :
    Machine :=
  let (phys, m) := m.allocBlock
  if phys = 0 then m else vmmMapPage (m.setPage phys content) pml4 virt phys flags

/-- A block is free for the page, but not for all the tables that are missing. -/
def mapLeaks (m : Machine) (pml4 virt : UInt64) : Bool :=
  decide (0 < m.pmm.freeBlocks) && decide (m.pmm.freeBlocks ≤ missingTables m pml4 virt)

lemma missingTables_congr (h : Inv cfg m g) (hr : r ∈ g.spaces) (hu : userAddress virt = true)
    (hmem : ∀ t d b, g.owner t = .table r d b → m'.mem t = m.mem t) :
    missingTables m' (addr r) virt = missingTables m (addr r) virt := by
  have hread : ∀ {t d b} (i : Nat), g.owner t = .table r d b →
      m'.read (addr t) i = m.read (addr t) i := by
    intro t d b i ht
    rw [read_addr _ (h.lt_of_table ht), read_addr _ (h.lt_of_table ht), hmem t d b ht]
  have hroot := hread (pml4Idx virt) ((h.tables.root r).1 hr)
  unfold missingTables
  rw [hroot]
  cases h.walk hr hu with
  | noPdpt hp => simp [hp]
  | noPd c1 hc1 hw1 hp =>
    obtain ⟨-, -, -, -, h1, -⟩ := tableWord (h.lt_of_table hc1)
    simp only [hw1, h1, hread _ hc1, hp, if_true]
  | noPt c1 c2 hc1 hc2 hw1 hw2 | found c1 c2 t hc1 hc2 hw1 hw2 =>
    obtain ⟨-, -, -, -, h1, -⟩ := tableWord (h.lt_of_table hc1)
    obtain ⟨-, -, -, -, h2, -⟩ := tableWord (h.lt_of_table hc2)
    simp only [hw1, h1, hread _ hc1, hw2, h2, hread _ hc2]

/-- Mapping a fresh block changes one page; it loses the block if `mapLeaks`. -/
lemma mapFresh_spec (h : Inv cfg m g) (hr : r ∈ g.spaces) (hu : userAddress virt = true)
    (habsent : vmmPagePresent m (addr r) virt = false) (content : Nat → UInt64) (writable : Bool) :
    ∃ g' lost, Inv cfg (mapFresh m (addr r) virt content (userFlags writable)) g' ∧
      g'.spaces = g.spaces ∧ lost.card = (if mapLeaks m (addr r) virt then 1 else 0) ∧
      Evolved cfg.p4Block lost (At r (pageOf virt)) m g
        (mapFresh m (addr r) virt content (userFlags writable)) g' := by
  have hnone : g.page r (pageOf virt) = none := by
    cases h.pageAt hr hu with
    | noTable _ hpage => exact hpage
    | absent _ _ _ _ hpage => exact hpage
    | mapped t f a ht hfind hlt hw =>
      rw [vmmPagePresent, hfind] at habsent
      simp only [hw, (pageWord cfg.cowBit a hlt).1, Bool.true_eq_false] at habsent
  have hcount := h.counts.pmm.count
  rcases h.alloc with ⟨hempty, halloc⟩ | ⟨x, hfree, haddr, halloc, hfresh⟩
  · have hzero : m.pmm.freeBlocks = 0 := by rw [hcount, hempty]; rfl
    have hmap : mapFresh m (addr r) virt content (userFlags writable) = m := by
      simp [mapFresh, halloc]
    rw [hmap]
    exact ⟨g, ∅, h, rfl, by simp [mapLeaks, hzero], (Kept.refl _ _ _).evolved _⟩
  have hlt := hfresh.lt
  have hmem : x ∈ m.pmm.free := (h.counts.free_iff x).1 hfree
  have hcard : (m.pmm.take x).free.card + 1 = m.pmm.free.card := by
    rw [Pmm.take_free, card_erase_of_mem hmem]
    have hpos : 0 < m.pmm.free.card := card_pos.2 ⟨x, hmem⟩
    omega
  have hfilled := hfresh.setPage content
  -- Filling the block changes no table and no page.
  have hmem1 : ((m.take x).setPage (addr x) content).mem =
      Function.update m.mem x content := by rw [setPage_addr _ hlt]
  have htables : ∀ t d b, g.owner t = .table r d b →
      ((m.take x).setPage (addr x) content).mem t = m.mem t := by
    intro t d b ht
    have htx : t ≠ x := by
      rintro rfl
      rw [hfree] at ht
      cases ht
    rw [hmem1]
    simp [htx]
  have hview : ∀ r' v', view ((m.take x).setPage (addr x) content)
      (g.setOwner x .reserved) r' v' = view m g r' v' := by
    intro r' v'
    refine view_congr rfl fun f a hpage => ?_
    have hfx : f ≠ x := by
      rintro rfl
      rw [h.page_data hpage] at hfree
      cases hfree
    rw [hmem1]
    simp [hfx]
  have hmap : mapFresh m (addr r) virt content (userFlags writable) =
      vmmMapPage ((m.take x).setPage (addr x) content) (addr r) virt
        (addr x) (userFlags writable) := by
    simp only [mapFresh, halloc, if_neg haddr]
  have hpost := map_spec writable hfilled hr hu hnone
  rw [missingTables_congr h hr hu htables] at hpost
  have hcard1 : ((m.take x).setPage (addr x) content).pmm.free.card +
      1 = m.pmm.free.card := hcard
  rw [hmap]
  rcases hpost with ⟨hn, g', hinv, hkept⟩ | ⟨hn, g', hfresh', hkept⟩
  · refine ⟨g', ∅, hinv, hkept.spaces, ?_, Evolved.of_reserved (fun f _ => ?_) ?_⟩
    · have hno : mapLeaks m (addr r) virt = false := by
        simp only [mapLeaks, Bool.and_eq_false_iff, decide_eq_false_iff_not]
        omega
      rw [hno]
      rfl
    · rw [hkept.reserved]
      by_cases hfx : f = x
      · subst hfx
        simp [hfree]
      · rw [Layout.setOwner_owner_of_ne _ _ hfx, Layout.setOwner_owner_of_ne _ _ hfx]
    · exact fun r' v' _ _ hslot => (hkept.view r' v' hslot).trans (hview r' v')
  · refine ⟨g', {x}, hfresh'.inv, hkept.spaces, ?_, ⟨fun f _ => ?_, ?_, ?_⟩⟩
    · have hyes : mapLeaks m (addr r) virt = true := by
        simp only [mapLeaks, Bool.and_eq_true, decide_eq_true_iff]
        omega
      rw [hyes]
      rfl
    · rw [hkept.reserved, mem_singleton]
      by_cases hfx : f = x
      · subst hfx
        simp
      · rw [Layout.setOwner_owner_of_ne _ _ hfx]
        simp [hfx]
    · intro f hf
      rw [mem_singleton.1 hf]
      exact hfree
    · exact fun r' v' _ _ _ => (hkept.view r' v' id).trans (hview r' v')

/-! ## Bytes of words -/

def byteOf (words : Nat → UInt64) (o : Nat) : UInt8 :=
  (words (o / 8) >>> UInt64.ofNat (8 * (o % 8))).toUInt8

def putByte (w : UInt64) (j : Nat) (byte : UInt8) : UInt64 :=
  (w &&& ~~~((0xFF : UInt64) <<< UInt64.ofNat (8 * j))) ||| (byte.toUInt64 <<< UInt64.ofNat (8 * j))

def setByte (words : Nat → UInt64) (o : Nat) (byte : UInt8) : Nat → UInt64 :=
  Function.update words (o / 8) (putByte (words (o / 8)) (o % 8) byte)

/-! ## Loads and stores -/

def pageOffset (virt : UInt64) : Nat := virt.toNat % 4096

/-- The byte a user program sees at `virt`, if it sees one. -/
def userByte (m : Machine) (pml4 virt : UInt64) : Option UInt8 :=
  match findPageEntry m pml4 virt with
  | none => none
  | some (pt, i) =>
    if userEntry (m.read pt i) then
      some (byteOf (m.mem ((m.read pt i &&& ptePhysMask).toNat / 4096)) (pageOffset virt))
    else none

/-- A store of one byte by a user program; it faults unless the page is present, a user page and
writable. -/
def userStore (m : Machine) (pml4 virt : UInt64) (byte : UInt8) : Bool × Machine :=
  match findPageEntry m pml4 virt with
  | none => (false, m)
  | some (pt, i) =>
    if userEntry (m.read pt i) && has (m.read pt i) pageWritable then
      let phys := m.read pt i &&& ptePhysMask
      (true, m.setPage phys (setByte (m.mem (phys.toNat / 4096)) (pageOffset virt) byte))
    else (false, m)

/-- Whether a user program can write at `virt`, at once or after `vmm_handle_cow_fault` has resolved
the fault. -/
def canWrite (cfg : Config) (m : Machine) (pml4 virt : UInt64) : Bool :=
  match findPageEntry m pml4 virt with
  | none => false
  | some (pt, i) =>
    userEntry (m.read pt i) &&
      (has (m.read pt i) pageWritable || (vmmHandleCowFault cfg m pml4 virt).1)

section Specs

variable {cfg : Config} {m : Machine} {g : Layout} {r : Nat} {virt : UInt64}

lemma userByte_eq (h : Inv cfg m g) (hr : r ∈ g.spaces) (hu : userAddress virt = true) :
    userByte m (addr r) virt =
      (view m g r (pageOf virt)).map fun words => byteOf words (pageOffset virt) := by
  unfold userByte view
  cases h.pageAt hr hu with
  | noTable hfind hpage => simp [hfind, hpage]
  | absent t ht hfind hp hpage => simp [hfind, hpage, userEntry, hp]
  | mapped t f a ht hfind hlt hw hpage =>
    simp only [hfind, hpage, hw, userEntry_page cfg.cowBit a hlt, if_true, Option.map_some,
      (pageWord cfg.cowBit a hlt).2.2.2.2.2.1, addr_block (show f < 2 ^ 52 by omega)]

/-- An address can be written if its page is writable, or copy-on-write and either the only page of
its block or a block is free for a copy. -/
lemma canWrite_iff (h : Inv cfg m g) (hr : r ∈ g.spaces) (hu : userAddress virt = true) :
    canWrite cfg m (addr r) virt = true ↔
      ∃ f a, g.page r (pageOf virt) = some (f, a) ∧
        (a = .writable ∨ a = .cow ∧ (g.refs f = 1 ∨ m.pmm.free ≠ ∅)) := by
  have hcow := (cowFault_spec h hr hu).1
  unfold canWrite
  cases h.pageAt hr hu with
  | noTable hfind hpage => simp [hfind, hpage]
  | absent t ht hfind hp hpage => simp [hfind, hpage, userEntry, hp]
  | mapped t f a ht hfind hlt hw hpage =>
    rw [hpage] at hcow ⊢
    simp only [hfind, hw, userEntry_page cfg.cowBit a hlt, (pageWord cfg.cowBit a hlt).2.2.1,
      Bool.true_and, Bool.or_eq_true, decide_eq_true_iff, hcow]
    constructor
    · rintro (ha | ⟨f', hf', hor⟩)
      · exact ⟨f, a, rfl, .inl ha⟩
      · cases hf'
        exact ⟨f, .cow, rfl, .inr ⟨rfl, hor⟩⟩
    · rintro ⟨f', a', hf', ha | ⟨ha, hor⟩⟩
      · cases hf'
        exact .inl ha
      · cases hf'
        exact .inr ⟨f, by rw [ha], hor⟩

/-- A store changes what one page of one address space shows, and nothing else. -/
lemma store_spec (h : Inv cfg m g) (hr : r ∈ g.spaces) (hu : userAddress virt = true)
    (byte : UInt8) :
    Inv cfg (userStore m (addr r) virt byte).2 g ∧
      Kept (At r (pageOf virt)) m g (userStore m (addr r) virt byte).2 g ∧
      ((userStore m (addr r) virt byte).1 = true →
        view (userStore m (addr r) virt byte).2 g r (pageOf virt) =
          (view m g r (pageOf virt)).map fun words => setByte words (pageOffset virt) byte) := by
  unfold userStore
  cases h.pageAt hr hu with
  | noTable hfind =>
    simp only [hfind]
    exact ⟨h, Kept.refl _ _ _, fun hc => Bool.noConfusion hc⟩
  | absent t ht hfind hp =>
    simp only [hfind, userEntry, hp, Bool.false_and, Bool.false_eq_true, if_false]
    exact ⟨h, Kept.refl _ _ _, fun hc => hc.elim⟩
  | mapped t f a ht hfind hlt hw hpage =>
    obtain ⟨-, -, h3, -, -, h6, -, -⟩ := pageWord cfg.cowBit a hlt
    simp only [hfind, hw, userEntry_page cfg.cowBit a hlt, h3, h6, Bool.true_and]
    by_cases ha : a = .writable
    · subst ha
      rw [Machine.setPage_addr _ hlt, addr_block (show f < 2 ^ 52 by omega)]
      have hdata := h.page_data hpage
      refine ⟨h.setWords (by rw [hdata]; simp) _, ⟨rfl, fun _ => Iff.rfl, ?_⟩, fun _ => ?_⟩
      · intro r' v' hslot
        refine view_congr rfl fun f' a' hpage' => ?_
        -- The block has one page only.
        have hne : f' ≠ f := by
          rintro rfl
          have hsame := Lib.RefCount.eq_of_refs_eq_one ((h.counts.page_data hpage).2 rfl)
            (h.tables.page_holder hpage') (h.tables.page_holder hpage)
            (by simp [Layout.target, hpage']) (by simp [Layout.target, hpage])
          obtain ⟨rfl, rfl⟩ := Prod.mk.inj hsame
          exact hslot ⟨rfl, rfl⟩
        simp [hne]
      · simp [view, hpage]
    · simp only [ha, decide_false, Bool.false_eq_true, if_false]
      exact ⟨h, Kept.refl _ _ _, fun hc => hc.elim⟩

end Specs

/-! ## Operations -/

/-- The machine and the blocks of the PML4s of the live address spaces. -/
structure System where
  machine : Machine
  spaces : Finset Nat

/-- One operation. Address spaces are named by the block of their PML4. -/
inductive Op where
  | create (kernelSource : UInt64)
  /-- `vmm_map_page` of a block just allocated and filled. -/
  | map (r : Nat) (virt : UInt64) (content : Nat → UInt64) (writable : Bool)
  | copy (r : Nat)
  | cowFault (r : Nat) (virt : UInt64)
  | prepare (r : Nat) (virt length : UInt64)
  | protect (r : Nat) (virt : UInt64) (writable : Bool)
  /-- `vmm_unmap_page` and `pmm_free_block`. -/
  | unmap (r : Nat) (virt : UInt64)
  | destroy (r : Nat)
  /-- A store of a user program. -/
  | store (r : Nat) (virt : UInt64) (byte : UInt8)

namespace Op

def space : Op → Option Nat
  | create _ => none
  | map r _ _ _ | copy r | cowFault r _ | prepare r _ _ | protect r _ _ | unmap r _ | destroy r
  | store r _ _ => some r

/-- The operations of a run: the address space is live, the address is a user address, and a page
that is mapped was not mapped before. Not every caller sees to this: `sys_munmap` passes addresses
with a kernel index on to `vmm_unmap_page`, and `sys_brk` and `sys_mmap` do not ask whether a page
is mapped. -/
def enabled (s : System) : Op → Bool
  | create _ => true
  | map r virt _ _ =>
    decide (r ∈ s.spaces) && userAddress virt && !vmmPagePresent s.machine (addr r) virt
  | copy r | destroy r | prepare r _ _ => decide (r ∈ s.spaces)
  | cowFault r virt | protect r virt _ | unmap r virt | store r virt _ =>
    decide (r ∈ s.spaces) && userAddress virt

/-- The pages that an operation may make show something else. -/
def changes : Op → Nat → Nat → Prop
  | map r virt _ _ | unmap r virt | store r virt _ => At r (pageOf virt)
  | _ => Unchanged

/-- Whether an operation is a `vmm_map_page` that cannot get all the tables it needs. -/
def leaks (s : System) : Op → Bool
  | map r virt _ _ => mapLeaks s.machine (addr r) virt
  | _ => false

end Op

/-- The address space that `vmm_create_user_space` or `vmm_copy_p4` returns, 0 being `NULL`. -/
def System.adopt (s : System) : UInt64 × Machine → System
  | (dst, m) => ⟨m, if dst = 0 then s.spaces else insert (dst.toNat / 4096) s.spaces⟩

def perform (cfg : Config) (s : System) : Op → System
  | .create kernelSource => s.adopt (vmmCreateUserSpace cfg s.machine kernelSource)
  | .map r virt content writable =>
    { s with machine := mapFresh s.machine (addr r) virt content (userFlags writable) }
  | .copy r => s.adopt (vmmCopyP4 cfg s.machine (addr r))
  | .cowFault r virt => { s with machine := (vmmHandleCowFault cfg s.machine (addr r) virt).2 }
  | .prepare r virt length =>
    { s with machine := (vmmPrepareUserWrite cfg s.machine (addr r) virt length).2 }
  | .protect r virt writable =>
    { s with machine := (vmmProtectPage cfg s.machine (addr r) virt (userFlags writable)).2 }
  | .unmap r virt => { s with machine := unmapAndFree s.machine (addr r) virt }
  | .destroy r => ⟨vmmDestroyUserSpace cfg s.machine (addr r), s.spaces.erase r⟩
  | .store r virt byte => { s with machine := (userStore s.machine (addr r) virt byte).2 }

/-- One step; an operation that is not enabled does nothing. -/
def step (cfg : Config) (s : System) (op : Op) : System :=
  if op.enabled s then perform cfg s op else s

def run (cfg : Config) (s : System) (ops : List Op) : System := ops.foldl (step cfg) s

/-! ## One step -/

structure Models (cfg : Config) (s : System) (g : Layout) : Prop where
  inv : Inv cfg s.machine g
  spaces : g.spaces = s.spaces

variable {cfg : Config} {s : System} {g : Layout}

def StepPost (cfg : Config) (s : System) (g : Layout) (lost : Nat) (changed : Nat → Nat → Prop)
    (s' : System) : Prop :=
  ∃ g' blocks, Models cfg s' g' ∧ blocks.card = lost ∧
    Evolved cfg.p4Block blocks changed s.machine g s'.machine g'

lemma StepPost.of_kept {changed : Nat → Nat → Prop} {m' : Machine} (h : Models cfg s g)
    (hpost : ∃ g', Inv cfg m' g' ∧ Kept changed s.machine g m' g') :
    StepPost cfg s g 0 changed { s with machine := m' } := by
  obtain ⟨g', hinv, hkept⟩ := hpost
  exact ⟨g', ∅, ⟨hinv, hkept.spaces.trans h.spaces⟩, rfl, hkept.evolved _⟩

lemma StepPost.refl (h : Models cfg s g) (changed : Nat → Nat → Prop) :
    StepPost cfg s g 0 changed s :=
  ⟨g, ∅, h, rfl, (Kept.refl _ _ _).evolved _⟩

lemma adopt_addr {c : Nat} (hc : c < 2 ^ 40) (hne : addr c ≠ 0) (m' : Machine) :
    s.adopt (addr c, m') = ⟨m', insert c s.spaces⟩ := by
  simp only [System.adopt, if_neg hne, addr_block (show c < 2 ^ 52 by omega)]

lemma create_step (h : Models cfg s g) (kernelSource : UInt64) :
    StepPost cfg s g 0 Unchanged (s.adopt (vmmCreateUserSpace cfg s.machine kernelSource)) := by
  rcases create_spec h.inv kernelSource with heq | ⟨c, m', heq, hne, hlt, hinv, hevo⟩
  · rw [heq]
    exact StepPost.refl h _
  rw [heq, adopt_addr hlt hne]
  refine ⟨_, ∅, ⟨hinv, ?_⟩, rfl, hevo⟩
  show insert c g.spaces = insert c s.spaces
  rw [h.spaces]

variable {r : Nat}

lemma copy_step (h : Models cfg s g) (hr : r ∈ s.spaces) :
    StepPost cfg s g 0 Unchanged (s.adopt (vmmCopyP4 cfg s.machine (addr r))) := by
  have hr' : r ∈ g.spaces := by rw [h.spaces]; exact hr
  have hdata : ∀ {m' : Machine} {r' v f a}, (∀ f, g.owner f = .data → m'.mem f = s.machine.mem f) →
      g.page r' v = some (f, a) → m'.mem f = s.machine.mem f :=
    fun hmem hpage => hmem _ (h.inv.page_data hpage)
  rcases copy_spec h.inv hr' with ⟨dst, m', g', heq, hne, hlt, hinv, hdup⟩ |
    ⟨m', g', heq, hinv, hun⟩
  · rw [heq, adopt_addr hlt hne]
    refine ⟨g', ∅, ⟨hinv, by rw [hdup.spaces, h.spaces]⟩, rfl,
      Evolved.of_reserved (fun f _ => hdup.reserved f) fun r' v hr1 _ _ => ?_⟩
    refine view_congr ?_ fun f a hpage => hdata hdup.mem hpage
    have hrd : r' ≠ dst := fun heq => hdup.fresh (heq ▸ hr1)
    by_cases hrs : r' = r
    · rw [hrs, hdup.srcPage, map_sharePage_fst]
    · rw [hdup.otherPage r' v hrs hrd]
  · rw [heq]
    refine ⟨g', ∅, ⟨hinv, by rw [hun.spaces]; exact h.spaces⟩, rfl,
      Evolved.of_reserved (fun f _ => by rw [hun.owner]) fun r' v hr1 _ _ => ?_⟩
    refine view_congr ?_ fun f a hpage => hdata hun.mem hpage
    by_cases hrs : r' = r
    · subst hrs
      rcases hun.srcPage v with heq | heq
      · rw [heq]
      · rw [heq, map_sharePage_fst]
    · rw [hun.otherPage r' v hrs hr1]

lemma destroy_step (h : Models cfg s g) (hr : r ∈ s.spaces) :
    StepPost cfg s g 0 Unchanged
      ⟨vmmDestroyUserSpace cfg s.machine (addr r), s.spaces.erase r⟩ := by
  obtain ⟨g', hinv, hdest⟩ := destroy_spec h.inv (by rw [h.spaces]; exact hr)
  refine ⟨g', ∅, ⟨hinv, by rw [hdest.spaces, h.spaces]⟩, rfl,
    Evolved.of_reserved hdest.reserved fun r' v _ hr' _ => ?_⟩
  have hne : r' ≠ r := by
    rw [hdest.spaces] at hr'
    exact ne_of_mem_erase hr'
  refine view_congr (by rw [hdest.page r' v hne]) fun f a hpage => hdest.mem f ?_
  rw [h.inv.page_data hpage]
  simp

/-- One step keeps the layout, loses a block exactly if it is a leaking `vmm_map_page`, and shows
something else only on the pages of `Op.changes`. -/
theorem step_spec (h : Models cfg s g) (op : Op) :
    StepPost cfg s g (if op.enabled s && op.leaks s then 1 else 0) op.changes (step cfg s op) := by
  unfold step
  cases hen : op.enabled s with
  | false =>
    exact StepPost.refl h _
  | true =>
  have hmem : ∀ {r}, decide (r ∈ s.spaces) = true → r ∈ g.spaces := by
    intro r hr
    rw [h.spaces]
    exact of_decide_eq_true hr
  cases op with
  | create kernelSource => exact create_step h kernelSource
  | copy => exact copy_step h (of_decide_eq_true hen)
  | destroy => exact destroy_step h (of_decide_eq_true hen)
  | prepare r virt length =>
    exact StepPost.of_kept h (prepareUserWrite_spec h.inv (hmem hen) virt length)
  | cowFault =>
    obtain ⟨hr, hu⟩ := Bool.and_eq_true_iff.1 hen
    exact StepPost.of_kept h (cowFault_spec h.inv (hmem hr) hu).2
  | protect r virt writable =>
    obtain ⟨hr, hu⟩ := Bool.and_eq_true_iff.1 hen
    exact StepPost.of_kept h (protect_spec h.inv (hmem hr) hu writable)
  | unmap =>
    obtain ⟨hr, hu⟩ := Bool.and_eq_true_iff.1 hen
    exact StepPost.of_kept h (unmap_spec h.inv (hmem hr) hu)
  | store r virt byte =>
    obtain ⟨hr, hu⟩ := Bool.and_eq_true_iff.1 hen
    obtain ⟨hinv, hkept, -⟩ := store_spec h.inv (hmem hr) hu byte
    exact StepPost.of_kept h ⟨g, hinv, hkept⟩
  | map r virt content writable =>
    obtain ⟨hru, habsent⟩ := Bool.and_eq_true_iff.1 hen
    obtain ⟨hr, hu⟩ := Bool.and_eq_true_iff.1 hru
    obtain ⟨g', lost, hinv, hspaces, hcard, hevo⟩ := mapFresh_spec h.inv (hmem hr) hu
      (by simpa using habsent) content writable
    exact ⟨g', lost, ⟨hinv, hspaces.trans h.spaces⟩, hcard, hevo⟩

/-- What address spaces other than the one an operation acts through show stays the same. -/
lemma Op.changes_space {op : Op} {v : Nat} (h : op.changes r v) : op.space = some r := by
  cases op with
  | map | unmap | store => exact congrArg some h.1.symm
  | _ => exact h.elim

/-! ## Runs -/

/-- The state in which the first user program is started: the allocator is set up, the boot PML4 is
outside the free blocks and has no user entries, and no other address space exists. -/
structure Boot (cfg : Config) (s : System) : Prop where
  pmm : s.machine.pmm.Wf
  p4_ne_zero : cfg.p4Block ≠ 0
  p4_lt : cfg.p4Block < s.machine.pmm.totalBlocks
  p4_used : s.machine.pmm.bitmap cfg.p4Block = true
  userHalf : ∀ i < 512, kernelIndex i = false →
    has (s.machine.mem cfg.p4Block i) pagePresent = false
  spaces : s.spaces ⊆ {cfg.p4Block}

/-- The states of the runs that start with `Boot`. -/
def Reachable (cfg : Config) (s : System) : Prop := ∃ s0 ops, Boot cfg s0 ∧ s = run cfg s0 ops

def bootOwner (cfg : Config) (s : System) (f : Nat) : Owner :=
  if f ∈ s.machine.pmm.free then .free
  else if f = cfg.p4Block ∧ cfg.p4Block ∈ s.spaces then .table cfg.p4Block 0 0
  else .reserved

/-- The layout at the start: no user page is mapped. -/
def bootLayout (cfg : Config) (s : System) : Layout where
  spaces := s.spaces
  owner := bootOwner cfg s
  page _ _ := none

lemma bootOwner_free (f : Nat) : bootOwner cfg s f = .free ↔ f ∈ s.machine.pmm.free := by
  unfold bootOwner
  by_cases hfree : f ∈ s.machine.pmm.free
  · simp [hfree]
  · rw [if_neg hfree]
    split <;> simp [hfree]

lemma bootOwner_reserved {f : Nat} (hfree : f ∉ s.machine.pmm.free)
    (hp4 : ¬ (f = cfg.p4Block ∧ cfg.p4Block ∈ s.spaces)) : bootOwner cfg s f = .reserved := by
  rw [bootOwner, if_neg hfree, if_neg hp4]

lemma bootOwner_table {f d b : Nat} (hf : bootOwner cfg s f = .table r d b) :
    f = cfg.p4Block ∧ r = cfg.p4Block ∧ d = 0 ∧ b = 0 ∧ cfg.p4Block ∈ s.spaces := by
  unfold bootOwner at hf
  split at hf
  · cases hf
  split at hf
  · rename_i hp4
    cases hf
    exact ⟨hp4.1, rfl, rfl, rfl, hp4.2⟩
  · cases hf

lemma bootOwner_ne_data (f : Nat) : bootOwner cfg s f ≠ .data := by
  unfold bootOwner
  split
  · simp
  · split <;> simp

namespace Boot

section

variable (h : Boot cfg s)
include h

lemma p4_not_free : cfg.p4Block ∉ s.machine.pmm.free := by
  rw [Pmm.mem_free, h.p4_used]
  simp

lemma zero_not_free : 0 ∉ s.machine.pmm.free := by
  rw [Pmm.mem_free, h.pmm.zero_used]
  simp


lemma owner_p4 (hin : cfg.p4Block ∈ s.spaces) :
    bootOwner cfg s cfg.p4Block = .table cfg.p4Block 0 0 := by
  rw [bootOwner, if_neg h.p4_not_free, if_pos ⟨rfl, hin⟩]

lemma tables : Tables cfg.cowBit s.machine.mem (bootLayout cfg s) where
  root r := by
    constructor
    · intro hr
      obtain rfl := mem_singleton.1 (h.spaces hr)
      exact h.owner_p4 hr
    · intro hr
      obtain ⟨rfl, -, -, -, hin⟩ := bootOwner_table hr
      exact hin
  root_eq hf := by
    obtain ⟨rfl, rfl, -⟩ := bootOwner_table hf
    rfl
  shape hf := by
    obtain ⟨rfl, -, rfl, rfl, -⟩ := bootOwner_table hf
    have hlt := cfg.p4Block_lt
    unfold maxBlocks at hlt
    exact ⟨by omega, rfl, by omega⟩
  down ht _ hi hu hp := by
    obtain ⟨rfl, -, rfl, rfl, -⟩ := bootOwner_table ht
    rw [h.userHalf _ hi ((kernelIndex_eq_false hi).2 (by simpa [UserPrefix] using hu))] at hp
    exact Bool.noConfusion hp
  up hc := by
    obtain ⟨-, -, hd, -⟩ := bootOwner_table hc
    omega
  leaf ht := by
    obtain ⟨-, -, hd, -⟩ := bootOwner_table ht
    omega
  page_table hx := nomatch hx

lemma counts : Counts cfg.p4Block s.machine.pmm (bootLayout cfg s) where
  pmm := h.pmm
  free_iff := bootOwner_free
  lt_total := by
    intro f hf
    by_cases hfree : f ∈ s.machine.pmm.free
    · exact (Pmm.mem_free.1 hfree).1
    by_cases hp4 : f = cfg.p4Block ∧ cfg.p4Block ∈ s.spaces
    · rw [hp4.1]
      exact h.p4_lt
    · exact absurd (bootOwner_reserved hfree hp4) hf
  zero := bootOwner_reserved h.zero_not_free fun hc => h.p4_ne_zero hc.1.symm
  boot := by
    by_cases hin : cfg.p4Block ∈ s.spaces
    · exact .inr (h.owner_p4 hin)
    · exact .inl (bootOwner_reserved h.p4_not_free fun hc => hin hc.2)
  table_ref hf hne := by
    obtain ⟨rfl, -⟩ := bootOwner_table hf
    exact absurd rfl hne
  page_data hx := nomatch hx
  data_ref hf := absurd hf (bootOwner_ne_data _)

lemma models : Models cfg s (bootLayout cfg s) :=
  ⟨⟨h.tables, h.counts⟩, rfl⟩

end

end Boot

def leakCount (cfg : Config) : System → List Op → Nat
  | _, [] => 0
  | s, op :: ops =>
    (if op.enabled s && op.leaks s then 1 else 0) + leakCount cfg (step cfg s op) ops

lemma run_spec (h : Models cfg s g) (ops : List Op) :
    ∃ (g' : Layout) (lost : Finset Nat), Models cfg (run cfg s ops) g' ∧
      lost.card = leakCount cfg s ops ∧
      (∀ f ∈ lost, f ≠ cfg.p4Block ∧ g.owner f ≠ .reserved) ∧
      ∀ f, f ≠ cfg.p4Block → (g'.owner f = .reserved ↔ g.owner f = .reserved ∨ f ∈ lost) := by
  induction ops generalizing s g with
  | nil => exact ⟨g, ∅, h, rfl, by simp, by simp⟩
  | cons op ops ih =>
    obtain ⟨g1, lost1, h1, hcard1, hevo⟩ := step_spec h op
    obtain ⟨g2, lost2, h2, hcard2, hlost2, hres2⟩ := ih h1
    -- A block that is lost is reserved from then on, so it is not lost again.
    have hlost1 : ∀ f ∈ lost1, f ≠ cfg.p4Block := fun f hf =>
      h.inv.counts.ne_boot_of_ne (by simp [hevo.free f hf])
        (by rw [hevo.free f hf]; simp)
    have hdisj : Disjoint lost1 lost2 := by
      rw [disjoint_left]
      intro f hf1 hf2
      exact (hlost2 f hf2).2 ((hevo.reserved f (hlost1 f hf1)).2 (.inr hf1))
    refine ⟨g2, lost1 ∪ lost2, h2, ?_, ?_, ?_⟩
    · rw [card_union_of_disjoint hdisj, hcard1, hcard2]
      rfl
    · intro f hf
      rcases mem_union.1 hf with hf | hf
      · refine ⟨hlost1 f hf, ?_⟩
        rw [hevo.free f hf]
        simp
      · obtain ⟨hne, hres⟩ := hlost2 f hf
        exact ⟨hne, fun hc => hres ((hevo.reserved f hne).2 (.inl hc))⟩
    · intro f hf
      rw [hres2 f hf, hevo.reserved f hf, mem_union, or_assoc]

theorem Reachable.layout (h : Reachable cfg s) : ∃ g, Models cfg s g := by
  obtain ⟨s0, ops, hboot, rfl⟩ := h
  obtain ⟨g, -, hmodels, -⟩ := run_spec hboot.models ops
  exact ⟨g, hmodels⟩

theorem Reachable.run (h : Reachable cfg s) (ops : List Op) : Reachable cfg (run cfg s ops) := by
  obtain ⟨s0, ops0, hboot, rfl⟩ := h
  exact ⟨s0, ops0 ++ ops, hboot, by simp [Memory.run, List.foldl_append]⟩

end AosKernel.Memory
