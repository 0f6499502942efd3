import AosKernel.Memory.Accounting

/-!
# The memory invariant

`Inv cfg m g`: the machine `m` is laid out as `g` says, in its page tables and in its allocator. The
lemmas of this module state the elementary changes of the two previous modules for the operations of
`vmm.c`: an allocated block is `Fresh` until it is linked as a table, made the PML4 of a new address
space or mapped; a page can change its access, be shared or go away, and so can a table and an
address space.
-/

namespace AosKernel.Memory

open Function Machine Layout

/-! ## Operations on blocks -/

namespace Machine

variable (m : Machine) {f : Nat}

lemma read_addr (hf : f < 2 ^ 40) (i : Nat) : m.read (addr f) i = m.mem f i := by
  rw [read, addr_block (by omega)]

lemma setPage_addr (hf : f < 2 ^ 40) (words : Nat → UInt64) :
    m.setPage (addr f) words = { m with mem := update m.mem f words } := by
  rw [setPage, addr_block (by omega)]

lemma write_addr (hf : f < 2 ^ 40) (i : Nat) (w : UInt64) :
    m.write (addr f) i w = { m with mem := writeWord m.mem f i w } := by
  rw [write, addr_block (by omega), setPage_addr m hf]
  rfl

lemma write_read {t : UInt64} {i : Nat} {w : UInt64} (h : m.read t i = w) : m.write t i w = m := by
  subst h
  simp [write, setPage, read]

/-- The machine after block `c` was taken. -/
abbrev take (m : Machine) (c : Nat) : Machine := { m with pmm := m.pmm.take c }

end Machine

/-- The layout after block `c` became the top-level table of a new space. -/
abbrev Layout.newRoot (g : Layout) (c : Nat) : Layout := (g.setOwner c .reserved).addRoot c

lemma writeWord_writeWord (mem : Nat → Nat → UInt64) (t i : Nat) (w w' : UInt64) :
    writeWord (writeWord mem t i w) t i w' = writeWord mem t i w' := by
  simp [writeWord]

/-- The machine is laid out as `g` says. -/
structure Inv (cfg : Config) (m : Machine) (g : Layout) : Prop where
  tables : Tables cfg.cowBit m.mem g
  counts : Counts cfg.p4Block m.pmm g

/-- Block `c` has been allocated and is not in use yet. -/
structure Fresh (cfg : Config) (m : Machine) (g : Layout) (c : Nat) : Prop where
  inv : Inv cfg m g
  reserved : g.owner c = .reserved
  lt_total : c < m.pmm.totalBlocks
  used : m.pmm.bitmap c = true
  refcount : m.pmm.refcounts c = 1
  ne_zero : c ≠ 0
  ne_boot : c ≠ cfg.p4Block

variable {cfg : Config} {m : Machine} {g : Layout}

namespace Inv

variable {f r : Nat}

lemma lt_of_table (h : Inv cfg m g) {d b : Nat} (hf : g.owner f = .table r d b) : f < 2 ^ 40 :=
  h.tables.lt hf

variable {a : Access} {v : Nat}

lemma page_data (h : Inv cfg m g) (hx : g.page r v = some (f, a)) : g.owner f = .data :=
  (h.counts.page_data hx).1

lemma lt_of_page (h : Inv cfg m g) (hx : g.page r v = some (f, a)) : f < 2 ^ 40 :=
  h.counts.lt (by simp [h.page_data hx])

/-- `pmm_alloc_block` returns `NULL` if no block is free, and otherwise a block for a new use. -/
lemma alloc (h : Inv cfg m g) :
    (m.pmm.free = ∅ ∧ m.allocBlock = (0, m)) ∨
      ∃ c, g.owner c = .free ∧ addr c ≠ 0 ∧
        m.allocBlock = (addr c, m.take c) ∧
        Fresh cfg (m.take c) (g.setOwner c .reserved) c := by
  rcases pmmAllocBlock_cases h.counts.pmm with ⟨hempty, halloc⟩ | ⟨c, hc, haddr, halloc⟩
  · refine .inl ⟨hempty, ?_⟩
    rw [allocBlock, halloc]
  have hfree : g.owner c = .free := (h.counts.free_iff c).2 hc
  have hplain : (g.owner c).Plain := by rw [hfree]; simp
  have hne : g.owner c ≠ .reserved := by simp [hfree]
  refine .inr ⟨c, hfree, haddr, ?_, ?_⟩
  · rw [allocBlock, halloc]
  · exact {
      inv := ⟨h.tables.setOwner_plain hplain (by simp), h.counts.take hc⟩
      reserved := setOwner_owner_self _ _ _
      lt_total := h.counts.lt_total hne
      used := by simp [Pmm.take]
      refcount := by simp [Pmm.take]
      ne_zero := h.counts.ne_zero hne
      ne_boot := h.counts.ne_boot_of_ne hne hplain }

lemma setWords (h : Inv cfg m g) (hf : (g.owner f).Plain) (words : Nat → UInt64) :
    Inv cfg { m with mem := update m.mem f words } g := by
  refine ⟨h.tables.congr_mem fun f' r d b hf' => ?_, h.counts⟩
  have hne : f' ≠ f := fun heq => hf r d b (heq ▸ hf')
  simp [hne]

variable {t : Nat}

section

variable (h : Inv cfg m g)
include h

theorem setAccess (a' : Access) (ht : g.owner t = .table r 3 (v / 512))
    (hpage : g.page r v = some (f, a)) (ha : a' = .writable → g.refs f = 1) :
    Inv cfg (m.write (addr t) (v % 512) (addr f ||| a'.flags cfg.cowBit))
      (g.setPage r v (some (f, a'))) := by
  rw [write_addr m (h.lt_of_table ht)]
  exact ⟨h.tables.setLeaf ht (leaf_some _ a' (h.lt_of_page hpage)),
    h.counts.setAccess (h.tables.page_holder hpage) hpage ha⟩

theorem dropPage (ht : g.owner t = .table r 3 (v / 512)) (hpage : g.page r v = some (f, a)) :
    Inv cfg ((m.freeBlock (addr f)).write (addr t) (v % 512) 0) (g.dropPage r v f) := by
  rw [write_addr _ (h.lt_of_table ht)]
  refine ⟨?_, h.counts.dropPage (fun hx => h.tables.page_holder hx) hpage⟩
  have hleaf := h.tables.setLeaf ht (leaf_none cfg.cowBit)
  unfold Layout.dropPage
  split
  · refine hleaf.setOwner_plain ?_ (by simp)
    rw [Layout.setPage_owner, h.page_data hpage]
    simp
  · exact hleaf

theorem unlink {d b c : Nat} (hc : g.owner c = .table r (d + 1) b)
    (ht : g.owner t = .table r d (b / 512)) (hz : ∀ j < 512, has (m.mem c j) pagePresent = false) :
    Inv cfg ((m.freeBlock (addr c)).write (addr t) (b % 512) 0) (g.setOwner c .free) := by
  have hne : g.owner c ≠ .reserved := by simp [hc]
  have hne' : g.owner c ≠ .free := by simp [hc]
  -- A table below the PML4 is not the boot PML4.
  have hboot : c ≠ cfg.p4Block := by
    rintro rfl
    rcases h.counts.boot with hb | hb
    · exact hne hb
    · rw [hc] at hb
      cases hb
  have hrc := h.counts.table_ref hc hboot
  have hfree : pmmFreeBlock m.pmm (addr c) = m.pmm.release c := by
    rw [pmmFreeBlock_addr h.counts.pmm (h.counts.lt_total hne) (h.counts.used hne hne')
      (by omega), hrc, if_neg (by omega)]
  rw [write_addr _ (h.lt_of_table ht), freeBlock, hfree]
  refine ⟨h.tables.unlink hc ht hz (by decide) (by simp), ?_⟩
  refine h.counts.release hne hne' hboot rfl ?_ (fun _ _ => rfl)
  intro r' v f' a hx
  refine ⟨?_, hx⟩
  rintro rfl
  rw [h.page_data hx] at hc
  cases hc

lemma no_writable (hpage : g.page r v = some (f, a)) (ha : a ≠ .writable) {r' v' : Nat}
    {a' : Access} (hpage' : g.page r' v' = some (f, a')) : a' ≠ .writable := by
  rintro rfl
  have hone := (h.counts.page_data hpage').2 rfl
  have hsame := Lib.RefCount.eq_of_refs_eq_one hone (h.tables.page_holder hpage)
    (h.tables.page_holder hpage') (by simp [target, hpage])
    (by simp [target, hpage'])
  obtain ⟨rfl, rfl⟩ := Prod.mk.inj hsame
  rw [hpage] at hpage'
  cases hpage'
  exact ha rfl

/-- A second page is mapped to a block that no page may write to. -/
theorem addShared {r' v' : Nat} (ha : a ≠ .writable) (hpage : g.page r' v' = some (f, a))
    (ht : g.owner t = .table r 3 (v / 512)) (hnone : g.page r v = none) :
    Inv cfg ({ m with pmm := m.pmm.setRefcount f (m.pmm.refcounts f + 1) }.write (addr t) (v % 512)
      (addr f ||| a.flags cfg.cowBit)) (g.setPage r v (some (f, a))) := by
  have hx := h.tables.holder_of_table ht
  rw [write_addr _ (h.lt_of_table ht)]
  exact ⟨h.tables.setLeaf ht (leaf_some _ a (h.lt_of_page hpage)),
    h.counts.addShared hx hnone (h.page_data hpage) ha fun _ _ _ hp => h.no_writable hpage ha hp⟩

lemma page_none_of_root (hr : r ∈ g.spaces)
    (hz : ∀ i < 512, UserPrefix 1 i → has (m.mem r i) pagePresent = false) (v : Nat) :
    g.page r v = none :=
  h.tables.page_none_of_no_table fun _ => h.tables.no_table_of_root ((h.tables.root r).1 hr) hz

theorem dropRoot (hr : r ∈ g.spaces)
    (hz : ∀ i < 512, UserPrefix 1 i → has (m.mem r i) pagePresent = false)
    (hboot : r ≠ cfg.p4Block) : Inv cfg (m.freeBlock (addr r)) (g.dropRoot r .free) := by
  have hown := (h.tables.root r).1 hr
  have hnone := h.page_none_of_root hr hz
  have hne : g.owner r ≠ .reserved := by simp [hown]
  have hne' : g.owner r ≠ .free := by simp [hown]
  have hrc := h.counts.table_ref hown hboot
  have hfree : pmmFreeBlock m.pmm (addr r) = m.pmm.release r := by
    rw [pmmFreeBlock_addr h.counts.pmm (h.counts.lt_total hne) (h.counts.used hne hne')
      (by omega), hrc, if_neg (by omega)]
  rw [freeBlock, hfree]
  refine ⟨h.tables.dropRoot hown hz (by simp), ?_⟩
  refine h.counts.release hne hne' hboot rfl ?_ ?_
  · intro r' v f a hx
    refine ⟨?_, hx⟩
    rintro rfl
    rw [h.page_data (r := r') (v := v) hx] at hown
    cases hown
  · intro x _
    refine (refs_setSpaces (Finset.erase_subset r g.spaces) ?_ x).symm
    intro r' hr' hnot v
    have hrr : r' = r := by
      by_contra hrr
      exact hnot (Finset.mem_erase.2 ⟨hrr, hr'⟩)
    rw [hrr]
    exact hnone v

/-- The boot address space, without user entries, is given up; its PML4 stays. -/
lemma dropBoot (hr : cfg.p4Block ∈ g.spaces)
    (hz : ∀ i < 512, UserPrefix 1 i → has (m.mem cfg.p4Block i) pagePresent = false) :
    Inv cfg m (g.dropRoot cfg.p4Block .reserved) := by
  have hown := (h.tables.root _).1 hr
  have hnone := h.page_none_of_root hr hz
  have hne : g.owner cfg.p4Block ≠ .reserved := by simp [hown]
  refine ⟨h.tables.dropRoot hown hz (by simp), ?_⟩
  have hcounts := h.counts.setOwner (o := .reserved) (by simp [hown])
    (by simp) (by simp [hown]) (by simp)
    (h.counts.ne_zero hne) (fun hc => absurd rfl hc) (fun _ => .inl rfl)
    (by simp)
  refine hcounts.setSpaces fun x => ?_
  refine (refs_setSpaces (Finset.erase_subset _ g.spaces) ?_ x).symm
  intro r' hr' hnot v
  have hrr : r' = cfg.p4Block := by
    by_contra hrr
    exact hnot (Finset.mem_erase.2 ⟨hrr, hr'⟩)
  rw [hrr]
  exact hnone v

end

end Inv

namespace Fresh

variable {c : Nat}

lemma lt (h : Fresh cfg m g c) : c < 2 ^ 40 := by
  have h1 := h.lt_total
  have h2 := h.inv.counts.pmm.total_le
  unfold maxBlocks at h2
  omega

lemma plain (h : Fresh cfg m g c) : (g.owner c).Plain := by
  rw [h.reserved]
  simp

lemma setPage (h : Fresh cfg m g c) (words : Nat → UInt64) :
    Fresh cfg (m.setPage (addr c) words) g c := by
  rw [setPage_addr m h.lt]
  exact ⟨h.inv.setWords h.plain words, h.reserved, h.lt_total, h.used, h.refcount, h.ne_zero,
    h.ne_boot⟩

variable {t r : Nat}

section

variable (h : Fresh cfg m g c)
include h

/-- A fresh block without present entries is linked as a table. -/
theorem link {d b i : Nat} (ht : g.owner t = .table r d b) (hd : d < 3) (hi : i < 512)
    (hu : UserPrefix (d + 1) (b * 512 + i)) (hp : has (m.mem t i) pagePresent = false)
    (hz : ∀ j, has (m.mem c j) pagePresent = false) :
    Inv cfg (m.write (addr t) i (addr c ||| tableFlags))
      (g.setOwner c (.table r (d + 1) (b * 512 + i))) := by
  rw [write_addr m (h.inv.lt_of_table ht)]
  refine ⟨h.inv.tables.link ht hd hi hu hp h.plain h.lt hz, ?_⟩
  exact h.inv.counts.setOwner (by simp [h.reserved]) (by simp)
    (by simp [h.reserved]) (by simp) h.ne_zero
    (fun _ => h.lt_total) (fun hb => absurd hb h.ne_boot) (fun _ _ _ _ _ => h.refcount)

theorem newRoot (hz : ∀ i < 512, UserPrefix 1 i → has (m.mem c i) pagePresent = false) :
    Inv cfg m (g.addRoot c) := by
  refine ⟨h.inv.tables.newRoot h.plain h.lt hz, ?_⟩
  have hcounts := h.inv.counts.setOwner (o := .table c 0 0)
    (by simp [h.reserved]) (by simp)
    (by simp [h.reserved]) (by simp) h.ne_zero
    (fun _ => h.lt_total) (fun hb => absurd hb h.ne_boot) (fun _ _ _ _ _ => h.refcount)
  refine hcounts.setSpaces fun x => ?_
  refine refs_setSpaces (Finset.subset_insert c g.spaces) ?_ x
  intro r hr hnot v
  -- A page of `c` would need a table that belongs to the address space `c`.
  refine h.inv.tables.page_none_of_no_table fun t ht => ?_
  exact hnot (h.inv.tables.mem_spaces ht)

variable {a : Access} {f v : Nat}

theorem map (a : Access) (ht : g.owner t = .table r 3 (v / 512)) (hnone : g.page r v = none) :
    Inv cfg (m.write (addr t) (v % 512) (addr c ||| a.flags cfg.cowBit))
      ((g.setPage r v (some (c, a))).setOwner c .data) := by
  have hx := h.inv.tables.holder_of_table ht
  rw [write_addr m (h.inv.lt_of_table ht)]
  refine ⟨?_, h.inv.counts.addFresh a hx hnone h.reserved h.lt_total h.used h.refcount h.ne_zero
    h.ne_boot⟩
  exact (h.inv.tables.setLeaf ht (leaf_some _ a h.lt)).setOwner_plain h.plain (by simp)

theorem dropPage (ht : g.owner t = .table r 3 (v / 512)) (hpage : g.page r v = some (f, a)) :
    Fresh cfg ((m.freeBlock (addr f)).write (addr t) (v % 512) 0) (g.dropPage r v f) c := by
  have hdata := h.inv.page_data hpage
  have hcf : c ≠ f := by
    rintro rfl
    rw [h.reserved] at hdata
    cases hdata
  have hne : g.owner f ≠ .reserved := by simp [hdata]
  have hne' : g.owner f ≠ .free := by simp [hdata]
  have hrc := h.inv.counts.data_ref hdata
  have hfree := pmmFreeBlock_addr h.inv.counts.pmm (h.inv.counts.lt_total hne)
    (h.inv.counts.used hne hne') (by omega)
  refine ⟨h.inv.dropPage ht hpage, ?_, ?_, ?_, ?_, h.ne_zero, h.ne_boot⟩
  · rw [dropPage_owner_of_ne g hcf]
    exact h.reserved
  all_goals
    rw [write_addr _ (h.inv.lt_of_table ht), freeBlock]
    simp only [hfree]
  · split
    · exact h.lt_total
    · exact h.lt_total
  · split
    · exact h.used
    · simpa [Pmm.release, hcf] using h.used
  · split
    · simpa [Pmm.setRefcount, hcf] using h.refcount
    · simpa [Pmm.release, hcf] using h.refcount

lemma move (a' : Access) (ht : g.owner t = .table r 3 (v / 512))
    (hpage : g.page r v = some (f, a)) :
    Inv cfg ((m.freeBlock (addr f)).write (addr t) (v % 512) (addr c ||| a'.flags cfg.cowBit))
      (((g.dropPage r v f).setPage r v (some (c, a'))).setOwner c .data) := by
  have hdrop := h.dropPage ht hpage
  have ht' : (g.dropPage r v f).owner t = .table r 3 (v / 512) := by
    rw [dropPage_owner_of_ne]
    · exact ht
    · rintro rfl
      have hdata := h.inv.page_data hpage
      rw [ht] at hdata
      cases hdata
  have hnone : (g.dropPage r v f).page r v = none := by simp
  have hmap := hdrop.map a' ht' hnone
  rw [write_addr _ (h.inv.lt_of_table ht)] at hmap ⊢
  rw [write_addr _ (h.inv.lt_of_table ht)] at hmap
  simpa only [writeWord_writeWord] using hmap

end

end Fresh

end AosKernel.Memory
