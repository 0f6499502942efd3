import AosKernel.Memory.System

/-!
# Isolation of copied address spaces

What holds over whole runs. After `vmm_copy_p4` no operation through one address space, a store
included, changes a byte that another one shows (`fork_isolates`); references are counted
(`references_and_free_blocks`); pages and tables stay apart (`user_pages_protected`).

`vmm_map_page` returns `void`, so its callers leave the block for the page behind when it could not
allocate a table (`map_without_tables_leaks`).
-/

namespace AosKernel.Memory

open Lib Finset

/-- Whether the page table entry for `virt` is a present user entry that points to `phys`. -/
def pointsTo (m : Machine) (pml4 virt phys : UInt64) : Bool :=
  match findPageEntry m pml4 virt with
  | none => false
  | some (pt, i) => userEntry (m.read pt i) && (m.read pt i &&& ptePhysMask == phys)

def pageStart (v : Nat) : UInt64 := UInt64.ofNat (v * 4096)

/-- The number of present user entries of live address spaces that point to `phys`. -/
def pteCount (s : System) (phys : UInt64) : Nat :=
  ((s.spaces ×ˢ userPages).filter fun x =>
    pointsTo s.machine (addr x.1) (pageStart x.2) phys = true).card

variable {cfg : Config} {v : Nat} {s : System}

lemma pageOf_pageStart (hv : v ∈ userPages) : pageOf (pageStart v) = v := by
  have hlt := (mem_Ico.1 hv).2
  unfold pageOf pageStart
  rw [UInt64.toNat_ofNat']
  omega

lemma userAddress_pageStart (hv : v ∈ userPages) : userAddress (pageStart v) = true := by
  obtain ⟨h1, h2⟩ := mem_Ico.1 hv
  have hnat : (pageStart v).toNat = v * 4096 := by
    unfold pageStart
    rw [UInt64.toNat_ofNat']
    omega
  apply userAddress_of_range
  · omega
  · omega

section Counting

variable {cfg : Config} {s : System} {g : Layout} {r : Nat} {virt phys : UInt64}

lemma pointsTo_iff {m : Machine} (h : Inv cfg m g) (hr : r ∈ g.spaces)
    (hu : userAddress virt = true) :
    pointsTo m (addr r) virt phys = true ↔
      ∃ f a, g.page r (pageOf virt) = some (f, a) ∧ phys = addr f := by
  unfold pointsTo
  cases h.pageAt hr hu with
  | noTable hfind hpage => simp [hfind, hpage]
  | absent t ht hfind hp hpage => simp [hfind, hpage, userEntry, hp]
  | mapped t f a ht hfind hlt hw hpage =>
    simp only [hfind, hw, userEntry_page cfg.cowBit a hlt,
      (pageWord cfg.cowBit a hlt).2.2.2.2.2.1, Bool.true_and, beq_iff_eq, hpage]
    constructor
    · intro heq
      exact ⟨f, a, rfl, heq.symm⟩
    · rintro ⟨f', a', hf', rfl⟩
      cases hf'
      rfl

lemma pteCount_eq (h : Models cfg s g) {f : Nat} (hf : f < 2 ^ 40) :
    pteCount s (addr f) = g.refs f := by
  unfold pteCount Layout.refs RefCount.refs Layout.holders
  rw [h.spaces]
  congr 1
  refine filter_congr fun x hx => ?_
  obtain ⟨hx1, hx2⟩ := mem_product.1 hx
  rw [pointsTo_iff h.inv (by rw [h.spaces]; exact hx1) (userAddress_pageStart hx2),
    pageOf_pageStart hx2, Layout.target, Option.map_eq_some_iff]
  constructor
  · rintro ⟨f', a, hpage, heq⟩
    have hf' := h.inv.lt_of_page hpage
    exact ⟨(f', a), hpage, (addr_inj (by omega) (by omega) heq).symm⟩
  · rintro ⟨⟨f', a⟩, hpage, rfl⟩
    exact ⟨f', a, hpage, rfl⟩

lemma Models.counted (h : Models cfg s g) (hr : r ∈ s.spaces) (hu : userAddress virt = true)
    (hpoint : pointsTo s.machine (addr r) virt phys = true) :
    pmmBlockRefcount s.machine.pmm phys = pteCount s phys ∧
      s.machine.pmm.bitmap (phys.toNat / 4096) = true := by
  obtain ⟨f, a, hpage, rfl⟩ := (pointsTo_iff h.inv (by rw [h.spaces]; exact hr) hu).1 hpoint
  have hlt := h.inv.lt_of_page hpage
  have hdata := h.inv.page_data hpage
  have hne : g.owner f ≠ .reserved := by simp [hdata]
  have hne' : g.owner f ≠ .free := by simp [hdata]
  rw [pteCount_eq h hlt, addr_block (by omega)]
  refine ⟨?_, h.inv.counts.used hne hne'⟩
  rw [pmmBlockRefcount_addr h.inv.counts.pmm (h.inv.counts.lt_total hne)]
  exact (h.inv.counts.data_ref hdata).1

lemma Models.free_iff_of_empty (h : Models cfg s g) (hempty : s.spaces = ∅) (f : Nat) :
    f ∈ s.machine.pmm.free ↔ f ≠ cfg.p4Block ∧ g.owner f ≠ .reserved := by
  have hspaces : g.spaces = ∅ := h.spaces.trans hempty
  rw [← h.inv.counts.free_iff]
  constructor
  · intro hf
    have hne : g.owner f ≠ .reserved := by simp [hf]
    exact ⟨h.inv.counts.ne_boot_of_ne hne (by rw [hf]; simp), hne⟩
  · rintro ⟨-, hne⟩
    cases hf : g.owner f with
    | free => rfl
    | reserved => exact absurd hf hne
    | table r =>
      have hin := h.inv.tables.mem_spaces hf
      rw [hspaces] at hin
      exact absurd hin (notMem_empty r)
    | data =>
      have hpos := (h.inv.counts.data_ref hf).2
      unfold Layout.refs Layout.holders at hpos
      rw [hspaces, empty_product] at hpos
      exact absurd hpos (by simp [RefCount.refs])

end Counting

lemma Boot.free_iff (h : Boot cfg s) (f : Nat) :
    f ∈ s.machine.pmm.free ↔ f ≠ cfg.p4Block ∧ bootOwner cfg s f ≠ .reserved := by
  constructor
  · intro hf
    refine ⟨fun hc => h.p4_not_free (hc ▸ hf), ?_⟩
    rw [(bootOwner_free f).2 hf]
    simp
  · rintro ⟨hne, hres⟩
    by_contra hf
    exact hres (bootOwner_reserved hf fun hc => hne hc.1)

lemma freeBlocks_of_empty (h : Boot cfg s) (ops : List Op) (hempty : (run cfg s ops).spaces = ∅) :
    (run cfg s ops).machine.pmm.freeBlocks + leakCount cfg s ops = s.machine.pmm.freeBlocks := by
  obtain ⟨g, lost, hmodels, hcard, hlost, hres⟩ := run_spec h.models ops
  have hsub : lost ⊆ s.machine.pmm.free := fun f hf => (h.free_iff f).2 (hlost f hf)
  have hfree : (run cfg s ops).machine.pmm.free = s.machine.pmm.free \ lost := by
    ext f
    rw [hmodels.free_iff_of_empty hempty, mem_sdiff, h.free_iff]
    constructor
    · rintro ⟨hne, hno⟩
      rw [ne_eq, hres f hne, not_or] at hno
      exact ⟨⟨hne, hno.1⟩, hno.2⟩
    · rintro ⟨⟨hne, hno⟩, hnot⟩
      refine ⟨hne, fun hc => ?_⟩
      exact ((hres f hne).1 hc).elim hno hnot
  rw [hmodels.inv.counts.pmm.count, h.pmm.count, hfree, ← hcard,
    card_sdiff_add_card_eq_card hsub]

/-- Over every run, references are counted and no block is free that an entry points to; once no
address space is left, the number of free blocks is the initial one exactly if no `vmm_map_page` of
the run was short of blocks for its tables. -/
theorem references_and_free_blocks (cfg : Config) (s : System) (h : Boot cfg s) (ops : List Op) :
    (∀ r ∈ (run cfg s ops).spaces, ∀ virt phys, userAddress virt = true →
      pointsTo (run cfg s ops).machine (addr r) virt phys = true →
        pmmBlockRefcount (run cfg s ops).machine.pmm phys = pteCount (run cfg s ops) phys ∧
        (run cfg s ops).machine.pmm.bitmap (phys.toNat / 4096) = true) ∧
    ((run cfg s ops).spaces = ∅ →
      ((run cfg s ops).machine.pmm.freeBlocks = s.machine.pmm.freeBlocks ↔
        leakCount cfg s ops = 0)) := by
  constructor
  · intro r hr virt phys hu hpoint
    obtain ⟨g, -, hmodels, -⟩ := run_spec h.models ops
    exact hmodels.counted hr hu hpoint
  · intro hempty
    have hsum := freeBlocks_of_empty h ops hempty
    omega

/-! ## Two runs -/

/-- A machine with `n` blocks: block 0 and the boot PML4 are used, the others are free. -/
def freshMachine (n : Nat) (spaces : Finset Nat) : System where
  machine :=
    { pmm :=
        { bitmap := fun f => decide (f < 2)
          refcounts := fun f => if f < 2 then 1 else 0
          totalBlocks := n
          freeBlocks := n - 2 }
      mem := fun _ _ => 0 }
  spaces := spaces

lemma one_lt_maxBlocks : 1 < maxBlocks := by decide

/-- The lowest software bit marks copy-on-write pages, and the boot PML4 is block 1. -/
def smallConfig : Config := ⟨⟨0, Nat.zero_lt_succ 2⟩, 1, one_lt_maxBlocks⟩

lemma freshMachine_boot {n : Nat} {spaces : Finset Nat} (h2 : 2 ≤ n) (hmax : n ≤ maxBlocks)
    (hspaces : spaces ⊆ {1}) : Boot smallConfig (freshMachine n spaces) where
  pmm := by
    refine ⟨hmax, rfl, ?_⟩
    have hfree : (freshMachine n spaces).machine.pmm.free = Finset.Ico 2 n := by
      ext f
      simp only [Pmm.mem_free, freshMachine, decide_eq_false_iff_not, mem_Ico]
      omega
    rw [hfree, Nat.card_Ico]
    rfl
  p4_ne_zero := by decide
  p4_lt := h2
  p4_used := rfl
  userHalf _ _ _ := by simp [freshMachine, has]
  spaces := hspaces

/-- An address space is created and a page mapped in it. -/
def mapRun : List Op := [.create 0, .map 2 aosUserSpaceStart (fun _ => 0) true]

/-- The address space is destroyed after that. -/
def lifeRun : List Op := mapRun ++ [.destroy 2]

/-- A page is mapped in the boot address space, which is copied. -/
def shareRun : List Op := [.map 1 aosUserSpaceStart (fun _ => 0) true, .copy 1]

/-- With ten free blocks the page that the copy shares is counted twice, and all blocks of an
address space with a page come back when it is destroyed. -/
theorem shareRun_counted :
    Boot smallConfig (freshMachine 12 {1}) ∧ Boot smallConfig (freshMachine 12 ∅) ∧
      pteCount (run smallConfig (freshMachine 12 {1}) shareRun) (addr 2) = 2 ∧
      (run smallConfig (freshMachine 12 ∅) lifeRun).machine.pmm.freeBlocks =
        (freshMachine 12 ∅).machine.pmm.freeBlocks := by
  have hshare : Boot smallConfig (freshMachine 12 {1}) :=
    freshMachine_boot (by decide) (by decide) (by decide)
  have hboot : Boot smallConfig (freshMachine 12 ∅) :=
    freshMachine_boot (by decide) (by decide) (by decide)
  obtain ⟨hcount, -⟩ := (references_and_free_blocks smallConfig (freshMachine 12 {1}) hshare
    shareRun).1 6 (by decide +kernel) aosUserSpaceStart (addr 2) (by decide) (by decide +kernel)
  have hrefs : pmmBlockRefcount (run smallConfig (freshMachine 12 {1}) shareRun).machine.pmm
      (addr 2) = 2 := by decide +kernel
  have hends : (run smallConfig (freshMachine 12 ∅) lifeRun).spaces = ∅ ∧
      leakCount smallConfig (freshMachine 12 ∅) lifeRun = 0 := by
    decide +kernel
  have hfree := (references_and_free_blocks smallConfig (freshMachine 12 ∅) hboot lifeRun).2 hends.1
  rw [hrefs] at hcount
  exact ⟨hshare, hboot, hcount.symm, hfree.mpr hends.2⟩

/-- With two free blocks the PML4 and the page take both; `vmm_map_page` finds none for a table, and
the block of the page does not come back. -/
theorem map_without_tables_leaks :
    Boot smallConfig (freshMachine 4 ∅) ∧
      (run smallConfig (freshMachine 4 ∅) lifeRun).spaces = ∅ ∧
      (freshMachine 4 ∅).machine.pmm.freeBlocks = 2 ∧
      (run smallConfig (freshMachine 4 ∅) lifeRun).machine.pmm.freeBlocks = 1 :=
  ⟨freshMachine_boot (by decide) (by decide) (by decide), by decide +kernel⟩

/-! ## Isolation -/

variable {cfg : Config} {s : System} {g : Layout}

/-- A step changes what a user program sees only through the address space it acts on. -/
lemma step_userByte (h : Models cfg s g) {op : Op} {r : Nat} (hop : op.space ≠ some r)
    (hr : r ∈ s.spaces) (hr' : r ∈ (step cfg s op).spaces) {virt : UInt64}
    (hu : userAddress virt = true) :
    userByte (step cfg s op).machine (addr r) virt = userByte s.machine (addr r) virt := by
  obtain ⟨g', _, hmodels, -, hevo⟩ := step_spec h op
  have hin : r ∈ g.spaces := by rw [h.spaces]; exact hr
  have hin' : r ∈ g'.spaces := by rw [hmodels.spaces]; exact hr'
  rw [userByte_eq hmodels.inv hin' hu, userByte_eq h.inv hin hu,
    hevo.view r _ hin hin' fun hc => hop (Op.changes_space hc)]

lemma Duplicated.userByte_eq {m m' : Machine} {g' : Layout} {src dst : Nat} (h : Inv cfg m g)
    (h' : Inv cfg m' g') (hdup : Duplicated src dst m g m' g') (hsrc : src ∈ g.spaces)
    {virt : UInt64} (hu : userAddress virt = true) :
    userByte m' (addr dst) virt = userByte m (addr src) virt ∧
      userByte m' (addr src) virt = userByte m (addr src) virt := by
  have hmem : ∀ f a, g.page src (pageOf virt) = some (f, a) → m'.mem f = m.mem f :=
    fun f a hpage => hdup.mem f (h.page_data hpage)
  have hdst : dst ∈ g'.spaces := by rw [hdup.spaces]; exact mem_insert_self _ _
  have hsrc' : src ∈ g'.spaces := by rw [hdup.spaces]; exact mem_insert_of_mem hsrc
  have hview : view m' g' dst (pageOf virt) = view m g src (pageOf virt) := by
    unfold view
    rw [hdup.dstPage]
    cases hx : g.page src (pageOf virt) with
    | none => rfl
    | some x =>
      rw [Option.map_some, Option.map_some, Option.map_some,
        show (sharePage x).1 = x.1 from rfl, hmem x.1 x.2 hx]
  have hview' : view m' g' src (pageOf virt) = view m g src (pageOf virt) :=
    view_congr (by rw [hdup.srcPage, map_sharePage_fst]) hmem
  rw [Memory.userByte_eq h' hdst hu, Memory.userByte_eq h' hsrc' hu, Memory.userByte_eq h hsrc hu,
    hview, hview']
  exact ⟨rfl, rfl⟩

namespace Undone

variable {m m' : Machine} {g' : Layout} {src : Nat}

section

variable (hun : Undone src m g m' g')
include hun

lemma target {r : Nat} (hr : r ∈ g.spaces) (v : Nat) :
    (g'.page r v).map Prod.fst = (g.page r v).map Prod.fst := by
  by_cases hrs : r = src
  · subst hrs
    rcases hun.srcPage v with heq | heq
    · rw [heq]
    · rw [heq, map_sharePage_fst]
  · rw [hun.otherPage r v hrs hr]

lemma refs (f : Nat) : g'.refs f = g.refs f := by
  unfold Layout.refs Layout.holders
  rw [hun.spaces]
  refine Lib.RefCount.refs_congr f fun x hx => ?_
  rw [Layout.target, Layout.target, hun.target (mem_product.1 hx).1]

lemma free (h : Inv cfg m g) (h' : Inv cfg m' g') : m'.pmm.free = m.pmm.free := by
  ext f
  rw [← h.counts.free_iff, ← h'.counts.free_iff, hun.owner]

lemma userByte_eq (h : Inv cfg m g) (h' : Inv cfg m' g') (hsrc : src ∈ g.spaces) {virt : UInt64}
    (hu : userAddress virt = true) : userByte m' (addr src) virt = userByte m (addr src) virt := by
  rw [Memory.userByte_eq h' (by rw [hun.spaces]; exact hsrc) hu, Memory.userByte_eq h hsrc hu,
    view_congr (hun.target hsrc _) fun f a hpage => hun.mem f (h.page_data hpage)]

/-- A page that was writable may be copy-on-write now, but it is the only page of its block. -/
lemma canWrite_eq (h : Inv cfg m g) (h' : Inv cfg m' g') (hsrc : src ∈ g.spaces) {virt : UInt64}
    (hu : userAddress virt = true) :
    canWrite cfg m' (addr src) virt = canWrite cfg m (addr src) virt := by
  rw [Bool.eq_iff_iff, canWrite_iff h' (by rw [hun.spaces]; exact hsrc) hu, canWrite_iff h hsrc hu]
  simp only [hun.refs, hun.free h h']
  rcases hun.srcPage (pageOf virt) with heq | heq
  · rw [heq]
  rw [heq]
  cases hx : g.page src (pageOf virt) with
  | none => simp
  | some x =>
  obtain ⟨f, a⟩ := x
  have hone := (h.counts.page_data hx).2
  simp only [Option.map_some, sharePage, Option.some.injEq, Prod.mk.injEq]
  constructor
  · rintro ⟨f', a', ⟨rfl, rfl⟩, ha⟩
    refine ⟨f, a, ⟨rfl, rfl⟩, ?_⟩
    cases a with
    | writable => exact Or.inl rfl
    | readOnly => simp [Access.share] at ha
    | cow => simpa [Access.share] using ha
  · rintro ⟨f', a', ⟨rfl, rfl⟩, ha⟩
    refine ⟨f, a.share, ⟨rfl, rfl⟩, ?_⟩
    cases a with
    | writable => exact Or.inr ⟨rfl, Or.inl (hone rfl)⟩
    | readOnly => simp at ha
    | cow => simpa [Access.share] using ha

lemma refcount (h : Inv cfg m g) (h' : Inv cfg m' g') {f : Nat} (hf : g.owner f = .data) :
    pmmBlockRefcount m'.pmm (addr f) = pmmBlockRefcount m.pmm (addr f) := by
  have hf' : g'.owner f = .data := by rw [hun.owner]; exact hf
  have hne : g.owner f ≠ .reserved := by simp [hf]
  have hne' : g'.owner f ≠ .reserved := by simp [hf']
  rw [pmmBlockRefcount_addr h'.counts.pmm (h'.counts.lt_total hne'),
    pmmBlockRefcount_addr h.counts.pmm (h.counts.lt_total hne), (h.counts.data_ref hf).1,
    (h'.counts.data_ref hf').1, hun.refs]

end

end Undone

/-- `vmm_copy_p4` isolates: the copy shows the same bytes, no later operation through one address
space changes a byte another one shows, and a failed copy changes nothing that can be observed. -/
theorem fork_isolates (cfg : Config) (s : System) (h : Reachable cfg s) (src : Nat)
    (hsrc : src ∈ s.spaces) :
    (∀ dst m', vmmCopyP4 cfg s.machine (addr src) = (dst, m') → dst ≠ 0 →
      (∀ virt, userAddress virt = true →
        userByte m' dst virt = userByte s.machine (addr src) virt ∧
        userByte m' (addr src) virt = userByte s.machine (addr src) virt) ∧
      ∀ ops op r, op.space ≠ some r →
        r ∈ (run cfg (step cfg s (.copy src)) ops).spaces →
        r ∈ (step cfg (run cfg (step cfg s (.copy src)) ops) op).spaces →
        ∀ virt, userAddress virt = true →
          userByte (step cfg (run cfg (step cfg s (.copy src)) ops) op).machine (addr r) virt =
            userByte (run cfg (step cfg s (.copy src)) ops).machine (addr r) virt) ∧
    ∀ m', vmmCopyP4 cfg s.machine (addr src) = (0, m') →
      (∀ virt, userAddress virt = true →
        userByte m' (addr src) virt = userByte s.machine (addr src) virt ∧
        canWrite cfg m' (addr src) virt = canWrite cfg s.machine (addr src) virt) ∧
      (∀ r ∈ s.spaces, ∀ virt phys, userAddress virt = true →
        pointsTo s.machine (addr r) virt phys = true →
        pmmBlockRefcount m'.pmm phys = pmmBlockRefcount s.machine.pmm phys) ∧
      m'.pmm.free = s.machine.pmm.free ∧ m'.pmm.freeBlocks = s.machine.pmm.freeBlocks := by
  obtain ⟨g, hmodels⟩ := h.layout
  have hin : src ∈ g.spaces := by rw [hmodels.spaces]; exact hsrc
  have hcopy := copy_spec hmodels.inv hin
  constructor
  · intro dst m' heq hne
    rcases hcopy with ⟨new, m1, g1, heq1, -, -, hinv1, hdup⟩ | ⟨m1, g1, heq1, -, -⟩
    · obtain ⟨rfl, rfl⟩ := Prod.mk.inj (heq1.symm.trans heq)
      refine ⟨fun virt hu => hdup.userByte_eq hmodels.inv hinv1 hin hu, ?_⟩
      intro ops op r hop hr hr' virt hu
      have hreach : Reachable cfg (run cfg (step cfg s (.copy src)) ops) :=
        (h.run [.copy src]).run ops
      obtain ⟨g2, hmodels2⟩ := hreach.layout
      exact step_userByte hmodels2 hop hr hr' hu
    · exact absurd (Prod.mk.inj (heq.symm.trans heq1)).1 hne
  · intro m' heq
    rcases hcopy with ⟨new, m1, g1, heq1, hne1, -⟩ | ⟨m1, g1, heq1, hinv1, hun⟩
    · exact absurd (Prod.mk.inj (heq1.symm.trans heq)).1 hne1
    obtain ⟨-, rfl⟩ := Prod.mk.inj (heq1.symm.trans heq)
    have hfree := hun.free hmodels.inv hinv1
    refine ⟨fun virt hu => ⟨hun.userByte_eq hmodels.inv hinv1 hin hu,
      hun.canWrite_eq hmodels.inv hinv1 hin hu⟩, ?_, hfree, ?_⟩
    · intro r hr virt phys hu hpoint
      obtain ⟨f, a, hpage, rfl⟩ :=
        (pointsTo_iff hmodels.inv (by rw [hmodels.spaces]; exact hr) hu).1 hpoint
      exact hun.refcount hmodels.inv hinv1 (hmodels.inv.page_data hpage)
    · rw [hinv1.counts.pmm.count, hmodels.inv.counts.pmm.count, hfree]

/-! ## A copy and a store through it -/

/-- The boot address space with one page of zeros. -/
def forkSource : System :=
  run smallConfig (freshMachine 12 {1}) [.map 1 aosUserSpaceStart (fun _ => 0) true]

/-- The page of the copy, in block 6, is resolved. -/
def forkFault : List Op := [.cowFault 6 aosUserSpaceStart]

/-- A byte is stored through the copy. -/
def forkStore : Op := .store 6 aosUserSpaceStart 5

def forkCopied : System := run smallConfig (step smallConfig forkSource (.copy 1)) forkFault

/-- The byte stored through the copy is seen there, and not through the source. -/
theorem forkCopied_isolated :
    (step smallConfig forkCopied forkStore).spaces = {1, 6} ∧
      userByte (step smallConfig forkCopied forkStore).machine (addr 6) aosUserSpaceStart = some 5 ∧
      userByte (step smallConfig forkCopied forkStore).machine (addr 1) aosUserSpaceStart =
        userByte forkCopied.machine (addr 1) aosUserSpaceStart := by
  have hboot : Boot smallConfig (freshMachine 12 {1}) :=
    freshMachine_boot (by decide) (by decide) (by decide)
  have hsrc : 1 ∈ forkSource.spaces := by decide +kernel
  have hdst : (vmmCopyP4 smallConfig forkSource.machine (addr 1)).1 = addr 6 := by decide +kernel
  have hspaces : (step smallConfig forkCopied forkStore).spaces = {1, 6} ∧
      userByte (step smallConfig forkCopied forkStore).machine (addr 6) aosUserSpaceStart =
        some 5 := by decide +kernel
  have hlive : decide (1 ∈ forkCopied.spaces) = true ∧
      decide (1 ∈ (step smallConfig forkCopied forkStore).spaces) = true := by decide +kernel
  have hisolated := (fork_isolates smallConfig forkSource ⟨_, _, hboot, rfl⟩ 1 hsrc).1
  cases hcopy : vmmCopyP4 smallConfig forkSource.machine (addr 1) with
  | mk dst m' =>
    rw [hcopy] at hdst
    have hne : dst ≠ 0 := by
      rw [show dst = addr 6 from hdst]
      decide
    have hstep := (hisolated dst m' hcopy hne).2 forkFault forkStore 1 (by decide)
    refine ⟨hspaces.1, hspaces.2, ?_⟩
    unfold forkCopied at hlive ⊢
    -- The states are not to be evaluated here.
    generalize run smallConfig (step smallConfig forkSource (.copy 1)) forkFault = t at *
    exact hstep (of_decide_eq_true hlive.1) (of_decide_eq_true hlive.2) aosUserSpaceStart
      (by decide)

/-! ## Protection -/

lemma Inv.store_writable {m : Machine} {r : Nat} {virt : UInt64} (h : Inv cfg m g)
    (hr : r ∈ g.spaces) (hu : userAddress virt = true) {byte : UInt8}
    (hstore : (userStore m (addr r) virt byte).1 = true) :
    ∃ f, g.page r (pageOf virt) = some (f, .writable) := by
  unfold userStore at hstore
  cases h.pageAt hr hu with
  | noTable hfind => simp [hfind] at hstore
  | absent t ht hfind hp => simp [hfind, userEntry, hp] at hstore
  | mapped t f a ht hfind hlt hw hpage =>
    refine ⟨f, hpage.trans ?_⟩
    by_contra ha
    have hne : a ≠ .writable := fun h => ha (by rw [h])
    simp [hfind, hw, userEntry_page cfg.cowBit a hlt, (pageWord cfg.cowBit a hlt).2.2.1, hne]
      at hstore

/-- **Protection.** After every run, a block that a user page shows is neither a PML4 nor a page
table that `find_page_entry` reaches, and if a store through the page succeeds, no other user page
of any address space shows the block. -/
theorem user_pages_protected (h : Reachable cfg s) {r r' : Nat} (hr : r ∈ s.spaces)
    (hr' : r' ∈ s.spaces) {virt virt' phys : UInt64} (hu : userAddress virt = true)
    (hu' : userAddress virt' = true) (hpoint : pointsTo s.machine (addr r) virt phys = true) :
    phys ≠ addr r' ∧ (∀ pt i, findPageEntry s.machine (addr r') virt' = some (pt, i) → phys ≠ pt) ∧
      ∀ byte, (userStore s.machine (addr r) virt byte).1 = true →
        pointsTo s.machine (addr r') virt' phys = true → r' = r ∧ pageOf virt' = pageOf virt := by
  obtain ⟨g, hg⟩ := h.layout
  rw [← hg.spaces] at hr hr'
  obtain ⟨f, a, hpage, rfl⟩ := (pointsTo_iff hg.inv hr hu).1 hpoint
  have hf := hg.inv.lt_of_page hpage
  have htable : ∀ {t d b}, g.owner t = .table r' d b → addr f ≠ addr t := by
    intro t d b ht heq
    have hlt := hg.inv.lt_of_table ht
    exact hg.inv.page_ne_table hpage ht (addr_inj (by omega) (by omega) heq)
  refine ⟨htable ((hg.inv.tables.root r').1 hr'), fun pt i hfind => ?_,
    fun byte hstore hpoint' => ?_⟩
  · cases hg.inv.pageAt hr' hu' with
    | noTable hnone => simp [hnone] at hfind
    | absent t ht hsome | mapped t _ _ ht hsome =>
      rw [hsome, Option.some.injEq, Prod.mk.injEq] at hfind
      exact hfind.1 ▸ htable ht
  · obtain ⟨f', a', hpage', heq⟩ := (pointsTo_iff hg.inv hr' hu').1 hpoint'
    have hf' := hg.inv.lt_of_page hpage'
    obtain rfl := addr_inj (by omega) (by omega) heq
    -- A writable block is counted once, so it has one page.
    obtain ⟨f', hwritable⟩ := hg.inv.store_writable hr hu hstore
    rw [hpage] at hwritable
    cases hwritable
    have hone := (hg.inv.counts.page_data hpage).2 rfl
    exact Prod.mk.inj (RefCount.eq_of_refs_eq_one hone (hg.inv.tables.page_holder hpage')
      (hg.inv.tables.page_holder hpage) (by simp [Layout.target, hpage'])
      (by simp [Layout.target, hpage]))

/-- After the copy-on-write fault a store through the copy succeeds, so the source does not show the
block. -/
theorem forkCopied_protected :
    pointsTo forkCopied.machine (addr 6) aosUserSpaceStart (addr 10) = true ∧
      (userStore forkCopied.machine (addr 6) aosUserSpaceStart 5).1 = true ∧
      pointsTo forkCopied.machine (addr 1) aosUserSpaceStart (addr 10) = false := by
  have hsource : Reachable smallConfig forkSource :=
    ⟨_, _, freshMachine_boot (by decide) (by decide) (by decide), rfl⟩
  have hreach : Reachable smallConfig forkCopied := (hsource.run [.copy 1]).run forkFault
  have hfacts : decide (6 ∈ forkCopied.spaces) = true ∧ decide (1 ∈ forkCopied.spaces) = true ∧
      pointsTo forkCopied.machine (addr 6) aosUserSpaceStart (addr 10) = true ∧
      (userStore forkCopied.machine (addr 6) aosUserSpaceStart 5).1 = true := by decide +kernel
  obtain ⟨hdst, hsrc, hpoint, hstore⟩ := hfacts
  have hu : userAddress aosUserSpaceStart = true := by decide
  -- The state is not to be evaluated here.
  generalize forkCopied = s at *
  have hshared := (user_pages_protected hreach (of_decide_eq_true hdst) (of_decide_eq_true hsrc) hu
    hu hpoint).2.2 5 hstore
  refine ⟨hpoint, hstore, Bool.eq_false_iff.2 fun h => ?_⟩
  exact absurd (hshared h).1 (by decide)

end AosKernel.Memory
