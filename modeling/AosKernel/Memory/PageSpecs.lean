import AosKernel.Memory.Invariant

/-!
# Operations on one page

What the functions of `vmm.c` that walk to one page do to a layout: `find_page_entry` finds the
entry of the page, `vmm_unmap_page` with `pmm_free_block` drops it, `vmm_handle_cow_fault` and
`vmm_protect_page` give it a block of its own where they must, and `vmm_map_page` maps a fresh
block, if as many blocks are free as tables are missing on the way; if not, the block is left
without owner. -/

namespace AosKernel.Memory

open Lib.Loop Machine Access

variable {cfg : Config} {m : Machine} {g : Layout}

/-! ## Walking the tables -/

variable {virt : UInt64}

lemma userAddress_prefix (hu : userAddress virt = true) :
    UserPrefix 1 (pageOf virt / 512 / 512 / 512) := by
  have hlt := pageOf_lt virt
  have hk : kernelIndex (pml4Idx virt) = false := by simpa [userAddress] using hu
  rw [pml4Idx_eq, Nat.mod_eq_of_lt (by omega)] at hk
  have hrange := (kernelIndex_eq_false (by omega)).1 hk
  simpa [UserPrefix] using hrange

namespace Inv

/-- The entry for prefix `b` is not present, or the address of the table for `b`. -/
lemma child (h : Inv cfg m g) {t r d b : Nat} (ht : g.owner t = .table r d (b / 512)) (hd : d < 3)
    (hu : UserPrefix (d + 1) b) :
    (has (m.read (addr t) (b % 512)) pagePresent = false ∧ ∀ c, g.owner c ≠ .table r (d + 1) b) ∨
      ∃ c, g.owner c = .table r (d + 1) b ∧ m.read (addr t) (b % 512) = addr c ||| tableFlags := by
  rw [read_addr m (h.lt_of_table ht)]
  cases hp : has (m.mem t (b % 512)) pagePresent with
  | true =>
    obtain ⟨c, hw, hc⟩ := h.tables.down ht hd (Nat.mod_lt b (by omega))
      (by rw [digits_eq]; exact hu) hp
    rw [digits_eq] at hc
    exact .inr ⟨c, hc, hw⟩
  | false =>
    refine .inl ⟨rfl, fun c hc => ?_⟩
    have hpres := h.tables.parent_present hc ht
    rw [hp] at hpres
    exact Bool.noConfusion hpres

lemma addr_ne_zero_of_table (h : Inv cfg m g) {f r d b : Nat} (hf : g.owner f = .table r d b) :
    addr f ≠ 0 := by
  have hlt := h.lt_of_table hf
  exact addr_ne_zero (by omega) (h.counts.ne_zero (by simp [hf]))

end Inv

variable {c f t v : Nat}

/-- What a present entry of a user table says: the masks give the next table, and the entry is not a
large page. -/
lemma tableWord (hc : c < 2 ^ 40) :
    has (addr c ||| tableFlags) pagePresent = true ∧ has (addr c ||| tableFlags) pageHuge = false ∧
      has (addr c ||| tableFlags) pageUser = true ∧
      (addr c ||| tableFlags) &&& ptePhysMask = addr c ∧
      (addr c ||| tableFlags) &&& tableMask = addr c ∧
      (addr c ||| tableFlags) &&& 0xFFF = tableFlags := by
  refine ⟨has_table_present hc, ?_, ?_, word_phys hc tableFlags_lt, word_table hc tableFlags_lt,
    word_low hc tableFlags_lt⟩
  · rw [word_has (by decide) hc tableFlags_lt]
    decide
  · rw [word_has (by decide) hc tableFlags_lt]
    decide

/-- How the walk over the three upper levels ends: early where a table is missing, or at the page
table. -/
inductive Walk (m : Machine) (g : Layout) (r : Nat) (virt : UInt64) : Prop where
  | noPdpt (hp : has (m.read (addr r) (pml4Idx virt)) pagePresent = false)
      (hno : ∀ t, g.owner t ≠ .table r 3 (pageOf virt / 512))
  | noPd (c1 : Nat) (hc1 : g.owner c1 = .table r 1 (pageOf virt / 512 / 512 / 512))
      (hw1 : m.read (addr r) (pml4Idx virt) = addr c1 ||| tableFlags)
      (hp : has (m.read (addr c1) (pdptIdx virt)) pagePresent = false)
      (hno : ∀ t, g.owner t ≠ .table r 3 (pageOf virt / 512))
  | noPt (c1 c2 : Nat) (hc1 : g.owner c1 = .table r 1 (pageOf virt / 512 / 512 / 512))
      (hc2 : g.owner c2 = .table r 2 (pageOf virt / 512 / 512))
      (hw1 : m.read (addr r) (pml4Idx virt) = addr c1 ||| tableFlags)
      (hw2 : m.read (addr c1) (pdptIdx virt) = addr c2 ||| tableFlags)
      (hp : has (m.read (addr c2) (pdIdx virt)) pagePresent = false)
      (hno : ∀ t, g.owner t ≠ .table r 3 (pageOf virt / 512))
  | found (c1 c2 t : Nat) (hc1 : g.owner c1 = .table r 1 (pageOf virt / 512 / 512 / 512))
      (hc2 : g.owner c2 = .table r 2 (pageOf virt / 512 / 512))
      (hw1 : m.read (addr r) (pml4Idx virt) = addr c1 ||| tableFlags)
      (hw2 : m.read (addr c1) (pdptIdx virt) = addr c2 ||| tableFlags)
      (hw3 : m.read (addr c2) (pdIdx virt) = addr t ||| tableFlags)
      (ht : g.owner t = .table r 3 (pageOf virt / 512))

variable {r : Nat}

lemma Inv.walk (h : Inv cfg m g) (hr : r ∈ g.spaces) (hu : userAddress virt = true) :
    Walk m g r virt := by
  have hu1 := userAddress_prefix hu
  have hu2 := userPrefix_div.2 hu1
  have hu3 := userPrefix_div.2 hu2
  have hroot : g.owner r = .table r 0 (pageOf virt / 512 / 512 / 512 / 512) := by
    have hlt := pageOf_lt virt
    rw [show pageOf virt / 512 / 512 / 512 / 512 = 0 by omega]
    exact (h.tables.root r).1 hr
  -- A page table for the page is below a table at each of the two levels above.
  rcases h.child hroot (by omega) hu1 with ⟨hp1, hno1⟩ | ⟨c1, hc1, hw1⟩
  · refine .noPdpt (by rw [pml4Idx_eq]; exact hp1) fun t ht => ?_
    obtain ⟨c, hc, -⟩ := h.tables.up ht
    obtain ⟨c', hc', -⟩ := h.tables.up hc
    exact hno1 c' hc'
  rw [← pml4Idx_eq] at hw1
  rcases h.child hc1 (by omega) hu2 with ⟨hp2, hno2⟩ | ⟨c2, hc2, hw2⟩
  · refine .noPd c1 hc1 hw1 (by rw [pdptIdx_eq]; exact hp2) fun t ht => ?_
    obtain ⟨c, hc, -⟩ := h.tables.up ht
    exact hno2 c hc
  rw [← pdptIdx_eq] at hw2
  rcases h.child hc2 (by omega) hu3 with ⟨hp3, hno3⟩ | ⟨t, ht, hw3⟩
  · exact .noPt c1 c2 hc1 hc2 hw1 hw2 (by rw [pdIdx_eq]; exact hp3) hno3
  · rw [← pdIdx_eq] at hw3
    exact .found c1 c2 t hc1 hc2 hw1 hw2 hw3 ht

/-- `find_page_entry` finds the entry of the page, or the page has no page table. -/
theorem Inv.find (h : Inv cfg m g) (hr : r ∈ g.spaces) (hu : userAddress virt = true) :
    (findPageEntry m (addr r) virt = none ∧ ∀ t, g.owner t ≠ .table r 3 (pageOf virt / 512)) ∨
      ∃ t, g.owner t = .table r 3 (pageOf virt / 512) ∧
        findPageEntry m (addr r) virt = some (addr t, pageOf virt % 512) := by
  have hne := h.addr_ne_zero_of_table ((h.tables.root r).1 hr)
  cases h.walk hr hu with
  | noPdpt hp hno => exact .inl ⟨by simp [findPageEntry, hp], hno⟩
  | noPd c1 hc1 hw1 hp hno =>
    obtain ⟨h1, -, -, h2, -⟩ := tableWord (h.lt_of_table hc1)
    exact .inl ⟨by simp [findPageEntry, hne, hw1, h1, h2, hp], hno⟩
  | noPt c1 c2 hc1 hc2 hw1 hw2 hp hno =>
    obtain ⟨h1, -, -, h2, -⟩ := tableWord (h.lt_of_table hc1)
    obtain ⟨h3, -, -, h4, -⟩ := tableWord (h.lt_of_table hc2)
    exact .inl ⟨by simp [findPageEntry, hne, hw1, h1, h2, hw2, h3, h4, hp], hno⟩
  | found c1 c2 t hc1 hc2 hw1 hw2 hw3 ht =>
    obtain ⟨h1, -, -, h2, -⟩ := tableWord (h.lt_of_table hc1)
    obtain ⟨h3, -, -, h4, -⟩ := tableWord (h.lt_of_table hc2)
    obtain ⟨h5, h6, -, h7, -⟩ := tableWord (h.lt_of_table ht)
    refine .inr ⟨t, ht, ?_⟩
    simp [findPageEntry, hne, hw1, h1, h2, hw2, h3, h4, hw3, h5, h6, h7, ptIdx_eq]

lemma Inv.leaf (h : Inv cfg m g) (ht : g.owner t = .table r 3 (v / 512)) :
    Leaf cfg.cowBit (m.read (addr t) (v % 512)) (g.page r v) := by
  have hleaf := h.tables.leaf ht (Nat.mod_lt v (by omega))
  rw [digits_eq] at hleaf
  rw [read_addr m (h.lt_of_table ht)]
  exact hleaf

/-! ## What is seen through an address space -/

/-- The words a page of an address space shows. -/
def view (m : Machine) (g : Layout) (r v : Nat) : Option (Nat → UInt64) :=
  (g.page r v).map fun x => m.mem x.1

/-- A change of machine and layout that keeps the address spaces, the reserved blocks, and what the
pages outside `changed` show. -/
structure Kept (changed : Nat → Nat → Prop) (m : Machine) (g : Layout) (m' : Machine)
    (g' : Layout) : Prop where
  spaces : g'.spaces = g.spaces
  reserved : ∀ f, g'.owner f = .reserved ↔ g.owner f = .reserved
  view : ∀ r v, ¬ changed r v → view m' g' r v = view m g r v

namespace Kept

variable {changed : Nat → Nat → Prop} {m' m'' : Machine} {g' g'' : Layout}

lemma refl (changed : Nat → Nat → Prop) (m : Machine) (g : Layout) : Kept changed m g m g :=
  ⟨rfl, fun _ => Iff.rfl, fun _ _ _ => rfl⟩

theorem trans (h : Kept changed m g m' g') (h' : Kept changed m' g' m'' g'') :
    Kept changed m g m'' g'' :=
  ⟨h'.spaces.trans h.spaces, fun f => (h'.reserved f).trans (h.reserved f),
    fun r v hrv => (h'.view r v hrv).trans (h.view r v hrv)⟩

end Kept

/-- No page changes what it shows. -/
def Unchanged : Nat → Nat → Prop := fun _ _ => False

lemma view_congr {m' : Machine} {g' : Layout}
    (hpage : (g'.page r v).map Prod.fst = (g.page r v).map Prod.fst)
    (hmem : ∀ f a, g.page r v = some (f, a) → m'.mem f = m.mem f) :
    view m' g' r v = view m g r v := by
  unfold view
  cases hx : g.page r v with
  | none =>
    rw [hx] at hpage
    rw [Option.map_eq_none_iff.1 hpage]
    rfl
  | some x =>
    rw [hx] at hpage
    obtain ⟨y, hy, hyx⟩ := Option.map_eq_some_iff.1 hpage
    rw [hy, Option.map_some, Option.map_some, hyx, hmem x.1 x.2 hx]

namespace Inv

variable {a : Access}

lemma page_ne_table (h : Inv cfg m g) {r v f t r' d b : Nat} (hpage : g.page r v = some (f, a))
    (ht : g.owner t = .table r' d b) : f ≠ t := by
  rintro rfl
  rw [h.page_data hpage] at ht
  cases ht

lemma setAccess_kept (h : Inv cfg m g) {t r v f : Nat} (a' : Access)
    (ht : g.owner t = .table r 3 (v / 512)) (hpage : g.page r v = some (f, a)) (w : UInt64) :
    Kept Unchanged m g (m.write (addr t) (v % 512) w) (g.setPage r v (some (f, a'))) := by
  refine ⟨rfl, fun _ => Iff.rfl, fun r' v' _ => view_congr ?_ ?_⟩
  · by_cases hslot : r' = r ∧ v' = v
    · obtain ⟨rfl, rfl⟩ := hslot
      rw [Layout.setPage_page_self, hpage]
      rfl
    · rw [Layout.setPage_page_of_ne _ _ hslot]
  · intro f' b hpage'
    rw [write_addr m (h.lt_of_table ht)]
    exact writeWord_other _ _ _ (h.page_ne_table hpage' ht)

lemma copyBlock (h : Inv cfg m g) {t r v f : Nat} (ht : g.owner t = .table r 3 (v / 512))
    (hpage : g.page r v = some (f, a)) :
    (m.pmm.free = ∅ ∧ copyBlock m (addr f) = (none, m)) ∨
      ∃ c m2, m.pmm.free ≠ ∅ ∧ c < 2 ^ 40 ∧ Memory.copyBlock m (addr f) = (some (addr c), m2) ∧
        m2.read (addr t) (v % 512) = m.read (addr t) (v % 512) ∧
        ∀ a' : Access, ∃ g',
          Inv cfg (m2.write (addr t) (v % 512) (addr c ||| a'.flags cfg.cowBit)) g' ∧
          Kept Unchanged m g (m2.write (addr t) (v % 512) (addr c ||| a'.flags cfg.cowBit)) g' := by
  rcases h.alloc with ⟨hempty, halloc⟩ | ⟨c, hfree, haddr, halloc, hfresh⟩
  · refine Or.inl ⟨hempty, ?_⟩
    simp [Memory.copyBlock, halloc]
  have hdata := h.page_data hpage
  have hlt := hfresh.lt
  have hct : t ≠ c := by
    rintro rfl
    rw [hfree] at ht
    cases ht
  have hcf : c ≠ f := by
    rintro rfl
    rw [hfree] at hdata
    cases hdata
  have ht' : (g.setOwner c .reserved).owner t = .table r 3 (v / 512) := by
    rw [Layout.setOwner_owner_of_ne _ _ hct]
    exact ht
  have hfresh2 := hfresh.setPage (m.mem f)
  refine Or.inr ⟨c, _, ?_, hlt, ?_, ?_, fun a' => ⟨_, hfresh2.move a' ht' hpage, ?_⟩⟩
  · rw [← Finset.nonempty_iff_ne_empty]
    exact ⟨c, (h.counts.free_iff c).1 hfree⟩
  · have hf := h.lt_of_page hpage
    simp only [Memory.copyBlock, halloc, memcpy, addr_block (show f < 2 ^ 52 by omega)]
    rw [if_neg haddr]
  · rw [read_addr _ (h.lt_of_table ht), read_addr _ (h.lt_of_table ht), setPage_addr _ hlt]
    simp [freeBlock, hct]
  · refine ⟨by simp [Layout.setPage], ?_, ?_⟩
    · intro x
      by_cases hxc : x = c
      · subst hxc
        simp [hfree]
      rw [Layout.setOwner_owner_of_ne _ _ hxc, Layout.setPage_owner]
      by_cases hxf : x = f
      · subst hxf
        unfold Layout.dropPage
        split
        · simp [hdata]
        · simp [Layout.setOwner_owner_of_ne _ _ hxc]
      · rw [Layout.dropPage_owner_of_ne _ hxf, Layout.setOwner_owner_of_ne _ _ hxc]
    · intro r' v' _
      have hmem : ∀ x, x ≠ t → (((((m.take c).setPage (addr c)
          (m.mem f)).freeBlock (addr f)).write (addr t) (v % 512)
          (addr c ||| a'.flags cfg.cowBit))).mem x = if x = c then m.mem f else m.mem x := by
        intro x hxt
        rw [write_addr _ (h.lt_of_table ht), setPage_addr _ hlt]
        simp only [writeWord_other _ _ _ hxt, freeBlock]
        by_cases hxc : x = c
        · subst hxc
          simp
        · simp [hxc]
      unfold Memory.view
      by_cases hslot : r' = r ∧ v' = v
      · obtain ⟨rfl, rfl⟩ := hslot
        simp only [Layout.setOwner_page, Layout.setPage_page_self, Option.map_some, hpage]
        rw [hmem c (Ne.symm hct), if_pos rfl]
      simp only [Layout.setOwner_page, Layout.setPage_page_of_ne _ _ hslot, Layout.dropPage_page]
      cases hx : g.page r' v' with
      | none => rfl
      | some y =>
      have hyd := h.page_data (f := y.1) (a := y.2) hx
      have hyc : y.1 ≠ c := by
        intro heq
        rw [heq, hfree] at hyd
        cases hyd
      rw [Option.map_some, Option.map_some, hmem y.1 (h.page_ne_table (f := y.1) (a := y.2) hx ht),
        if_neg hyc]

end Inv

/-! ## The functions -/

lemma pageWord (k : Fin 3) (a : Access) (hf : f < 2 ^ 40) :
    has (addr f ||| a.flags k) pagePresent = true ∧ has (addr f ||| a.flags k) pageUser = true ∧
      has (addr f ||| a.flags k) pageWritable = decide (a = .writable) ∧
      has (addr f ||| a.flags k) (softwareBit k) = decide (a = .cow) ∧
      has (addr f ||| a.flags k) (pageWritable ||| softwareBit k) = decide (a ≠ .readOnly) ∧
      (addr f ||| a.flags k) &&& ptePhysMask = addr f ∧
      (addr f ||| a.flags k) &&& tableMask = addr f ∧
      (addr f ||| a.flags k) &&& 0xFFF = a.flags k := by
  have hlt := a.flags_lt k
  have hcow := softwareBit_low k
  have heither := either_low k
  refine ⟨?_, ?_, ?_, ?_, ?_, word_phys hf hlt, word_table hf hlt, word_low hf hlt⟩
  · rw [word_has (by decide) hf hlt, has_flags_present]
  · rw [word_has (by decide) hf hlt, has_flags_user]
  · rw [word_has (by decide) hf hlt, has_flags_writable]
  · rw [word_has hcow hf hlt, has_flags_cow]
  · rw [word_has heither hf hlt, has_flags_either]

/-- What `find_page_entry` finds for a user address. -/
inductive PageAt (cfg : Config) (m : Machine) (g : Layout) (r : Nat) (virt : UInt64) : Prop where
  | noTable (hfind : findPageEntry m (addr r) virt = none) (hpage : g.page r (pageOf virt) = none)
  | absent (t : Nat) (ht : g.owner t = .table r 3 (pageOf virt / 512))
      (hfind : findPageEntry m (addr r) virt = some (addr t, pageOf virt % 512))
      (hp : has (m.read (addr t) (pageOf virt % 512)) pagePresent = false)
      (hpage : g.page r (pageOf virt) = none)
  | mapped (t f : Nat) (a : Access) (ht : g.owner t = .table r 3 (pageOf virt / 512))
      (hfind : findPageEntry m (addr r) virt = some (addr t, pageOf virt % 512))
      (hlt : f < 2 ^ 40)
      (hw : m.read (addr t) (pageOf virt % 512) = addr f ||| a.flags cfg.cowBit)
      (hpage : g.page r (pageOf virt) = some (f, a))
      (hcount : pmmBlockRefcount m.pmm (addr f) = g.refs f)

lemma Inv.pageAt (h : Inv cfg m g) (hr : r ∈ g.spaces) (hu : userAddress virt = true) :
    PageAt cfg m g r virt := by
  rcases h.find hr hu with ⟨hfind, hno⟩ | ⟨t, ht, hfind⟩
  · exact .noTable hfind (h.tables.page_none_of_no_table hno)
  have hleaf := h.leaf ht
  cases hx : g.page r (pageOf virt) with
  | none =>
    have hpres := hleaf.present
    rw [hx] at hpres
    exact .absent t ht hfind hpres hx
  | some x =>
    obtain ⟨f, a⟩ := x
    rw [hx] at hleaf
    have hdata := h.page_data hx
    refine .mapped t f a ht hfind hleaf.2 hleaf.1 hx ?_
    rw [pmmBlockRefcount_addr h.counts.pmm
      (h.counts.lt_total (by simp [hdata])), (h.counts.data_ref hdata).1]

lemma resolve_word (cfg : Config) {w : UInt64} (hlow : w &&& 0xFFF = cow.flags cfg.cowBit) :
    addr c ||| (w &&& 0xFFF &&& ~~~cfg.pageCow) ||| pagePresent ||| pageWritable =
      addr c ||| writable.flags cfg.cowBit := by
  rw [hlow, show cfg.pageCow = softwareBit cfg.cowBit from rfl, ← flags_resolve,
    UInt64.or_assoc, UInt64.or_assoc, UInt64.or_assoc]

/-- `vmm_handle_cow_fault` resolves a copy-on-write page, if it is the only page of its block or a
block is free, and changes nothing otherwise. -/
theorem cowFault_spec (h : Inv cfg m g) (hr : r ∈ g.spaces) (hu : userAddress virt = true) :
    ((vmmHandleCowFault cfg m (addr r) virt).1 = true ↔
      ∃ f, g.page r (pageOf virt) = some (f, .cow) ∧ (g.refs f = 1 ∨ m.pmm.free ≠ ∅)) ∧
    ∃ g', Inv cfg (vmmHandleCowFault cfg m (addr r) virt).2 g' ∧
      Kept Unchanged m g (vmmHandleCowFault cfg m (addr r) virt).2 g' := by
  cases h.pageAt hr hu with
  | noTable hfind hpage =>
    simp only [vmmHandleCowFault, hfind, hpage]
    exact ⟨by simp, g, h, Kept.refl _ _ _⟩
  | absent t ht hfind hp hpage =>
    simp only [vmmHandleCowFault, hfind, hp, hpage, true_or, if_true]
    exact ⟨by simp, g, h, Kept.refl _ _ _⟩
  | mapped t f a ht hfind hlt hw hpage hcount =>
    obtain ⟨h1, -, -, h4, -, h6, -, h8⟩ := pageWord cfg.cowBit a hlt
    have hcow : cfg.pageCow = softwareBit cfg.cowBit := rfl
    rw [hpage]
    by_cases ha : a = .cow
    · subst ha
      have hentry : ¬ (has (m.read (addr t) (pageOf virt % 512)) pagePresent = false ∨
          has (m.read (addr t) (pageOf virt % 512)) cfg.pageCow = false) := by
        rw [hw, h1, hcow, h4]
        simp
      by_cases hone : g.refs f = 1
      · -- The block is not shared any more: it is used again.
        have hval : vmmHandleCowFault cfg m (addr r) virt =
            (true, m.write (addr t) (pageOf virt % 512)
              (addr f ||| writable.flags cfg.cowBit)) := by
          simp only [vmmHandleCowFault, hfind, if_neg hentry]
          rw [hw, h6, hcount, if_neg (by omega)]
          simp only [hw]
          rw [resolve_word cfg h8]
        rw [hval]
        exact ⟨⟨fun _ => ⟨f, rfl, .inl hone⟩, fun _ => rfl⟩, _,
          h.setAccess .writable ht hpage (fun _ => hone), h.setAccess_kept .writable ht hpage _⟩
      · have hpos := (h.counts.data_ref (h.page_data hpage)).2
        rcases h.copyBlock ht hpage with ⟨hempty, hcopy⟩ | ⟨c, m2, hfree, -, hcopy, hread, hmove⟩
        · have hval : vmmHandleCowFault cfg m (addr r) virt = (false, m) := by
            simp only [vmmHandleCowFault, hfind, if_neg hentry]
            rw [hw, h6, hcount, if_pos (by omega), hcopy]
          rw [hval]
          refine ⟨⟨fun hc => Bool.noConfusion hc, ?_⟩, g, h, Kept.refl _ _ _⟩
          rintro ⟨f', hf', hor⟩
          cases hf'
          rcases hor with hor | hor
          · exact absurd hor hone
          · exact absurd hempty hor
        · have hval : vmmHandleCowFault cfg m (addr r) virt =
              (true, m2.write (addr t) (pageOf virt % 512)
                (addr c ||| writable.flags cfg.cowBit)) := by
            simp only [vmmHandleCowFault, hfind, if_neg hentry]
            rw [hw, h6, hcount, if_pos (by omega), hcopy]
            simp only [hread, hw]
            rw [resolve_word cfg h8]
          rw [hval]
          exact ⟨⟨fun _ => ⟨f, rfl, .inr hfree⟩, fun _ => rfl⟩, hmove .writable⟩
    · have hval : vmmHandleCowFault cfg m (addr r) virt = (false, m) := by
        simp only [vmmHandleCowFault, hfind, hw]
        rw [hcow, h4, if_pos (.inr (by simp [ha]))]
      rw [hval]
      refine ⟨⟨fun hc => Bool.noConfusion hc, ?_⟩, g, h, Kept.refl _ _ _⟩
      rintro ⟨f', hf', -⟩
      cases hf'
      exact absurd rfl ha

/-- `vmm_protect_page` with the flags of a user page changes the access of the page, moving it to a
block of its own where it becomes writable. -/
theorem protect_spec (h : Inv cfg m g) (hr : r ∈ g.spaces) (hu : userAddress virt = true)
    (writable : Bool) :
    ∃ g', Inv cfg (vmmProtectPage cfg m (addr r) virt (userFlags writable)).2 g' ∧
      Kept Unchanged m g (vmmProtectPage cfg m (addr r) virt (userFlags writable)).2 g' := by
  cases h.pageAt hr hu with
  | noTable hfind =>
    simp only [vmmProtectPage, hfind]
    exact ⟨g, h, Kept.refl _ _ _⟩
  | absent t ht hfind hp =>
    simp only [vmmProtectPage, hfind, hp, if_true]
    exact ⟨g, h, Kept.refl _ _ _⟩
  | mapped t f a ht hfind hlt hw hpage hcount =>
    obtain ⟨h1, -, -, h4, -, h6, -, -⟩ := pageWord cfg.cowBit a hlt
    have hcow : cfg.pageCow = softwareBit cfg.cowBit := rfl
    have hpos := (h.counts.data_ref (h.page_data hpage)).2
    have hentry : ¬ (has (m.read (addr t) (pageOf virt % 512)) pagePresent = false) := by
      rw [hw, h1]
      simp
    cases writable with
    | true =>
      have hflag : has (userFlags true) pageWritable = true := by decide
      by_cases hshared : has (m.read (addr t) (pageOf virt % 512)) cfg.pageCow = true ∨
          1 < pmmBlockRefcount m.pmm (m.read (addr t) (pageOf virt % 512) &&& ptePhysMask)
      · rcases h.copyBlock ht hpage with ⟨-, hcopy⟩ | ⟨c, m2, -, -, hcopy, -, hmove⟩
        · simp only [vmmProtectPage, hfind, if_neg hentry, if_pos hshared]
          rw [hw, h6, hcopy]
          exact ⟨g, h, Kept.refl _ _ _⟩
        · simp only [vmmProtectPage, hfind, if_neg hentry, if_pos hflag, if_pos hshared]
          rw [hw, h6, hcopy, userFlags_eq]
          exact hmove .writable
      · simp only [vmmProtectPage, hfind, if_neg hentry, if_pos hflag, if_neg hshared]
        rw [hw, h6, hcount] at hshared
        rw [hw, h6, userFlags_eq]
        exact ⟨_, h.setAccess .writable ht hpage (fun _ => by omega),
          h.setAccess_kept .writable ht hpage _⟩
    | false =>
      have hflag : ¬ (has (userFlags false) pageWritable = true) := by decide
      -- A copy-on-write page keeps its mark.
      have hword : addr f ||| userFlags false ||| (if has (m.read (addr t) (pageOf virt % 512))
          cfg.pageCow = true then cfg.pageCow else 0) =
          addr f ||| (if a = .cow then cow else .readOnly).flags cfg.cowBit := by
        rw [hw, hcow, h4]
        by_cases ha : a = .cow
        · simp only [ha, decide_true, if_true]
          rw [UInt64.or_assoc]
          rfl
        · simp only [ha, decide_false, Bool.false_eq_true, if_false, UInt64.or_zero]
          rfl
      simp only [vmmProtectPage, hfind, if_neg hentry]
      rw [hw, h6, ← hw, hword]
      refine ⟨_, h.setAccess _ ht hpage ?_, h.setAccess_kept _ ht hpage _⟩
      split <;> simp

lemma prepareUserPage_spec (h : Inv cfg m g) (hr : r ∈ g.spaces) {page : UInt64}
    (hu : userAddress page = true) :
    ∃ g', Inv cfg (prepareUserPage cfg (addr r) page m).2 g' ∧
      Kept Unchanged m g (prepareUserPage cfg (addr r) page m).2 g' := by
  unfold prepareUserPage
  split
  · exact ⟨g, h, Kept.refl _ _ _⟩
  split
  · exact ⟨g, h, Kept.refl _ _ _⟩
  · split
    · exact ⟨g, h, Kept.refl _ _ _⟩
    · exact (cowFault_spec h hr hu).2

lemma userAddress_of_range (h1 : 2 ^ 40 ≤ virt.toNat) (h2 : virt.toNat < 2 ^ 47) :
    userAddress virt = true := by
  have hidx : pml4Idx virt = virt.toNat / 2 ^ 39 := by
    rw [pml4Idx_eq]
    unfold pageOf
    omega
  have hk : kernelIndex (pml4Idx virt) = false :=
    (kernelIndex_eq_false (by omega)).2 ⟨by omega, by omega⟩
  simp [userAddress, hk]

lemma prepare_page_user {last : UInt64} (h1 : ¬ virt < aosUserSpaceStart)
    (h2 : ¬ userSpaceEnd ≤ last) (h3 : ¬ last < virt) {i : Nat}
    (hi : i < ((last &&& tableMask) - (virt &&& tableMask)).toNat / 4096 + 1) :
    userAddress ((virt &&& tableMask) + UInt64.ofNat i * 4096) = true := by
  have hmask : ∀ x : UInt64, (x &&& tableMask).toNat = x.toNat / 4096 * 4096 := by
    intro x
    have hlt := x.toNat_lt
    rw [UInt64.toNat_and, show tableMask.toNat = (2 ^ 52 - 1) <<< 12 from by decide, nat_and_mask,
      Nat.shiftRight_eq_div_pow, Nat.shiftLeft_eq]
    omega
  have hv : 2 ^ 40 ≤ virt.toNat := Nat.le_of_not_lt fun hc => h1 (UInt64.lt_iff_toNat_lt.2 hc)
  have hl : last.toNat < 2 ^ 47 := Nat.lt_of_not_le fun hc => h2 (UInt64.le_iff_toNat_le.2 hc)
  have hvl : virt.toNat ≤ last.toNat := Nat.le_of_not_lt fun hc => h3 (UInt64.lt_iff_toNat_lt.2 hc)
  have hsub : ((last &&& tableMask) - (virt &&& tableMask)).toNat =
      last.toNat / 4096 * 4096 - virt.toNat / 4096 * 4096 := by
    rw [UInt64.toNat_sub_of_le _ _ (UInt64.le_iff_toNat_le.2 (by rw [hmask, hmask]; omega)), hmask,
      hmask]
  have hsum : ((virt &&& tableMask) + UInt64.ofNat i * 4096).toNat =
      virt.toNat / 4096 * 4096 + i * 4096 := by
    rw [UInt64.toNat_add, UInt64.toNat_mul, hmask, UInt64.toNat_ofNat',
      show (4096 : UInt64).toNat = 4096 from rfl]
    omega
  apply userAddress_of_range
  · omega
  · omega

/-- `vmm_prepare_user_write` resolves pages, one after the other, and stops at the first that it
cannot. -/
lemma prepareUserWrite_spec (h : Inv cfg m g) (hr : r ∈ g.spaces) (virt length : UInt64) :
    ∃ g', Inv cfg (vmmPrepareUserWrite cfg m (addr r) virt length).2 g' ∧
      Kept Unchanged m g (vmmPrepareUserWrite cfg m (addr r) virt length).2 g' := by
  unfold vmmPrepareUserWrite
  split
  · exact ⟨g, h, Kept.refl _ _ _⟩
  dsimp only
  split
  · exact ⟨g, h, Kept.refl _ _ _⟩
  rename_i hguard
  simp only [not_or] at hguard
  obtain ⟨-, hlast, hstart, hend⟩ := hguard
  -- Every round keeps the invariant, whether or not it ends the loop.
  have hloop := forLoop_post (fun i => prepareUserPage cfg (addr r)
      ((virt &&& tableMask) + UInt64.ofNat i * 4096))
    (P := fun _ m' => ∃ g', Inv cfg m' g' ∧ Kept Unchanged m g m' g')
    (Q := fun m' => ∃ g', Inv cfg m' g' ∧ Kept Unchanged m g m' g')
    ((((virt + length - 1) &&& tableMask) - (virt &&& tableMask)).toNat / 4096 + 1) 0 m
    ⟨g, h, Kept.refl _ _ _⟩ ?_
  · cases hres : (forLoop (fun i => prepareUserPage cfg (addr r)
      ((virt &&& tableMask) + UInt64.ofNat i * 4096))
      ((((virt + length - 1) &&& tableMask) - (virt &&& tableMask)).toNat / 4096 + 1) 0 m).1 with
    | true => exact hloop.1 hres
    | false => exact hloop.2 hres
  · rintro i m1 - hi ⟨g1, h1, hkept⟩
    have huser : userAddress ((virt &&& tableMask) + UInt64.ofNat i * 4096) = true :=
      prepare_page_user hstart hend hlast (by rwa [zero_add] at hi)
    have hr' : r ∈ g1.spaces := by rw [hkept.spaces]; exact hr
    obtain ⟨g2, h2, hkept'⟩ := prepareUserPage_spec h1 hr' huser
    have hboth : ∃ g', Inv cfg (prepareUserPage cfg (addr r)
        ((virt &&& tableMask) + UInt64.ofNat i * 4096) m1).2 g' ∧ Kept Unchanged m g
        (prepareUserPage cfg (addr r) ((virt &&& tableMask) + UInt64.ofNat i * 4096) m1).2 g' :=
      ⟨g2, h2, hkept.trans hkept'⟩
    exact ⟨fun _ => hboth, fun _ => hboth⟩

/-- `vmm_unmap_page` followed by `pmm_free_block` of what it returns, as `release_user_pages` and
`sys_brk` do. -/
def unmapAndFree (m : Machine) (pml4 virt : UInt64) : Machine :=
  match vmmUnmapPage m pml4 virt with
  | (phys, m) => if phys ≠ 0 then m.freeBlock phys else m

lemma vmmUnmapPage_eq (h : Inv cfg m g) (hr : r ∈ g.spaces) (hu : userAddress virt = true) :
    vmmUnmapPage m (addr r) virt =
      match findPageEntry m (addr r) virt with
      | none => (0, m)
      | some (pt, i) =>
        if has (m.read pt i) pagePresent = false then (0, m)
        else (m.read pt i &&& tableMask, m.write pt i 0) := by
  have hne := h.addr_ne_zero_of_table ((h.tables.root r).1 hr)
  -- Addresses below user space have a kernel index.
  have hstart : ¬ virt < aosUserSpaceStart := by
    intro hlt
    have hlt' : virt.toNat < 2 ^ 40 := UInt64.lt_iff_toNat_lt.1 hlt
    have hpre := userAddress_prefix hu
    simp only [UserPrefix, pageOf, pow_zero, Nat.div_one] at hpre
    omega
  cases h.walk hr hu with
  | noPdpt hp => simp [vmmUnmapPage, findPageEntry, hp]
  | noPd c1 hc1 hw1 hp =>
    obtain ⟨h1, -, -, h2, h3, -⟩ := tableWord (h.lt_of_table hc1)
    simp [vmmUnmapPage, findPageEntry, hne, hstart, hw1, h1, h2, h3, hp]
  | noPt c1 c2 hc1 hc2 hw1 hw2 hp =>
    obtain ⟨h1, -, -, h2, h3, -⟩ := tableWord (h.lt_of_table hc1)
    obtain ⟨h4, -, -, h5, h6, -⟩ := tableWord (h.lt_of_table hc2)
    simp [vmmUnmapPage, findPageEntry, hne, hstart, hw1, h1, h2, h3, hw2, h4, h5, h6, hp]
  | found c1 c2 t hc1 hc2 hw1 hw2 hw3 ht =>
    obtain ⟨h1, -, -, h2, h3, -⟩ := tableWord (h.lt_of_table hc1)
    obtain ⟨h4, -, -, h5, h6, -⟩ := tableWord (h.lt_of_table hc2)
    obtain ⟨h7, h8, -, h9, h10, -⟩ := tableWord (h.lt_of_table ht)
    simp [vmmUnmapPage, findPageEntry, hne, hstart, hw1, h1, h2, h3, hw2, h4, h5, h6, hw3, h7, h8,
      h9, h10]

def At (r v : Nat) : Nat → Nat → Prop := fun r' v' => r' = r ∧ v' = v

lemma Inv.dropPage_kept (h : Inv cfg m g) {a : Access} (ht : g.owner t = .table r 3 (v / 512))
    (hpage : g.page r v = some (f, a)) :
    Kept (At r v) m g ((m.freeBlock (addr f)).write (addr t) (v % 512) 0) (g.dropPage r v f) := by
  have hdata := h.page_data hpage
  refine ⟨by simp, ?_, ?_⟩
  · intro x
    by_cases hxf : x = f
    · subst hxf
      unfold Layout.dropPage
      split <;> simp [hdata]
    · rw [Layout.dropPage_owner_of_ne _ hxf]
  · intro r' v' hslot
    refine view_congr ?_ ?_
    · rw [Layout.dropPage_page, Layout.setPage_page_of_ne _ _ hslot]
    · intro f' b hpage'
      rw [write_addr _ (h.lt_of_table ht)]
      exact writeWord_other _ _ _ (h.page_ne_table hpage' ht)

lemma unmap_cases (h : Inv cfg m g) (hr : r ∈ g.spaces) (hu : userAddress virt = true) :
    unmapAndFree m (addr r) virt = m ∨
      ∃ f a, g.page r (pageOf virt) = some (f, a) ∧
        Inv cfg (unmapAndFree m (addr r) virt) (g.dropPage r (pageOf virt) f) ∧
        Kept (At r (pageOf virt)) m g (unmapAndFree m (addr r) virt)
          (g.dropPage r (pageOf virt) f) := by
  unfold unmapAndFree
  rw [vmmUnmapPage_eq h hr hu]
  cases h.pageAt hr hu with
  | noTable hfind =>
    simp only [hfind]
    exact .inl rfl
  | absent t ht hfind hp =>
    simp only [hfind, hp, if_true]
    exact .inl rfl
  | mapped t f a ht hfind hlt hw hpage =>
    obtain ⟨h1, -, -, -, -, -, h7, -⟩ := pageWord cfg.cowBit a hlt
    have hne : addr f ≠ 0 := addr_ne_zero (by omega)
      (h.counts.ne_zero (by simp [h.page_data hpage]))
    simp only [hfind, hw, h1, h7, Bool.true_eq_false, if_false]
    rw [if_pos hne]
    exact .inr ⟨f, a, hpage, h.dropPage ht hpage, h.dropPage_kept ht hpage⟩

theorem unmap_spec (h : Inv cfg m g) (hr : r ∈ g.spaces) (hu : userAddress virt = true) :
    ∃ g', Inv cfg (unmapAndFree m (addr r) virt) g' ∧
      Kept (At r (pageOf virt)) m g (unmapAndFree m (addr r) virt) g' := by
  rcases unmap_cases h hr hu with heq | ⟨f, a, -, hinv, hkept⟩
  · rw [heq]
    exact ⟨g, h, Kept.refl _ _ _⟩
  · exact ⟨_, hinv, hkept⟩

/-! ## Mapping a fresh block -/

open Layout

variable {cfg : Config} {m : Machine} {g : Layout} {x : Nat}

/-- The number of tables `vmm_map_page` has to allocate. -/
def missingTables (m : Machine) (pml4 virt : UInt64) : Nat :=
  if has (m.read pml4 (pml4Idx virt)) pagePresent = false then 3
  else
    let pdpt := m.read pml4 (pml4Idx virt) &&& tableMask
    if has (m.read pdpt (pdptIdx virt)) pagePresent = false then 2
    else
      let pd := m.read pdpt (pdptIdx virt) &&& tableMask
      if has (m.read pd (pdIdx virt)) pagePresent = false then 1 else 0

/-- What the block of `vmm_map_page` for a missing table leads to, with the block to be mapped still
fresh. -/
structure Ensured (cfg : Config) (m : Machine) (g : Layout) (x t r d b : Nat) (c : Nat)
    (m' : Machine) (g' : Layout) : Prop where
  fresh : Fresh cfg m' g' x
  kept : Kept Unchanged m g m' g'
  page : g'.page = g.page
  content : m'.mem x = m.mem x
  table : g'.owner c = .table r (d + 1) b
  card : m'.pmm.free.card + 1 = m.pmm.free.card
  entry : m'.read (addr t) (b % 512) = addr c ||| tableFlags
  empty : ∀ i, m'.read (addr c) i = 0

lemma Fresh.other {m' : Machine} {g' : Layout} (h : Fresh cfg m g x) (hinv : Inv cfg m' g')
    (howner : g'.owner x = g.owner x) (htotal : m'.pmm.totalBlocks = m.pmm.totalBlocks)
    (hbit : m'.pmm.bitmap x = m.pmm.bitmap x)
    (hrc : m'.pmm.refcounts x = m.pmm.refcounts x) : Fresh cfg m' g' x :=
  ⟨hinv, howner.trans h.reserved, by rw [htotal]; exact h.lt_total, hbit.trans h.used,
    hrc.trans h.refcount, h.ne_zero, h.ne_boot⟩

/-- The table for prefix `b` is missing: it is made, if a block is free. -/
lemma ensureTable_absent (h : Fresh cfg m g x) {t r d b : Nat}
    (ht : g.owner t = .table r d (b / 512)) (hd : d < 3) (hu : UserPrefix (d + 1) b)
    (hp : has (m.read (addr t) (b % 512)) pagePresent = false) :
    (m.pmm.free.card = 0 ∧ ensureTable m (addr t) (b % 512) = (false, m)) ∨
      ∃ c m' g', ensureTable m (addr t) (b % 512) = (true, m') ∧
        Ensured cfg m g x t r d b c m' g' := by
  have hlt := h.inv.lt_of_table ht
  rcases h.inv.alloc with ⟨hempty, halloc⟩ | ⟨c, hfree, haddr, halloc, hfresh⟩
  · refine .inl ⟨by rw [hempty]; rfl, ?_⟩
    simp [ensureTable, hp, halloc]
  have hc : c < 2 ^ 40 := hfresh.lt
  have hct : t ≠ c := by
    rintro rfl
    rw [hfree] at ht
    cases ht
  have hxc : x ≠ c := by
    rintro rfl
    have hres := h.reserved
    rw [hfree] at hres
    cases hres
  have hxt : x ≠ t := by
    rintro rfl
    have hres := h.reserved
    rw [ht] at hres
    cases hres
  have ht' : (g.setOwner c .reserved).owner t = .table r d (b / 512) := by
    rw [setOwner_owner_of_ne _ _ hct]
    exact ht
  have hzero := hfresh.setPage fun _ => 0
  have hmemset : ((m.take c).setPage (addr c) fun _ => 0).mem =
      Function.update m.mem c fun _ => 0 := by rw [setPage_addr _ hc]
  rw [read_addr m hlt] at hp
  have hlink := hzero.link ht' hd (Nat.mod_lt b (by omega)) (by rw [digits_eq]; exact hu)
    (by rw [hmemset]; simpa [hct] using hp) (fun j => by rw [hmemset]; simp [has])
  rw [digits_eq] at hlink
  refine .inr ⟨c, ((m.take c).setPage (addr c) fun _ => 0).write
    (addr t) (b % 512) (addr c ||| tableFlags),
    (g.setOwner c .reserved).setOwner c (.table r (d + 1) b),
    ?_, ⟨?_, ?_, rfl, ?_, setOwner_owner_self _ _ _, ?_, ?_, ?_⟩⟩
  · rw [ensureTable, read_addr m hlt, hp, halloc]
    simp only [Bool.false_eq_true, if_false, if_neg haddr]
    rfl
  · refine h.other hlink ?_ rfl ?_ ?_
    · rw [setOwner_owner_of_ne _ _ hxc, setOwner_owner_of_ne _ _ hxc]
    · rw [write_addr _ hlt, setPage_addr _ hc]
      simp [Pmm.take, hxc]
    · rw [write_addr _ hlt, setPage_addr _ hc]
      simp [Pmm.take, hxc]
  · refine ⟨rfl, ?_, fun r' v' _ => view_congr rfl ?_⟩
    · intro y
      by_cases hyc : y = c
      · subst hyc
        simp [hfree]
      · rw [setOwner_owner_of_ne _ _ hyc, setOwner_owner_of_ne _ _ hyc]
    · intro f a hpage
      have hft := h.inv.page_ne_table hpage ht
      have hfc : f ≠ c := by
        rintro rfl
        rw [h.inv.page_data hpage] at hfree
        cases hfree
      rw [write_addr _ hlt, hmemset]
      simp [writeWord_other _ _ _ hft, hfc]
  · rw [write_addr _ hlt, hmemset]
    simp [writeWord_other _ _ _ hxt, hxc]
  · rw [write_addr _ hlt, setPage_addr _ hc]
    have hmem : c ∈ m.pmm.free := (h.inv.counts.free_iff c).1 hfree
    simp only [Pmm.take_free]
    rw [Finset.card_erase_of_mem hmem]
    have hpos : 0 < m.pmm.free.card := Finset.card_pos.2 ⟨c, hmem⟩
    omega
  · exact writeWord_self _ _ _ _
  · intro i
    rw [read_addr _ hc, write_addr _ hlt, hmemset]
    simp [writeWord_other _ _ _ (Ne.symm hct)]

lemma ensureTable_present {c i : Nat} {t : UInt64} (hc : c < 2 ^ 40)
    (hw : m.read t i = addr c ||| tableFlags) : ensureTable m t i = (true, m) := by
  simp [ensureTable, hw, has_table_present hc]

/-! ## The levels of `vmm_map_page` -/

/-- What mapping block `x` at page `v` of `r` leads to when `n` tables are missing. -/
def MapPost (cfg : Config) (m : Machine) (g : Layout) (x r v n : Nat) (m' : Machine) : Prop :=
  (n ≤ m.pmm.free.card ∧ ∃ g', Inv cfg m' g' ∧ Kept (At r v) m (g.setOwner x .data) m' g') ∨
    (m.pmm.free.card < n ∧ ∃ g', Fresh cfg m' g' x ∧ Kept Unchanged m g m' g')

lemma Ensured.mapPost {t r d b c : Nat} {m1 m' : Machine} {g1 : Layout} {v n : Nat}
    (h : Ensured cfg m g x t r d b c m1 g1) (hpost : MapPost cfg m1 g1 x r v n m') :
    MapPost cfg m g x r v (n + 1) m' := by
  have hcard := h.card
  rcases hpost with ⟨hn, g', hinv, hkept⟩ | ⟨hn, g', hfresh, hkept⟩
  · refine .inl ⟨by omega, g', hinv, ?_⟩
    refine ⟨hkept.spaces.trans h.kept.spaces, fun f => (hkept.reserved f).trans ?_, ?_⟩
    · by_cases hfx : f = x
      · subst hfx
        simp
      · rw [setOwner_owner_of_ne _ _ hfx, setOwner_owner_of_ne _ _ hfx]
        exact h.kept.reserved f
    · intro r' v' hslot
      exact (hkept.view r' v' hslot).trans (h.kept.view r' v' id)
  · exact .inr ⟨by omega, g', hfresh, h.kept.trans hkept⟩

lemma mapInPt_spec (h : Fresh cfg m g x) {t r v : Nat} (ht : g.owner t = .table r 3 (v / 512))
    (hnone : g.page r v = none) (writable : Bool) :
    MapPost cfg m g x r v 0 (m.write (addr t) (v % 512) (addr x ||| userFlags writable)) := by
  rw [userFlags_eq]
  refine .inl ⟨Nat.zero_le _, _, h.map (userAccess writable) ht hnone, ⟨rfl, ?_, ?_⟩⟩
  · intro f
    by_cases hfx : f = x
    · subst hfx
      simp
    · rfl
  · intro r' v' hslot
    refine view_congr ?_ ?_
    · rw [setOwner_page, setOwner_page, setPage_page_of_ne _ _ hslot]
    · intro f a hpage
      rw [write_addr _ (h.inv.lt_of_table ht)]
      exact writeWord_other _ _ _ (h.inv.page_ne_table hpage ht)

section Levels

variable {r : Nat} {virt : UInt64} (writable : Bool)

lemma mapInPd_absent (h : Fresh cfg m g x) {t : Nat}
    (ht : g.owner t = .table r 2 (pageOf virt / 512 / 512)) (hu : UserPrefix 3 (pageOf virt / 512))
    (hp : has (m.read (addr t) (pdIdx virt)) pagePresent = false)
    (hnone : g.page r (pageOf virt) = none) :
    MapPost cfg m g x r (pageOf virt) 1
      (mapInPd m (addr t) virt (addr x) (userFlags writable)) := by
  have hsplit : ensureSplit m (addr t) (pdIdx virt) = (true, m) := by simp [ensureSplit, hp]
  rw [mapInPd, hsplit]
  rw [pdIdx_eq] at hp ⊢
  rcases ensureTable_absent h ht (by omega) hu hp with ⟨hcard, hens⟩ | ⟨c, m1, g1, hens, hpost⟩
  · simp only [hens]
    exact .inr ⟨by omega, g, h, Kept.refl _ _ _⟩
  have hc := hpost.fresh.inv.lt_of_table hpost.table
  simp only [hens]
  rw [hpost.entry, (tableWord hc).2.2.2.2.1, ptIdx_eq]
  exact hpost.mapPost (mapInPt_spec hpost.fresh hpost.table (by rw [hpost.page]; exact hnone)
    writable)

lemma mapInPdpt_absent (h : Fresh cfg m g x) {t : Nat}
    (ht : g.owner t = .table r 1 (pageOf virt / 512 / 512 / 512))
    (hu : UserPrefix 2 (pageOf virt / 512 / 512))
    (hp : has (m.read (addr t) (pdptIdx virt)) pagePresent = false)
    (hnone : g.page r (pageOf virt) = none) :
    MapPost cfg m g x r (pageOf virt) 2
      (mapInPdpt m (addr t) virt (addr x) (userFlags writable)) := by
  rw [mapInPdpt]
  rw [pdptIdx_eq] at hp ⊢
  rcases ensureTable_absent h ht (by omega) hu hp with ⟨hcard, hens⟩ | ⟨c, m1, g1, hens, hpost⟩
  · simp only [hens]
    exact .inr ⟨by omega, g, h, Kept.refl _ _ _⟩
  have hc := hpost.fresh.inv.lt_of_table hpost.table
  simp only [hens]
  rw [hpost.entry, (tableWord hc).2.2.2.2.1]
  -- The new table is empty, so the next one is missing too.
  exact hpost.mapPost (mapInPd_absent writable hpost.fresh hpost.table (userPrefix_div.2 hu)
    (by rw [hpost.empty]; decide) (by rw [hpost.page]; exact hnone))

/-- `vmm_map_page` of a fresh block at a user page that is not mapped. -/
theorem map_spec (h : Fresh cfg m g x) (hr : r ∈ g.spaces) (hu : userAddress virt = true)
    (hnone : g.page r (pageOf virt) = none) :
    MapPost cfg m g x r (pageOf virt) (missingTables m (addr r) virt)
      (vmmMapPage m (addr r) virt (addr x) (userFlags writable)) := by
  have hu1 := userAddress_prefix hu
  have hroot : g.owner r = .table r 0 (pageOf virt / 512 / 512 / 512 / 512) := by
    have hlt := pageOf_lt virt
    rw [show pageOf virt / 512 / 512 / 512 / 512 = 0 by omega]
    exact (h.inv.tables.root r).1 hr
  unfold missingTables vmmMapPage
  cases h.inv.walk hr hu with
  | noPdpt hp =>
    rw [if_pos hp]
    rw [pml4Idx_eq] at hp ⊢
    rcases ensureTable_absent h hroot (by omega) hu1 hp with
      ⟨hcard, hens⟩ | ⟨c, m1, g1, hens, hpost⟩
    · simp only [hens]
      exact .inr ⟨by omega, g, h, Kept.refl _ _ _⟩
    have hc := hpost.fresh.inv.lt_of_table hpost.table
    simp only [hens]
    rw [hpost.entry, (tableWord hc).2.2.2.2.1]
    exact hpost.mapPost (mapInPdpt_absent writable hpost.fresh hpost.table (userPrefix_div.2 hu1)
      (by rw [hpost.empty]; decide) (by rw [hpost.page]; exact hnone))
  | noPd c1 hc1 hw1 hp =>
    have hlt1 := h.inv.lt_of_table hc1
    obtain ⟨h1, -, -, -, h3, -⟩ := tableWord hlt1
    simp only [ensureTable_present hlt1 hw1, hw1, h1, h3, hp, if_true, Bool.true_eq_false, if_false]
    exact mapInPdpt_absent writable h hc1 (userPrefix_div.2 hu1) hp hnone
  | noPt c1 c2 hc1 hc2 hw1 hw2 hp =>
    have hlt1 := h.inv.lt_of_table hc1
    have hlt2 := h.inv.lt_of_table hc2
    obtain ⟨h1, -, -, -, h3, -⟩ := tableWord hlt1
    obtain ⟨h4, -, -, -, h6, -⟩ := tableWord hlt2
    simp only [mapInPdpt, ensureTable_present hlt1 hw1, hw1, h1, h3, ensureTable_present hlt2 hw2,
      hw2, h4, h6, hp, if_true, Bool.true_eq_false, if_false]
    exact mapInPd_absent writable h hc2 (userPrefix_div.2 (userPrefix_div.2 hu1)) hp hnone
  | found c1 c2 t hc1 hc2 hw1 hw2 hw3 ht =>
    have hlt1 := h.inv.lt_of_table hc1
    have hlt2 := h.inv.lt_of_table hc2
    have hlt3 := h.inv.lt_of_table ht
    obtain ⟨h1, -, -, -, h3, -⟩ := tableWord hlt1
    obtain ⟨h4, -, -, -, h6, -⟩ := tableWord hlt2
    obtain ⟨h7, h8, -, -, h9, -⟩ := tableWord hlt3
    simp only [mapInPdpt, mapInPd, ensureSplit, ensureTable_present hlt1 hw1, hw1, h1, h3,
      ensureTable_present hlt2 hw2, hw2, h4, h6, hw3, h7, h8, h9, ensureTable_present hlt3 hw3,
      Bool.true_eq_false, if_false, Bool.and_false, Bool.false_eq_true]
    rw [ptIdx_eq]
    exact mapInPt_spec h ht hnone writable

end Levels

end AosKernel.Memory
