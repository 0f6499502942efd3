import AosKernel.Memory.PageSpecs

/-!
# Tearing an address space down

`vmm_free_user_space` visits the tables of an address space depth first, frees the pages below each
and then the table. What the loop over one table does is stated once for all levels: it clears the
part of the tree below the table (`Cleared`, over the prefixes of `Below`), and the loop over a
table one level higher does the same if the loop over its children does (`freeLoop_spec`). -/

namespace AosKernel.Memory

open Lib.Loop Layout

variable {cfg : Config} {m : Machine} {g : Layout}

/-! ## Regions of a tree -/

/-- The place `(d, b)` is at or below one of the places `(D, lo), ..., (D, hi - 1)`. Pages are
places of depth four. -/
def Below (D lo hi d b : Nat) : Prop := D ≤ d ∧ lo ≤ b / 512 ^ (d - D) ∧ b / 512 ^ (d - D) < hi

variable {D lo d b : Nat}

lemma not_below_self : ¬ Below D lo lo d b := by
  rintro ⟨-, h1, h2⟩
  omega

variable {k : Fin 3} {g' : Layout} {hi i : Nat} {mem : Nat → Nat → UInt64}
  {free : UInt64 → Machine → Machine}

lemma below_append {mid : Nat} (h1 : lo ≤ mid) (h2 : mid ≤ hi) :
    Below D lo hi d b ↔ Below D lo mid d b ∨ Below D mid hi d b := by
  constructor
  · rintro ⟨hd, hlo, hhi⟩
    by_cases hmid : b / 512 ^ (d - D) < mid
    · exact .inl ⟨hd, hlo, hmid⟩
    · exact .inr ⟨hd, by omega, hhi⟩
  · rintro (⟨hd, hlo, hhi⟩ | ⟨hd, hlo, hhi⟩)
    · exact ⟨hd, hlo, by omega⟩
    · exact ⟨hd, by omega, hhi⟩

variable {c : Nat}

/-- The region of one place is the place and the region of its children. -/
lemma below_place :
    Below D c (c + 1) d b ↔ (d = D ∧ b = c) ∨ Below (D + 1) (c * 512) (c * 512 + 512) d b := by
  unfold Below
  constructor
  · rintro ⟨hd, hlo, hhi⟩
    rcases eq_or_lt_of_le hd with rfl | hlt
    · rw [Nat.sub_self, pow_zero, Nat.div_one] at hlo hhi
      omega
    · rw [show d - D = (d - (D + 1)) + 1 by omega, pow_succ, ← Nat.div_div_eq_div_mul] at hlo hhi
      exact .inr ⟨hlt, by omega, by omega⟩
  · rintro (⟨rfl, rfl⟩ | ⟨hd, hlo, hhi⟩)
    · rw [Nat.sub_self, pow_zero, Nat.div_one]
      omega
    · rw [show d - D = (d - (D + 1)) + 1 by omega, pow_succ, ← Nat.div_div_eq_div_mul]
      exact ⟨by omega, by omega, by omega⟩

/-- A place below a region has its parent in the region, or is at its top. -/
lemma below_parent (h : Below D c (c + 1) (d + 1) b) (hd : D ≤ d) :
    Below D c (c + 1) d (b / 512) := by
  obtain ⟨-, hlo, hhi⟩ := h
  rw [show d + 1 - D = (d - D) + 1 by omega, pow_succ', ← Nat.div_div_eq_div_mul] at hlo hhi
  exact ⟨hd, hlo, hhi⟩

variable {r : Nat}

lemma Tables.no_below (h : Tables k mem g) (hno : ∀ f, g.owner f ≠ .table r D c) :
    ∀ {d f b}, Below D c (c + 1) d b → g.owner f ≠ .table r d b := by
  intro d
  induction d with
  | zero =>
    intro f b hb hf
    rcases below_place.1 hb with ⟨rfl, rfl⟩ | ⟨hd, -, -⟩
    · exact hno f hf
    · omega
  | succ d ih =>
    intro f b hb hf
    by_cases hd : D = d + 1
    · subst hd
      rcases below_place.1 hb with ⟨-, rfl⟩ | ⟨hd, -, -⟩
      · exact hno f hf
      · omega
    · obtain ⟨t, ht, -⟩ := h.up hf
      have hle : D ≤ d := by
        have := hb.1
        omega
      exact ih (below_parent hb hle) ht

lemma Tables.no_page_below (h : Tables k mem g) {v : Nat} (hD : D ≤ 3)
    (hno : ∀ f, g.owner f ≠ .table r D c) (hb : Below D c (c + 1) 4 v) : g.page r v = none :=
  h.page_none_of_no_table fun _ => h.no_below hno (below_parent hb hD)

/-! ## Clearing a region -/

/-- The tables and pages of `r` in the region are gone, and nothing else. -/
structure Cleared (r D lo hi : Nat) (m : Machine) (g : Layout) (m' : Machine) (g' : Layout) :
    Prop where
  spaces : g'.spaces = g.spaces
  reserved : ∀ f, g'.owner f = .reserved ↔ g.owner f = .reserved
  tables : ∀ f r' d b, g'.owner f = .table r' d b ↔
    g.owner f = .table r' d b ∧ ¬ (r' = r ∧ Below D lo hi d b)
  pageIn : ∀ v, Below D lo hi 4 v → g'.page r v = none
  pageOut : ∀ r' v, ¬ (r' = r ∧ Below D lo hi 4 v) → g'.page r' v = g.page r' v
  mem : ∀ f, (g.owner f).Plain → m'.mem f = m.mem f

namespace Cleared

variable {r D lo mid hi : Nat} {m' m'' : Machine} {g' g'' : Layout}

lemma of_empty (htable : ∀ f d b, Below D lo hi d b → g.owner f ≠ .table r d b)
    (hpage : ∀ v, Below D lo hi 4 v → g.page r v = none) : Cleared r D lo hi m g m g := by
  refine ⟨rfl, fun _ => Iff.rfl, fun f r' d b => ⟨fun h => ⟨h, ?_⟩, fun h => h.1⟩, hpage,
    fun _ _ _ => rfl, fun _ _ => rfl⟩
  rintro ⟨rfl, hb⟩
  exact htable f d b hb h

theorem trans (h : Cleared r D lo mid m g m' g') (h' : Cleared r D mid hi m' g' m'' g'')
    (h1 : lo ≤ mid) (h2 : mid ≤ hi) : Cleared r D lo hi m g m'' g'' := by
  have happ : ∀ {d b}, Below D lo hi d b ↔ Below D lo mid d b ∨ Below D mid hi d b :=
    below_append h1 h2
  refine ⟨h'.spaces.trans h.spaces, fun f => (h'.reserved f).trans (h.reserved f), ?_, ?_, ?_, ?_⟩
  · intro f r' d b
    rw [h'.tables, h.tables, happ]
    tauto
  · intro v hv
    rcases happ.1 hv with hv' | hv'
    · by_cases hv'' : Below D mid hi 4 v
      · exact h'.pageIn v hv''
      · rw [h'.pageOut r v (fun hc => hv'' hc.2)]
        exact h.pageIn v hv'
    · exact h'.pageIn v hv'
  · intro r' v hv
    rw [h'.pageOut r' v (fun hc => hv ⟨hc.1, happ.2 (.inr hc.2)⟩),
      h.pageOut r' v (fun hc => hv ⟨hc.1, happ.2 (.inl hc.2)⟩)]
  · intro f hf
    rw [h'.mem, h.mem f hf]
    intro r' d b hf'
    exact hf r' d b ((h.tables f r' d b).1 hf').1

end Cleared

variable {m' : Machine} {t : Nat}

lemma Cleared.not_present (h : Cleared r (d + 2) (b * 512) (b * 512 + 512) m g m' g')
    (hinv : Inv cfg m' g') (ht : g'.owner t = .table r (d + 1) b) (hi : i < 512) :
    has (m'.mem t i) pagePresent = false := by
  have hd := (hinv.tables.shape ht).1
  have hin : Below (d + 2) (b * 512) (b * 512 + 512) (d + 2) (b * 512 + i) := by
    refine ⟨le_rfl, ?_, ?_⟩ <;> rw [Nat.sub_self, pow_zero, Nat.div_one] <;> omega
  by_contra hp
  rw [Bool.not_eq_false] at hp
  by_cases hd3 : d + 1 < 3
  · -- A present entry would be a table in the region.
    have hu := (userPrefix_child (d := d) hi).2 (hinv.tables.shape ht).2.1
    obtain ⟨c, -, hc⟩ := hinv.tables.down ht hd3 hi hu hp
    exact ((h.tables c r (d + 2) _).1 hc).2 ⟨rfl, hin⟩
  · obtain rfl : d = 2 := by omega
    have hpres := (hinv.tables.leaf ht hi).present
    rw [h.pageIn _ hin, hp] at hpres
    exact Bool.noConfusion hpres

/-! ## The loops -/

/-- `free` clears everything below a table of depth `d`. -/
def FreeSpec (cfg : Config) (d : Nat) (free : UInt64 → Machine → Machine) : Prop :=
  ∀ {m : Machine} {g : Layout} {t r b : Nat}, Inv cfg m g → g.owner t = .table r d b →
    ∃ g', Inv cfg (free (addr t) m) g' ∧
      Cleared r (d + 1) (b * 512) (b * 512 + 512) m g (free (addr t) m) g'

/-- A loop over the entries of a table clears what is below it, if each round clears what is below
its entry. -/
theorem freeLoop_spec (body : Nat → Machine → Machine) (h : Inv cfg m g)
    (hbody : ∀ {m1 : Machine} {g1 : Layout} {i : Nat}, i < 512 → Inv cfg m1 g1 → Cleared r D lo (lo
      + i) m g m1 g1 → ∃ g2, Inv cfg (body i m1) g2 ∧ Cleared r D (lo + i) (lo + i + 1) m1 g1 (body
      i m1) g2) :
    ∃ g', Inv cfg (forEach body 512 0 m) g' ∧
      Cleared r D lo (lo + 512) m g (forEach body 512 0 m) g' := by
  have hstart : Cleared r D lo (lo + 0) m g m g :=
    Cleared.of_empty (fun _ _ _ hb => absurd hb not_below_self)
      (fun _ hb => absurd hb not_below_self)
  have hloop := forEach_inv body
    (P := fun i m1 => ∃ g1, Inv cfg m1 g1 ∧ Cleared r D lo (lo + i) m g m1 g1)
    512 0 m ⟨g, h, hstart⟩ ?_
  · rwa [zero_add] at hloop
  · rintro i m1 - hi ⟨g1, hinv, hclear⟩
    obtain ⟨g2, hinv2, hclear2⟩ := hbody hi hinv hclear
    exact ⟨g2, hinv2, hclear.trans hclear2 (Nat.le_add_right _ _) (Nat.le_succ _)⟩

/-- A table that is still there after part of the region below another table has been cleared. -/
lemma Cleared.table_kept (h : Cleared r D lo hi m g m' g') {r' : Nat}
    (ht : g.owner t = .table r' d b) (hd : d < D) : g'.owner t = .table r' d b :=
  (h.tables t r' d b).2 ⟨ht, fun hc => by have := hc.2.1; omega⟩

lemma userEntry_page {f : Nat} (k : Fin 3) (a : Access) (hf : f < 2 ^ 40) :
    userEntry (addr f ||| a.flags k) = true := by
  obtain ⟨h1, h2, -⟩ := pageWord k a hf
  simp [userEntry, h1, h2]

lemma userEntry_table (hc : c < 2 ^ 40) : userEntry (addr c ||| tableFlags) = true := by
  obtain ⟨h1, -, h2, -⟩ := tableWord hc
  simp [userEntry, h1, h2]

lemma userEntry_absent {w : UInt64} (h : has w pagePresent = false) : userEntry w = false := by
  simp [userEntry, h]

lemma freePt_spec (cfg : Config) : FreeSpec cfg 3 freePt := by
  intro m g t r b h ht
  refine freeLoop_spec _ h fun {m1 g1 i} hi hinv hclear => ?_
  have ht1 := hclear.table_kept ht (by omega)
  have hread := hinv.leaf (v := b * 512 + i) (by rw [digits_div b hi]; exact ht1)
  rw [digits_mod b hi] at hread
  have hplace : ∀ {d v}, Below 4 (b * 512 + i) (b * 512 + i + 1) d v → d = 4 → v = b * 512 + i := by
    rintro d v hb rfl
    rcases below_place.1 hb with ⟨-, hv⟩ | ⟨hd, -, -⟩
    · exact hv
    · omega
  have hdeep : ∀ {f d v}, Below 4 (b * 512 + i) (b * 512 + i + 1) d v →
      g1.owner f ≠ .table r d v := by
    intro f d v hb hf
    have h1 := hb.1
    have h2 := (hinv.tables.shape hf).1
    omega
  cases hx : g1.page r (b * 512 + i) with
  | none =>
    have hpres := hread.present
    rw [hx] at hpres
    simp only [userEntry_absent hpres, Bool.false_eq_true, if_false]
    refine ⟨g1, hinv, Cleared.of_empty (fun _ _ _ hb => hdeep hb) fun v hb => ?_⟩
    rw [hplace hb rfl]
    exact hx
  | some x =>
    obtain ⟨f, a⟩ := x
    rw [hx] at hread
    obtain ⟨hw, hlt⟩ := hread
    have hword := (pageWord cfg.cowBit a hlt).2.2.2.2.2.2.1
    have hdata := hinv.page_data hx
    have hdrop := hinv.dropPage (v := b * 512 + i) (t := t) (by rw [digits_div b hi]; exact ht1) hx
    rw [digits_mod b hi] at hdrop
    simp only [hw, userEntry_page cfg.cowBit a hlt, hword, if_true]
    refine ⟨_, hdrop, ⟨by simp, ?_, ?_, ?_, ?_, ?_⟩⟩
    · intro f'
      by_cases hff : f' = f
      · subst hff
        unfold dropPage
        split <;> simp [hdata]
      · rw [dropPage_owner_of_ne _ hff]
    · intro f' r' d v
      constructor
      · intro hf'
        have hff : f' ≠ f := by
          rintro rfl
          revert hf'
          unfold dropPage
          split <;> simp [hdata]
        rw [dropPage_owner_of_ne _ hff] at hf'
        exact ⟨hf', fun hc => hdeep hc.2 (hc.1 ▸ hf')⟩
      · rintro ⟨hf', -⟩
        have hff : f' ≠ f := by
          rintro rfl
          rw [hdata] at hf'
          cases hf'
        rw [dropPage_owner_of_ne _ hff]
        exact hf'
    · intro v hb
      rw [hplace hb rfl]
      simp
    · intro r' v hslot
      rw [dropPage_page, setPage_page_of_ne]
      rintro ⟨rfl, rfl⟩
      exact hslot ⟨rfl, below_place.2 (.inl ⟨rfl, rfl⟩)⟩
    · intro f' hf'
      have hft : f' ≠ t := fun heq => hf' _ _ _ (heq ▸ ht1)
      rw [Machine.write_addr _ (hinv.lt_of_table ht1)]
      exact writeWord_other _ _ _ hft

/-- The body of the loops over the upper levels, for an entry that is a table. -/
lemma release_spec (hfree : FreeSpec cfg (d + 1) free) (h : Inv cfg m g)
    (ht : g.owner t = .table r d (b / 512)) (hc : g.owner c = .table r (d + 1) b) :
    ∃ g', Inv cfg (releaseTable (addr t) (b % 512) (addr c) (free (addr c) m)) g' ∧
      Cleared r (d + 1) b (b + 1) m g
        (releaseTable (addr t) (b % 512) (addr c) (free (addr c) m)) g' := by
  obtain ⟨g1, hinv, hclear⟩ := hfree h hc
  have ht1 := hclear.table_kept ht (by omega)
  have hc1 := hclear.table_kept hc (by omega)
  have hz : ∀ i < 512, has ((free (addr c) m).mem c i) pagePresent = false :=
    fun i hi => hclear.not_present hinv hc1 hi
  have hnone : tableHasPresentEntries (free (addr c) m) (addr c) = false := by
    rw [tableHasPresentEntries, List.any_eq_false]
    intro i hi
    rw [Machine.read_addr _ (hinv.lt_of_table hc1), hz i (List.mem_range.1 hi)]
    simp
  have hunlink := hinv.unlink hc1 ht1 hz
  rw [releaseTable, hnone]
  refine ⟨_, hunlink, ⟨hclear.spaces, ?_, ?_, ?_, ?_, ?_⟩⟩
  · intro f
    by_cases hfc : f = c
    · subst hfc
      simp [hc]
    · rw [setOwner_owner_of_ne _ _ hfc]
      exact hclear.reserved f
  · intro f r' d' b'
    rw [below_place]
    by_cases hfc : f = c
    · subst hfc
      rw [setOwner_owner_self]
      constructor
      · simp
      · rintro ⟨hf, hnot⟩
        obtain ⟨rfl, rfl, rfl⟩ := Owner.table.inj (hc.symm.trans hf)
        exact absurd ⟨rfl, .inl ⟨rfl, rfl⟩⟩ hnot
    · rw [setOwner_owner_of_ne _ _ hfc, hclear.tables]
      constructor
      · rintro ⟨hf, hnot⟩
        refine ⟨hf, ?_⟩
        rintro ⟨rfl, ⟨rfl, rfl⟩ | hb⟩
        · exact hfc (h.tables.owner_inj hf hc)
        · exact hnot ⟨rfl, hb⟩
      · rintro ⟨hf, hnot⟩
        exact ⟨hf, fun hb => hnot ⟨hb.1, .inr hb.2⟩⟩
  · intro v hb
    rcases below_place.1 hb with ⟨hd, -⟩ | hb'
    · have := (h.tables.shape hc).1
      omega
    · exact hclear.pageIn v hb'
  · intro r' v hnot
    exact hclear.pageOut r' v fun hb => hnot ⟨hb.1, below_place.2 (.inr hb.2)⟩
  · intro f hf
    have hft : f ≠ t := fun heq => hf _ _ _ (heq ▸ ht)
    rw [Machine.write_addr _ (hinv.lt_of_table ht1)]
    exact (writeWord_other _ _ _ hft).trans (hclear.mem f hf)

/-- A round of the loops over the upper levels: nothing happens at an entry that is not present, and
a table is cleared and released. -/
lemma freeEntry_spec (hfree : FreeSpec cfg (d + 1) free) (h : Inv cfg m g) (hd : d < 3)
    (ht : g.owner t = .table r d b) (hi : i < 512) (hu : UserPrefix (d + 1) (b * 512 + i))
    (habsent : has (m.read (addr t) i) pagePresent = false → m' = m)
    (htable : ∀ c < 2 ^ 40, m.read (addr t) i = addr c ||| tableFlags → m' = releaseTable (addr t) i
      (addr c) (free (addr c) m)) :
    ∃ g', Inv cfg m' g' ∧ Cleared r (d + 1) (b * 512 + i) (b * 512 + i + 1) m g m' g' := by
  have ht' : g.owner t = .table r d ((b * 512 + i) / 512) := by rw [digits_div b hi]; exact ht
  rcases h.child ht' hd hu with ⟨hp, hno⟩ | ⟨c, hc, hw⟩
  · rw [digits_mod b hi] at hp
    rw [habsent hp]
    exact ⟨g, h, Cleared.of_empty (fun _ _ _ hb => h.tables.no_below hno hb)
      (fun _ hb => h.tables.no_page_below hd hno hb)⟩
  · have hrelease := release_spec hfree h ht' hc
    rw [digits_mod b hi] at hw hrelease
    rw [htable c (h.lt_of_table hc) hw]
    exact hrelease

lemma freePd_spec (cfg : Config) : FreeSpec cfg 2 freePd := by
  intro m g t r b h ht
  refine freeLoop_spec _ h fun {m1 g1 i} hi hinv hclear => ?_
  have ht1 := hclear.table_kept ht (by omega)
  refine freeEntry_spec (freePt_spec cfg) hinv (by omega) ht1 hi
    ((userPrefix_child hi).2 (hinv.tables.shape ht1).2.1) ?_ ?_
  · intro hp
    simp only [freePdEntry, userEntry_absent hp, if_true]
  · intro c hc hw
    obtain ⟨-, h2, -, -, h5, -⟩ := tableWord hc
    simp only [freePdEntry, hw, userEntry_table hc, h2, h5, Bool.true_eq_false,
      Bool.false_eq_true, if_false]

lemma freePdpt_spec (cfg : Config) : FreeSpec cfg 1 freePdpt := by
  intro m g t r b h ht
  refine freeLoop_spec _ h fun {m1 g1 i} hi hinv hclear => ?_
  have ht1 := hclear.table_kept ht (by omega)
  refine freeEntry_spec (freePd_spec cfg) hinv (by omega) ht1 hi
    ((userPrefix_child hi).2 (hinv.tables.shape ht1).2.1) ?_ ?_
  · intro hp
    simp only [freePdptEntry, userEntry_absent hp, if_true]
  · intro c hc hw
    simp only [freePdptEntry, hw, userEntry_table hc, (tableWord hc).2.2.2.2.1, Bool.true_eq_false,
      if_false]

lemma freeUserSpace_spec (h : Inv cfg m g) (hr : r ∈ g.spaces) :
    ∃ g', Inv cfg (vmmFreeUserSpace m (addr r)) g' ∧
      Cleared r 1 0 512 m g (vmmFreeUserSpace m (addr r)) g' := by
  have hroot := (h.tables.root r).1 hr
  rw [vmmFreeUserSpace, if_neg (h.addr_ne_zero_of_table hroot)]
  refine freeLoop_spec (freeP4Entry (addr r)) h fun {m1 g1 i} hi hinv hclear => ?_
  have hroot1 := hclear.table_kept hroot (by omega)
  rw [zero_add]
  cases hk : kernelIndex i with
  | true =>
    -- The tree has no tables at kernel indices.
    have hno : ∀ f, g1.owner f ≠ .table r 1 i := by
      intro f hf
      have hu := (hinv.tables.shape hf).2.1
      have hrange : 2 ≤ i ∧ i < 256 := by simpa [UserPrefix] using hu
      rw [(kernelIndex_eq_false hi).2 hrange] at hk
      exact Bool.noConfusion hk
    simp only [freeP4Entry, hk, if_true]
    exact ⟨g1, hinv, Cleared.of_empty (fun _ _ _ hb => hinv.tables.no_below hno hb)
      (fun _ hb => hinv.tables.no_page_below (by omega) hno hb)⟩
  | false =>
    have hu : UserPrefix 1 i := by simpa [UserPrefix] using (kernelIndex_eq_false hi).1 hk
    suffices hentry : ∃ g', Inv cfg (freeP4Entry (addr r) i m1) g' ∧ Cleared r (0 + 1) (0 * 512 + i)
        (0 * 512 + i + 1) m1 g1 (freeP4Entry (addr r) i m1) g' by
      simpa using hentry
    refine freeEntry_spec (freePdpt_spec cfg) hinv (by omega) hroot1 hi (by simpa using hu) ?_ ?_
    · intro hp
      simp only [freeP4Entry, hk, userEntry_absent hp, Bool.false_eq_true, if_false, if_true]
    · intro c hc hw
      simp only [freeP4Entry, hk, hw, userEntry_table hc, (tableWord hc).2.2.2.2.1,
        Bool.true_eq_false, Bool.false_eq_true, if_false]

/-! ## Destruction -/

/-- The address space `r` is gone, and nothing else. The boot PML4 is reserved after its address
space is gone. -/
structure Destroyed (cfg : Config) (r : Nat) (m : Machine) (g : Layout) (m' : Machine)
    (g' : Layout) : Prop where
  spaces : g'.spaces = g.spaces.erase r
  reserved : ∀ f, f ≠ cfg.p4Block → (g'.owner f = .reserved ↔ g.owner f = .reserved)
  tables : ∀ f r' d b, r' ≠ r → (g'.owner f = .table r' d b ↔ g.owner f = .table r' d b)
  page : ∀ r' v, r' ≠ r → g'.page r' v = g.page r' v
  mem : ∀ f, (g.owner f).Plain → m'.mem f = m.mem f

theorem destroy_spec (h : Inv cfg m g) (hr : r ∈ g.spaces) :
    ∃ g', Inv cfg (vmmDestroyUserSpace cfg m (addr r)) g' ∧
      Destroyed cfg r m g (vmmDestroyUserSpace cfg m (addr r)) g' := by
  obtain ⟨g1, hinv, hclear⟩ := freeUserSpace_spec h hr
  have hr1 : r ∈ g1.spaces := by rw [hclear.spaces]; exact hr
  have hroot1 := (hinv.tables.root r).1 hr1
  have hlt := hinv.lt_of_table hroot1
  have hz : ∀ i < 512, UserPrefix 1 i →
      has ((vmmFreeUserSpace m (addr r)).mem r i) pagePresent = false := by
    intro i hi hu
    by_contra hp
    rw [Bool.not_eq_false] at hp
    obtain ⟨c, -, hc⟩ := hinv.tables.down hroot1 (by omega) hi (by simpa using hu) hp
    simp only [Nat.zero_mul, Nat.zero_add] at hc
    refine ((hclear.tables c r 1 i).1 hc).2 ⟨rfl, le_rfl, Nat.zero_le _, ?_⟩
    rw [Nat.sub_self, pow_zero, Nat.div_one]
    exact hi
  have hne := hinv.addr_ne_zero_of_table hroot1
  -- What dropping the root adds to the clearing, for either fate of the PML4.
  have hdropped : ∀ {o : Owner}, o.Plain → (o = .reserved → r = cfg.p4Block) → ∀ {m' : Machine},
      m'.mem = (vmmFreeUserSpace m (addr r)).mem → Destroyed cfg r m g m' (g1.dropRoot r o) := by
    intro o ho hres m' hmem
    have hother : ∀ {f}, f ≠ r → (g1.dropRoot r o).owner f = g1.owner f :=
      fun hf => setOwner_owner_of_ne _ _ hf
    have hself : (g1.dropRoot r o).owner r = o := setOwner_owner_self _ _ _
    refine ⟨?_, ?_, ?_, ?_, ?_⟩
    · show g1.spaces.erase r = g.spaces.erase r
      rw [hclear.spaces]
    · intro f hf
      by_cases hfr : f = r
      · subst hfr
        rw [hself, ← hclear.reserved, hroot1]
        exact ⟨fun h' => absurd (hres h') hf, by simp⟩
      · rw [hother hfr]
        exact hclear.reserved f
    · intro f r' d b hne'
      by_cases hfr : f = r
      · subst hfr
        rw [hself]
        constructor
        · exact fun h' => absurd h' (ho _ _ _)
        · intro h'
          rw [(h.tables.root f).1 hr] at h'
          exact absurd (Owner.table.inj h').1.symm hne'
      · rw [hother hfr, hclear.tables]
        exact ⟨fun h' => h'.1, fun h' => ⟨h', fun hc => hne' hc.1⟩⟩
    · exact fun r' v hne' => hclear.pageOut r' v fun hc => hne' hc.1
    · intro f hf
      rw [hmem]
      exact hclear.mem f hf
  rw [vmmDestroyUserSpace, if_neg hne]
  by_cases hboot : r = cfg.p4Block
  · have heq : addr r = cfg.p4Table := by rw [hboot]; rfl
    simp only [heq, ne_eq, not_true, if_false]
    subst hboot
    exact ⟨_, hinv.dropBoot hr1 hz, hdropped (by simp) (fun _ => rfl) rfl⟩
  · have hp4 := cfg.p4Block_lt
    unfold maxBlocks at hp4
    have hneq : addr r ≠ cfg.p4Table := fun heq => hboot (addr_inj (by omega) (by omega) heq)
    simp only [ne_eq, hneq, not_false_iff, if_true]
    exact ⟨_, hinv.dropRoot hr1 hz hboot, hdropped (by simp) (by simp) rfl⟩

end AosKernel.Memory
