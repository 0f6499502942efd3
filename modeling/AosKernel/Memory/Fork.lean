import AosKernel.Memory.Teardown

/-!
# Copying an address space

`vmm_copy_p4` walks the tables of the source depth first, makes a table of the copy for each, and
shares every user page. As for the teardown, what the loop over one table does is stated once for
all levels: on success the pages below the table are shared by both address spaces (`Copied`), and
whether or not the loop fails, other address spaces keep their tables and pages and the source keeps
its pages up to their access (`Forked`). `copy_spec` is the result. -/

namespace AosKernel.Memory

open Lib.Loop Function Layout Machine

variable {cfg : Config} {m : Machine} {g : Layout} {src dst : Nat}

/-- A page after it has been shared. -/
def sharePage (x : Nat × Access) : Nat × Access := (x.1, x.2.share)

@[simp] lemma sharePage_sharePage (x : Nat × Access) : sharePage (sharePage x) = sharePage x := by
  simp [sharePage]

/-! ## What the loops do -/

/-- What holds after any number of rounds, also when the last one failed. -/
structure Forked (src dst : Nat) (m : Machine) (g : Layout) (m' : Machine) (g' : Layout) :
    Prop where
  spaces : g'.spaces = g.spaces
  reserved : ∀ f, g'.owner f = .reserved ↔ g.owner f = .reserved
  data : ∀ f, g.owner f = .data → g'.owner f = .data
  tables : ∀ f r d b, r ≠ dst → (g'.owner f = .table r d b ↔ g.owner f = .table r d b)
  dstTables : ∀ f d b, g.owner f = .table dst d b → g'.owner f = .table dst d b
  other : ∀ r v, r ≠ src → r ≠ dst → g'.page r v = g.page r v
  src : ∀ v, g'.page src v = g.page src v ∨ g'.page src v = (g.page src v).map sharePage
  mem : ∀ f, g.owner f = .data → m'.mem f = m.mem f

structure Copied (src dst D lo hi : Nat) (m : Machine) (g : Layout) (m' : Machine) (g' : Layout) :
    Prop where
  forked : Forked src dst m g m' g'
  dstNew : ∀ f d b, g'.owner f = .table dst d b → g.owner f = .table dst d b ∨ Below D lo hi d b
  srcIn : ∀ v, Below D lo hi 4 v → g'.page src v = (g.page src v).map sharePage
  srcOut : ∀ v, ¬ Below D lo hi 4 v → g'.page src v = g.page src v
  dstIn : ∀ v, Below D lo hi 4 v → g'.page dst v = (g.page src v).map sharePage
  dstOut : ∀ v, ¬ Below D lo hi 4 v → g'.page dst v = g.page dst v

lemma Forked.refl (src dst : Nat) (m : Machine) (g : Layout) : Forked src dst m g m g :=
  ⟨rfl, fun _ => Iff.rfl, fun _ h => h, fun _ _ _ _ _ => Iff.rfl, fun _ _ _ h => h,
    fun _ _ _ _ => rfl, fun _ => .inl rfl, fun _ _ => rfl⟩

variable {m' : Machine}

variable {g' : Layout} {b d td ts v : Nat} {copy : UInt64 → UInt64 → Machine → Bool × Machine}

theorem Forked.trans {m'' : Machine} {g'' : Layout} (h : Forked src dst m g m' g')
    (h' : Forked src dst m' g' m'' g'') : Forked src dst m g m'' g'' := by
  refine ⟨h'.spaces.trans h.spaces, fun f => (h'.reserved f).trans (h.reserved f),
    fun f hf => h'.data f (h.data f hf),
    fun f r d b hr => (h'.tables f r d b hr).trans (h.tables f r d b hr),
    fun f d b hf => h'.dstTables f d b (h.dstTables f d b hf),
    fun r v h1 h2 => (h'.other r v h1 h2).trans (h.other r v h1 h2), fun v => ?_,
    fun f hf => (h'.mem f (h.data f hf)).trans (h.mem f hf)⟩
  rcases h'.src v with h1 | h1 <;> rcases h.src v with h2 | h2 <;> rw [h1, h2]
  · exact .inl rfl
  · exact .inr rfl
  · exact .inr rfl
  refine .inr ?_
  rw [Option.map_map]
  congr 1
  funext x
  exact sharePage_sharePage x

namespace Copied

variable {D lo mid hi : Nat} {m' m'' : Machine} {g' g'' : Layout}

lemma of_empty (hsrc : ∀ v, Below D lo hi 4 v → g.page src v = none)
    (hdst : ∀ v, Below D lo hi 4 v → g.page dst v = none) : Copied src dst D lo hi m g m g := by
  refine ⟨Forked.refl _ _ _ _, fun _ _ _ h => .inl h, ?_, fun _ _ => rfl, ?_, fun _ _ => rfl⟩
  · intro v hv
    rw [hsrc v hv]
    rfl
  · intro v hv
    rw [hsrc v hv, hdst v hv]
    rfl

theorem trans (h : Copied src dst D lo mid m g m' g') (h' : Copied src dst D mid hi m' g' m'' g'')
    (h1 : lo ≤ mid) (h2 : mid ≤ hi) : Copied src dst D lo hi m g m'' g'' := by
  have happ : ∀ {d b}, Below D lo hi d b ↔ Below D lo mid d b ∨ Below D mid hi d b :=
    below_append h1 h2
  have hdisj : ∀ {d b}, Below D lo mid d b → ¬ Below D mid hi d b := by
    rintro d b ⟨-, -, ha⟩ ⟨-, hb, -⟩
    omega
  refine ⟨h.forked.trans h'.forked, ?_, ?_, ?_, ?_, ?_⟩
  · intro f d b hf
    rw [happ]
    rcases h'.dstNew f d b hf with hf' | hb
    · rcases h.dstNew f d b hf' with hf'' | hb
      · exact .inl hf''
      · exact .inr (.inl hb)
    · exact .inr (.inr hb)
  · intro v hv
    rcases happ.1 hv with hv' | hv'
    · rw [h'.srcOut v (hdisj hv'), h.srcIn v hv']
    · rw [h'.srcIn v hv', h.srcOut v (fun hc => hdisj hc hv')]
  · intro v hv
    rw [h'.srcOut v (fun hc => hv (happ.2 (.inr hc))), h.srcOut v (fun hc => hv (happ.2 (.inl hc)))]
  · intro v hv
    rcases happ.1 hv with hv' | hv'
    · rw [h'.dstOut v (hdisj hv'), h.dstIn v hv']
    · rw [h'.dstIn v hv', h.srcOut v (fun hc => hdisj hc hv')]
  · intro v hv
    rw [h'.dstOut v (fun hc => hv (happ.2 (.inr hc))), h.dstOut v (fun hc => hv (happ.2 (.inl hc)))]

end Copied

/-- The copy has no table and no page in the region. -/
structure Vacant (g : Layout) (dst D lo hi : Nat) : Prop where
  table : ∀ f d b, Below D lo hi d b → g.owner f ≠ .table dst d b
  page : ∀ v, Below D lo hi 4 v → g.page dst v = none

def CopyPost (cfg : Config) (src dst D lo hi : Nat) (m : Machine) (g : Layout)
    (res : Bool × Machine) : Prop :=
  Post (fun m' => ∃ g', Inv cfg m' g' ∧ Copied src dst D lo hi m g m' g')
    (fun m' => ∃ g', Inv cfg m' g' ∧ Forked src dst m g m' g') res

/-- `copy` copies everything below a table of depth `d`. -/
def CopySpec (cfg : Config) (src dst d : Nat)
    (copy : UInt64 → UInt64 → Machine → Bool × Machine) : Prop :=
  ∀ {m : Machine} {g : Layout} {ts td b : Nat}, Inv cfg m g → g.owner ts = .table src d b →
    g.owner td = .table dst d b → Vacant g dst (d + 1) (b * 512) (b * 512 + 512) →
    CopyPost cfg src dst (d + 1) (b * 512) (b * 512 + 512) m g (copy (addr ts) (addr td) m)

/-- A loop over the entries of a table copies what is below it, if each round copies what is below
its entry. -/
lemma copyLoop_spec {D lo : Nat} (body : Nat → Machine → Bool × Machine) (h : Inv cfg m g)
    (hvacant : Vacant g dst D lo (lo + 512))
    (hbody : ∀ {m1 : Machine} {g1 : Layout} {i : Nat}, i < 512 → Inv cfg m1 g1 →
      Forked src dst m g m1 g1 → Vacant g1 dst D (lo + i) (lo + i + 1) →
      CopyPost cfg src dst D (lo + i) (lo + i + 1) m1 g1 (body i m1)) :
    CopyPost cfg src dst D lo (lo + 512) m g (forLoop body 512 0 m) := by
  have hstart : Copied src dst D lo (lo + 0) m g m g :=
    Copied.of_empty (fun _ hb => absurd hb not_below_self) (fun _ hb => absurd hb not_below_self)
  have hloop := forLoop_post body
    (P := fun i m1 => ∃ g1, Inv cfg m1 g1 ∧ Copied src dst D lo (lo + i) m g m1 g1)
    (Q := fun m1 => ∃ g1, Inv cfg m1 g1 ∧ Forked src dst m g m1 g1)
    512 0 m ⟨g, h, hstart⟩ ?_
  · rwa [zero_add] at hloop
  · rintro i m1 - hi ⟨g1, hinv, hcopied⟩
    have hin : ∀ {d b}, Below D (lo + i) (lo + i + 1) d b → Below D lo (lo + 512) d b := by
      rintro d b ⟨h1, h2, h3⟩
      exact ⟨h1, by omega, by omega⟩
    have hout : ∀ {d b}, Below D (lo + i) (lo + i + 1) d b → ¬ Below D lo (lo + i) d b := by
      rintro d b ⟨-, h2, -⟩ ⟨-, -, h3⟩
      omega
    -- The rounds so far have not touched the region of this one.
    have hvacant1 : Vacant g1 dst D (lo + i) (lo + i + 1) := by
      refine ⟨fun f d b hb hf => ?_, fun v hb => ?_⟩
      · rcases hcopied.dstNew f d b hf with hf' | hb'
        · exact hvacant.table f d b (hin hb) hf'
        · exact hout hb hb'
      · rw [hcopied.dstOut v (hout hb)]
        exact hvacant.page v (hin hb)
    refine (hbody hi hinv hcopied.forked hvacant1).mono ?_ ?_
    · rintro m2 ⟨g2, hinv2, hcopied2⟩
      exact ⟨g2, hinv2, hcopied.trans hcopied2 (Nat.le_add_right _ _) (Nat.le_succ _)⟩
    · rintro m2 ⟨g2, hinv2, hforked⟩
      exact ⟨g2, hinv2, hcopied.forked.trans hforked⟩

/-! ## Pages -/

/-- Sharing one page, seen from the layout: the source gets the shared access, the copy the same
page. -/
lemma copied_page (hne : src ≠ dst) {x : Nat × Access} (hpage : g.page src v = some x)
    (hmem : ∀ f, g.owner f = .data → m'.mem f = m.mem f) :
    Copied src dst 4 v (v + 1) m g m'
      ((g.setPage src v (some (sharePage x))).setPage dst v (some (sharePage x))) := by
  have hplace : ∀ {v'}, Below 4 v (v + 1) 4 v' ↔ v' = v := by
    intro v'
    rw [below_place]
    constructor
    · rintro (⟨-, h⟩ | ⟨h, -, -⟩)
      · exact h
      · omega
    · exact fun h => .inl ⟨rfl, h⟩
  have hsrc : ∀ v', ((g.setPage src v (some (sharePage x))).setPage dst v
      (some (sharePage x))).page src v' = if v' = v then some (sharePage x) else g.page src v' := by
    intro v'
    rw [setPage_page_of_ne _ _ (fun hc => hne hc.1)]
    split
    · rename_i hv
      subst hv
      exact setPage_page_self _ _ _ _
    · rename_i hv
      exact setPage_page_of_ne _ _ (fun hc => hv hc.2)
  refine ⟨⟨rfl, fun _ => Iff.rfl, fun _ h => h, fun _ _ _ _ _ => Iff.rfl, fun _ _ _ h => h, ?_, ?_,
    hmem⟩, fun _ _ _ h => .inl h, ?_, ?_, ?_, ?_⟩
  · intro r v' h1 h2
    rw [setPage_page_of_ne _ _ (fun hc => h2 hc.1), setPage_page_of_ne _ _ (fun hc => h1 hc.1)]
  · intro v'
    rw [hsrc]
    split
    · rename_i hv
      subst hv
      rw [hpage]
      exact .inr rfl
    · exact .inl rfl
  · intro v' hv
    rw [hplace] at hv
    subst hv
    rw [hsrc, if_pos rfl, hpage]
    rfl
  · intro v' hv
    rw [hplace] at hv
    rw [hsrc, if_neg hv]
  · intro v' hv
    rw [hplace] at hv
    subst hv
    rw [hpage]
    exact setPage_page_self _ _ _ _
  · intro v' hv
    rw [hplace] at hv
    rw [setPage_page_of_ne _ _ (fun hc => hv hc.2), setPage_page_of_ne _ _ (fun hc => hv hc.2)]

/-- One entry of a page table: a user page gets one more reference, or the count is at its limit. -/
lemma copyPte_spec (hne : src ≠ dst) (h : Inv cfg m g)
    (hts : g.owner ts = .table src 3 (v / 512)) (htd : g.owner td = .table dst 3 (v / 512))
    (hvacant : Vacant g dst 4 v (v + 1)) :
    CopyPost cfg src dst 4 v (v + 1) m g (copyPte cfg (addr ts) (addr td) (v % 512) m) := by
  have hself : Below 4 v (v + 1) 4 v := below_place.2 (.inl ⟨rfl, rfl⟩)
  have hleaf := h.leaf hts
  cases hx : g.page src v with
  | none =>
    have hpres := hleaf.present
    rw [hx] at hpres
    rw [copyPte, hpres]
    refine post_true ⟨g, h, Copied.of_empty (fun v' hv => ?_) hvacant.page⟩
    rcases below_place.1 hv with ⟨-, rfl⟩ | ⟨hd, -, -⟩
    · exact hx
    · omega
  | some x =>
    obtain ⟨f, a⟩ := x
    rw [hx] at hleaf
    obtain ⟨hw, hlt⟩ := hleaf
    obtain ⟨h1, h2, -, -, h5, h6, -, -⟩ := pageWord cfg.cowBit a hlt
    have hdata := h.page_data hx
    have hnr : g.owner f ≠ .reserved := by simp [hdata]
    have hnf : g.owner f ≠ .free := by simp [hdata]
    have hrc := h.counts.data_ref hdata
    have hretain := pmmRetainBlock_addr h.counts.pmm (h.counts.lt_total hnr) (h.counts.used hnr hnf)
      (by omega)
    by_cases hmax : m.pmm.refcounts f = uint16Max
    · rw [if_pos hmax] at hretain
      rw [copyPte, hw, h1, h2, h6, hretain]
      exact post_false ⟨g, h, Forked.refl _ _ _ _⟩
    rw [if_neg hmax] at hretain
    have hcow : cfg.pageCow = softwareBit cfg.cowBit := rfl
    -- Both entries become the shared one; a read-only entry already is.
    have hval : copyPte cfg (addr ts) (addr td) (v % 512) m =
        (true, (({ m with pmm := m.pmm.setRefcount f (m.pmm.refcounts f + 1) } : Machine).write
          (addr ts) (v % 512) (addr f ||| a.share.flags cfg.cowBit)).write (addr td) (v % 512)
          (addr f ||| a.share.flags cfg.cowBit)) := by
      rw [copyPte, hw, h1, h2, h6, hretain, hcow, h5]
      by_cases ha : a = .readOnly
      · subst ha
        have hsame : ({ m with pmm := m.pmm.setRefcount f (m.pmm.refcounts f + 1) } : Machine).write
            (addr ts) (v % 512) (addr f ||| Access.readOnly.share.flags cfg.cowBit) =
            { m with pmm := m.pmm.setRefcount f (m.pmm.refcounts f + 1) } :=
          write_read _ hw
        rw [hsame]
        rfl
      · rw [word_clear (by decide) hlt, UInt64.or_assoc, Access.flags_share _ _ ha]
        simp [ha]
    rw [hval]
    have hset := h.setAccess a.share hts hx (fun hc => absurd hc (Access.share_ne_writable a))
    have hadd := hset.addShared (Access.share_ne_writable a) (setPage_page_self g src v _)
      htd (by rw [setPage_page_of_ne _ _ (fun hc => hne hc.1.symm)]
              exact hvacant.page v hself)
    refine post_true ⟨_, hadd, copied_page hne hx ?_⟩
    intro f' hf'
    have h1 : f' ≠ ts := by
      rintro rfl
      rw [hf'] at hts
      cases hts
    have h2 : f' ≠ td := by
      rintro rfl
      rw [hf'] at htd
      cases htd
    rw [write_addr _ (h.lt_of_table htd), write_addr _ (h.lt_of_table hts)]
    simp only [writeWord_other _ _ _ h2, writeWord_other _ _ _ h1]

lemma copyPt_spec (cfg : Config) (hne : src ≠ dst) : CopySpec cfg src dst 3 (copyPt cfg) := by
  intro m g ts td b h hts htd hvacant
  refine copyLoop_spec _ h hvacant fun {m1 g1 i} hi hinv hforked hvacant1 => ?_
  have hsrc : g1.owner ts = .table src 3 ((b * 512 + i) / 512) := by
    rw [digits_div b hi]
    exact (hforked.tables ts src 3 b hne).2 hts
  have hdst : g1.owner td = .table dst 3 ((b * 512 + i) / 512) := by
    rw [digits_div b hi]
    exact hforked.dstTables td 3 b htd
  have hpost := copyPte_spec hne hinv hsrc hdst hvacant1
  rwa [digits_mod b hi] at hpost

/-! ## Tables -/

section Link

variable {n d b : Nat}

/-- The layout after the free block `n` has become a table of the copy. -/
def linked (g : Layout) (dst n d b : Nat) : Layout :=
  (g.setOwner n .reserved).setOwner n (.table dst d b)

lemma linked_owner_self : (linked g dst n d b).owner n = .table dst d b :=
  setOwner_owner_self _ _ _

lemma linked_owner_of_ne {f : Nat} (h : f ≠ n) : (linked g dst n d b).owner f = g.owner f := by
  unfold linked
  rw [setOwner_owner_of_ne _ _ h, setOwner_owner_of_ne _ _ h]

lemma forked_linked (src : Nat) {m' : Machine} (hfree : g.owner n = .free)
    (hmem : ∀ f, g.owner f = .data → m'.mem f = m.mem f) :
    Forked src dst m g m' (linked g dst n d b) := by
  have hold : ∀ {f}, g.owner f ≠ .free → f ≠ n := by
    rintro f hf rfl
    exact hf hfree
  refine ⟨rfl, fun f => ?_, fun f hf => ?_, fun f r d' b' hr => ?_, fun f d' b' hf => ?_,
    fun _ _ _ _ => rfl, fun _ => .inl rfl, hmem⟩
  · by_cases hfn : f = n
    · subst hfn
      simp [linked_owner_self, hfree]
    · rw [linked_owner_of_ne hfn]
  · rw [linked_owner_of_ne (hold (by simp [hf]))]
    exact hf
  · by_cases hfn : f = n
    · subst hfn
      rw [linked_owner_self, hfree]
      constructor
      · exact fun hc => absurd (Owner.table.inj hc).1.symm hr
      · simp
    · rw [linked_owner_of_ne hfn]
  · rw [linked_owner_of_ne (hold (by simp [hf]))]
    exact hf

lemma vacant_linked (h : Vacant g dst d b (b + 1)) :
    Vacant (linked g dst n d b) dst (d + 1) (b * 512) (b * 512 + 512) := by
  refine ⟨fun f d' b' hb hf => ?_, fun v hb => h.page v (below_place.2 (.inr hb))⟩
  by_cases hfn : f = n
  · subst hfn
    rw [linked_owner_self] at hf
    obtain ⟨-, rfl, -⟩ := Owner.table.inj hf
    have := hb.1
    omega
  · rw [linked_owner_of_ne hfn] at hf
    exact h.table f d' b' (below_place.2 (.inr hb)) hf

lemma copied_linked {m1 m' : Machine} {g' : Layout} (hd : d ≤ 3)
    (hlink : Forked src dst m g m1 (linked g dst n d b))
    (h : Copied src dst (d + 1) (b * 512) (b * 512 + 512) m1 (linked g dst n d b) m' g') :
    Copied src dst d b (b + 1) m g m' g' := by
  have hplace : ∀ {v}, Below d b (b + 1) 4 v ↔ Below (d + 1) (b * 512) (b * 512 + 512) 4 v := by
    intro v
    rw [below_place]
    constructor
    · rintro (⟨h1, -⟩ | hb)
      · omega
      · exact hb
    · exact .inr
  refine ⟨hlink.trans h.forked, fun f d' b' hf => ?_, fun v hv => h.srcIn v (hplace.1 hv),
    fun v hv => h.srcOut v (fun hc => hv (hplace.2 hc)), fun v hv => h.dstIn v (hplace.1 hv),
    fun v hv => h.dstOut v (fun hc => hv (hplace.2 hc))⟩
  rcases h.dstNew f d' b' hf with hf' | hb
  · by_cases hfn : f = n
    · subst hfn
      rw [linked_owner_self] at hf'
      obtain ⟨-, rfl, rfl⟩ := Owner.table.inj hf'
      exact .inr (below_place.2 (.inl ⟨rfl, rfl⟩))
    · rw [linked_owner_of_ne hfn] at hf'
      exact .inl hf'
  · exact .inr (below_place.2 (.inr hb))

end Link

/-- A table of the copy is made for a table of the source, and filled. -/
lemma copyTable_spec (hcopy : CopySpec cfg src dst (d + 1) copy) (hne : src ≠ dst)
    (h : Inv cfg m g) {c : Nat} (hd : d < 3) (hts : g.owner ts = .table src d (b / 512))
    (htd : g.owner td = .table dst d (b / 512)) (hc : g.owner c = .table src (d + 1) b)
    (hw : m.read (addr ts) (b % 512) = addr c ||| tableFlags)
    (hvacant : Vacant g dst (d + 1) b (b + 1)) :
    CopyPost cfg src dst (d + 1) b (b + 1) m g
      (copyTable copy (addr ts) (addr td) (b % 512) m) := by
  have hclt := h.lt_of_table hc
  obtain ⟨-, -, -, -, h5, h6⟩ := tableWord hclt
  have hself : Below (d + 1) b (b + 1) (d + 1) b := below_place.2 (.inl ⟨rfl, rfl⟩)
  have hu := (h.tables.shape hc).2.1
  have hlts := h.lt_of_table hts
  have hltd := h.lt_of_table htd
  rcases h.alloc with ⟨-, halloc⟩ | ⟨n, hfree, haddr, halloc, hfresh⟩
  · have hval : copyTable copy (addr ts) (addr td) (b % 512) m = (false, m) := by
      simp [copyTable, halloc]
    rw [hval]
    exact post_false ⟨g, h, Forked.refl _ _ _ _⟩
  have hn : n < 2 ^ 40 := hfresh.lt
  have hold : ∀ {f r' d' b'}, g.owner f = .table r' d' b' → f ≠ n := by
    rintro f r' d' b' hf rfl
    rw [hfree] at hf
    cases hf
  have hmemset : ((m.take n).setPage (addr n) fun _ => 0).mem =
      update m.mem n fun _ => 0 := by rw [setPage_addr _ hn]
  have hsame : ((m.take n).setPage (addr n) fun _ => 0).read
      (addr ts) (b % 512) = addr c ||| tableFlags := by
    rw [read_addr _ hlts, hmemset, ← hw, read_addr _ hlts]
    simp [hold hts]
  -- The copy has no table here yet.
  have habsent : has (m.mem td (b % 512)) pagePresent = false := by
    rcases h.child htd hd hu with ⟨hp, -⟩ | ⟨c', hc', -⟩
    · rwa [read_addr _ hltd] at hp
    · exact absurd hc' (hvacant.table c' _ _ hself)
  have hlink := (hfresh.setPage fun _ => 0).link (t := td) (r := dst) (d := d) (b := b / 512)
    (i := b % 512) (by rw [setOwner_owner_of_ne _ _ (hold htd)]; exact htd) hd
    (Nat.mod_lt b (by omega)) (by rw [digits_eq]; exact hu)
    (by rw [hmemset]; simpa [hold htd] using habsent) (fun j => by rw [hmemset]; simp [has])
  rw [digits_eq] at hlink
  have hval : copyTable copy (addr ts) (addr td) (b % 512) m =
      copy (addr c) (addr n) (((m.take n).setPage (addr n)
        fun _ => 0).write (addr td) (b % 512) (addr n ||| tableFlags)) := by
    simp only [copyTable, hw, h5, halloc, if_neg haddr, memset, hsame, h6]
  rw [hval]
  have hforked : Forked src dst m g (((m.take n).setPage (addr n)
      fun _ => 0).write (addr td) (b % 512) (addr n ||| tableFlags))
        (linked g dst n (d + 1) b) := by
    refine forked_linked src hfree fun f hf => ?_
    have hfn : f ≠ n := by
      rintro rfl
      rw [hf] at hfree
      cases hfree
    have hft : f ≠ td := by
      rintro rfl
      rw [hf] at htd
      cases htd
    rw [write_addr _ hltd, hmemset]
    simp [writeWord_other _ _ _ hft, hfn]
  have hpost := @hcopy _ _ c n b hlink
    ((hforked.tables c src (d + 1) b hne).2 hc) linked_owner_self (vacant_linked hvacant)
  refine hpost.mono ?_ ?_
  · rintro m' ⟨g', hinv, hcopied⟩
    exact ⟨g', hinv, copied_linked hd hforked hcopied⟩
  · rintro m' ⟨g', hinv, hforked'⟩
    exact ⟨g', hinv, hforked.trans hforked'⟩

lemma copyEntry_spec (hcopy : CopySpec cfg src dst (d + 1) copy) (hne : src ≠ dst)
    (h : Inv cfg m g) (hd : d < 3) (hts : g.owner ts = .table src d (b / 512))
    (htd : g.owner td = .table dst d (b / 512)) (hu : UserPrefix (d + 1) b)
    (hvacant : Vacant g dst (d + 1) b (b + 1)) {res : Bool × Machine}
    (habsent : has (m.read (addr ts) (b % 512)) pagePresent = false → res = (true, m))
    (htable : ∀ c < 2 ^ 40, m.read (addr ts) (b % 512) = addr c ||| tableFlags →
      res = copyTable copy (addr ts) (addr td) (b % 512) m) :
    CopyPost cfg src dst (d + 1) b (b + 1) m g res := by
  rcases h.child hts hd hu with ⟨hp, hno⟩ | ⟨c, hc, hw⟩
  · rw [habsent hp]
    exact post_true ⟨g, h, Copied.of_empty (fun _ hb => h.tables.no_page_below hd hno hb)
      hvacant.page⟩
  · rw [htable c (h.lt_of_table hc) hw]
    exact copyTable_spec hcopy hne h hd hts htd hc hw hvacant

lemma copyPd_spec (cfg : Config) (hne : src ≠ dst) : CopySpec cfg src dst 2 (copyPd cfg) := by
  intro m g ts td b h hts htd hvacant
  refine copyLoop_spec _ h hvacant fun {m1 g1 i} hi hinv hforked hvacant1 => ?_
  have hsrc := (hforked.tables ts src 2 b hne).2 hts
  have hdst := hforked.dstTables td 2 b htd
  have hu := (userPrefix_child hi).2 (hinv.tables.shape hsrc).2.1
  rw [← digits_div b hi] at hsrc hdst
  refine copyEntry_spec (copyPt_spec cfg hne) hne hinv (by omega) hsrc hdst hu hvacant1 ?_ ?_
  · rw [digits_mod b hi]
    intro hp
    rw [if_pos hp]
  · rw [digits_mod b hi]
    intro c hc hw
    obtain ⟨h1, h2, -⟩ := tableWord hc
    rw [hw, h1, h2]
    rfl

lemma copyPdpt_spec (cfg : Config) (hne : src ≠ dst) : CopySpec cfg src dst 1 (copyPdpt cfg) := by
  intro m g ts td b h hts htd hvacant
  refine copyLoop_spec _ h hvacant fun {m1 g1 i} hi hinv hforked hvacant1 => ?_
  have hsrc := (hforked.tables ts src 1 b hne).2 hts
  have hdst := hforked.dstTables td 1 b htd
  have hu := (userPrefix_child hi).2 (hinv.tables.shape hsrc).2.1
  rw [← digits_div b hi] at hsrc hdst
  refine copyEntry_spec (copyPd_spec cfg hne) hne hinv (by omega) hsrc hdst hu hvacant1 ?_ ?_
  · rw [digits_mod b hi]
    intro hp
    rw [if_pos hp]
  · rw [digits_mod b hi]
    intro c hc hw
    rw [hw, (tableWord hc).1]
    rfl

/-- The loop over the PML4: the kernel half is taken over, the user half is copied. -/
lemma copyP4_spec (h : Inv cfg m g) (hne : src ≠ dst) (hsrc : g.owner src = .table src 0 0)
    (hdst : g.owner dst = .table dst 0 0) (hvacant : Vacant g dst 1 0 512) :
    CopyPost cfg src dst 1 0 512 m g (copyP4 cfg (addr src) (addr dst) m) := by
  refine copyLoop_spec _ h (by rw [zero_add]; exact hvacant)
    fun {m1 g1 i} hi hinv hforked hvacant1 => ?_
  have hsrc1 := (hforked.tables src src 0 0 hne).2 hsrc
  have hdst1 := hforked.dstTables dst 0 0 hdst
  rw [zero_add] at hvacant1 ⊢
  cases hk : kernelIndex i with
  | true =>
    have hnot : ¬ UserPrefix 1 i := by
      intro hu
      have hrange : 2 ≤ i ∧ i < 256 := by simpa [UserPrefix] using hu
      rw [(kernelIndex_eq_false hi).2 hrange] at hk
      exact Bool.noConfusion hk
    have hno : ∀ f, g1.owner f ≠ .table src 1 i := fun f hf => hnot (hinv.tables.shape hf).2.1
    have hempty : ∀ v, Below 1 i (i + 1) 4 v → g1.page src v = none :=
      fun v hb => hinv.tables.no_page_below (by omega) hno hb
    split
    · exact post_true ⟨g1, hinv, Copied.of_empty hempty hvacant1.page⟩
    refine post_true ⟨g1, ?_, ?_⟩
    · rw [write_addr _ (hinv.lt_of_table hdst1)]
      exact ⟨hinv.tables.writeKernel hdst1 hnot _, hinv.counts⟩
    · have hkeep : ∀ f, g1.owner f = .data →
          (m1.write (addr dst) i (m1.read (addr src) i)).mem f = m1.mem f := by
        intro f hf
        have hfd : f ≠ dst := by
          rintro rfl
          rw [hf] at hdst1
          cases hdst1
        rw [write_addr _ (hinv.lt_of_table hdst1)]
        exact writeWord_other _ _ _ hfd
      have hsame := Copied.of_empty (m := m1) hempty hvacant1.page
      exact { hsame with forked := { hsame.forked with mem := hkeep } }
  | false =>
    have hu : UserPrefix 1 i := by simpa [UserPrefix] using (kernelIndex_eq_false hi).1 hk
    have hdiv : i / 512 = 0 := by omega
    have hmod : i % 512 = i := Nat.mod_eq_of_lt hi
    refine copyEntry_spec (copyPdpt_spec cfg hne) hne hinv (by omega) (by rw [hdiv]; exact hsrc1)
      (by rw [hdiv]; exact hdst1) hu hvacant1 ?_ ?_
    · rw [hmod]
      intro hp
      rw [if_pos hp]
    · rw [hmod]
      intro c hc hw
      rw [hw, (tableWord hc).1]
      rfl

/-! ## The whole call -/

/-- A copy has been made. -/
structure Duplicated (src dst : Nat) (m : Machine) (g : Layout) (m' : Machine) (g' : Layout) :
    Prop where
  spaces : g'.spaces = insert dst g.spaces
  fresh : dst ∉ g.spaces
  reserved : ∀ f, g'.owner f = .reserved ↔ g.owner f = .reserved
  dstPage : ∀ v, g'.page dst v = (g.page src v).map sharePage
  srcPage : ∀ v, g'.page src v = (g.page src v).map sharePage
  otherPage : ∀ r v, r ≠ src → r ≠ dst → g'.page r v = g.page r v
  mem : ∀ f, g.owner f = .data → m'.mem f = m.mem f

/-- No copy has been made: every block has its old owner, and every page its old block. -/
structure Undone (src : Nat) (m : Machine) (g : Layout) (m' : Machine) (g' : Layout) : Prop where
  spaces : g'.spaces = g.spaces
  owner : ∀ f, g'.owner f = g.owner f
  srcPage : ∀ v, g'.page src v = g.page src v ∨ g'.page src v = (g.page src v).map sharePage
  otherPage : ∀ r v, r ≠ src → r ∈ g.spaces → g'.page r v = g.page r v
  mem : ∀ f, g.owner f = .data → m'.mem f = m.mem f

lemma Inv.owner_eq (h : Inv cfg m g) (h' : Inv cfg m' g') (hspaces : g'.spaces = g.spaces)
    (hreserved : ∀ f, g'.owner f = .reserved ↔ g.owner f = .reserved)
    (htables : ∀ f r d b, g'.owner f = .table r d b ↔ g.owner f = .table r d b)
    (htarget : ∀ r ∈ g.spaces, ∀ v, (g'.page r v).map Prod.fst = (g.page r v).map Prod.fst)
    (f : Nat) : g'.owner f = g.owner f := by
  have hrefs : g'.refs f = g.refs f := by
    unfold refs holders
    rw [hspaces]
    refine Lib.RefCount.refs_congr f fun x hx => ?_
    rw [target, target, htarget x.1 (Finset.mem_product.1 hx).1]
  -- User data is what some page maps.
  have hdata : g'.owner f = .data ↔ g.owner f = .data := by
    constructor
    · intro hf
      by_contra hne
      have hpos := (h'.counts.data_ref hf).2
      have hzero := h.counts.refs_eq_zero hne
      omega
    · intro hf
      by_contra hne
      have hpos := (h.counts.data_ref hf).2
      have hzero := h'.counts.refs_eq_zero hne
      omega
  cases hf : g.owner f with
  | reserved => exact (hreserved f).2 hf
  | data => exact hdata.2 hf
  | table r d b => exact (htables f r d b).2 hf
  | free =>
    cases hf' : g'.owner f with
    | free => rfl
    | reserved =>
      rw [hreserved, hf] at hf'
      cases hf'
    | data =>
      rw [hdata, hf] at hf'
      cases hf'
    | table =>
      rw [htables, hf] at hf'
      cases hf'

lemma map_sharePage_fst (x : Option (Nat × Access)) :
    (x.map sharePage).map Prod.fst = x.map Prod.fst := by
  rw [Option.map_map]
  rfl

/-- `vmm_copy_p4` makes a copy, or returns `NULL` and has undone what it had done. -/
theorem copy_spec (h : Inv cfg m g) (hsrc : src ∈ g.spaces) :
    (∃ dst m' g', vmmCopyP4 cfg m (addr src) = (addr dst, m') ∧ addr dst ≠ 0 ∧ dst < 2 ^ 40 ∧
      Inv cfg m' g' ∧ Duplicated src dst m g m' g') ∨
    ∃ m' g', vmmCopyP4 cfg m (addr src) = (0, m') ∧ Inv cfg m' g' ∧ Undone src m g m' g' := by
  have hsrcRoot := (h.tables.root src).1 hsrc
  rcases h.alloc with ⟨-, halloc⟩ | ⟨dst, hfree, haddr, halloc, hfresh⟩
  · refine .inr ⟨m, g, by simp [vmmCopyP4, halloc], h, ⟨rfl, fun _ => rfl, fun _ => .inl rfl,
      fun _ _ _ _ => rfl, fun _ _ => rfl⟩⟩
  have hlt := hfresh.lt
  have hnotin : dst ∉ g.spaces := by
    intro hin
    rw [(h.tables.root dst).1 hin] at hfree
    cases hfree
  have hne : src ≠ dst := fun heq => hnotin (heq ▸ hsrc)
  -- The new PML4, cleared, is an address space without pages.
  have hzero := hfresh.setPage fun _ => 0
  have hmem0 : ((m.take dst).setPage (addr dst) fun _ => 0).mem =
      update m.mem dst fun _ => 0 := by rw [setPage_addr _ hlt]
  have hroot := hzero.newRoot (fun i _ _ => by rw [hmem0]; simp [has])
  have hother : ∀ {f}, f ≠ dst → (g.newRoot dst).owner f = g.owner f := by
    intro f hf
    exact (setOwner_owner_of_ne _ _ hf).trans (setOwner_owner_of_ne _ _ hf)
  have hself : (g.newRoot dst).owner dst = .table dst 0 0 :=
    setOwner_owner_self _ _ _
  have hnotable : ∀ {f d b}, (g.newRoot dst).owner f ≠
      .table dst (d + 1) b := by
    intro f d b hf
    by_cases hfd : f = dst
    · subst hfd
      rw [hself] at hf
      cases hf
    · rw [hother hfd] at hf
      exact hnotin (h.tables.mem_spaces hf)
  have hvacant : Vacant (g.newRoot dst) dst 1 0 512 := by
    refine ⟨fun f d b hb hf => ?_, fun v _ => ?_⟩
    · cases d with
      | zero => exact absurd hb.1 (by omega)
      | succ => exact hnotable hf
    · exact hroot.tables.page_none_of_no_table fun _ => hnotable
  have hpost := copyP4_spec hroot hne (by rw [hother hne]; exact hsrcRoot) hself hvacant
  -- Blocks of user data are not the new PML4.
  have hdata0 : ∀ {f}, g.owner f = .data → f ≠ dst := by
    rintro f hf rfl
    rw [hfree] at hf
    cases hf
  have hkeep0 : ∀ f, g.owner f = .data → ((m.take dst).setPage
      (addr dst) fun _ => 0).mem f = m.mem f := by
    intro f hf
    rw [hmem0]
    simp [hdata0 hf]
  have hreserved0 : ∀ f, (g.newRoot dst).owner f = .reserved ↔
      g.owner f = .reserved := by
    intro f
    by_cases hfd : f = dst
    · subst hfd
      rw [hself, hfree]
      simp
    · rw [hother hfd]
  cases hres : copyP4 cfg (addr src) (addr dst)
      ((m.take dst).setPage (addr dst) fun _ => 0) with
  | mk ok m1 =>
    rw [hres] at hpost
    cases ok with
    | true =>
      obtain ⟨g1, hinv, hcopied⟩ := hpost.1 rfl
      have hforked := hcopied.forked
      have hall : ∀ v, Below 1 0 512 4 v ∨ UserPrefix 4 v → Below 1 0 512 4 v := by
        rintro v (hb | hu)
        · exact hb
        · refine ⟨by omega, Nat.zero_le _, ?_⟩
          have hlt' : v / 512 ^ 3 < 256 := hu.2
          exact lt_trans hlt' (by omega)
      have hout : ∀ v, ¬ Below 1 0 512 4 v → g.page src v = none := by
        intro v hv
        cases hx : g.page src v with
        | none => rfl
        | some =>
          exact absurd (hall v (.inr (mem_userPages.1
            (Finset.mem_product.1 (h.tables.page_holder hx)).2))) hv
      refine .inl ⟨dst, m1, g1, ?_, haddr, hlt, hinv, ⟨?_, hnotin, ?_, ?_, ?_, ?_, ?_⟩⟩
      · simp only [vmmCopyP4, halloc, if_neg haddr, memset, hres]
      · rw [hforked.spaces]
        rfl
      · exact fun f => (hforked.reserved f).trans (hreserved0 f)
      · intro v
        by_cases hv : Below 1 0 512 4 v
        · exact hcopied.dstIn v hv
        · rw [hcopied.dstOut v hv, hout v hv]
          exact hroot.tables.page_none_of_no_table fun _ => hnotable
      · intro v
        by_cases hv : Below 1 0 512 4 v
        · exact hcopied.srcIn v hv
        · rw [hcopied.srcOut v hv, hout v hv]
          exact hout v hv
      · exact fun r v h1 h2 => hforked.other r v h1 h2
      · intro f hf
        rw [hforked.mem f (by rw [hother (hdata0 hf)]; exact hf)]
        exact hkeep0 f hf
    | false =>
      obtain ⟨g1, hinv, hforked⟩ := hpost.2 rfl
      have hin : dst ∈ g1.spaces := by
        rw [hforked.spaces]
        exact Finset.mem_insert_self _ _
      obtain ⟨g2, hinv2, hdest⟩ := destroy_spec hinv hin
      have hspaces : g2.spaces = g.spaces := by
        rw [hdest.spaces, hforked.spaces]
        exact Finset.erase_insert hnotin
      have htables : ∀ f r d b, g2.owner f = .table r d b ↔ g.owner f = .table r d b := by
        intro f r d b
        by_cases hr : r = dst
        · subst hr
          constructor
          · intro hf
            exact absurd (hspaces ▸ hinv2.tables.mem_spaces hf) hnotin
          · intro hf
            exact absurd (h.tables.mem_spaces hf) hnotin
        · rw [hdest.tables f r d b hr, hforked.tables f r d b hr]
          by_cases hfd : f = dst
          · subst hfd
            rw [hself, hfree]
            constructor
            · exact fun hc => absurd (Owner.table.inj hc).1.symm hr
            · simp
          · rw [hother hfd]
      have hreserved : ∀ f, g2.owner f = .reserved ↔ g.owner f = .reserved := by
        intro f
        by_cases hboot : f = cfg.p4Block
        · -- The boot PML4 is reserved or a root, and the roots are the same.
          subst hboot
          have hb := h.counts.boot
          have hb2 := hinv2.counts.boot
          rw [htables] at hb2
          constructor
          · intro hf
            refine hb.resolve_right fun hc => ?_
            rw [(htables _ _ _ _).2 hc] at hf
            cases hf
          · intro hf
            refine hb2.resolve_right fun hc => ?_
            rw [hf] at hc
            cases hc
        · rw [hdest.reserved f hboot, hforked.reserved]
          exact hreserved0 f
      have hpage : ∀ r v, r ≠ dst → g2.page r v = g1.page r v := hdest.page
      have htarget : ∀ r ∈ g.spaces, ∀ v,
          (g2.page r v).map Prod.fst = (g.page r v).map Prod.fst := by
        intro r hr v
        have hrd : r ≠ dst := fun heq => hnotin (heq ▸ hr)
        rw [hpage r v hrd]
        by_cases hrs : r = src
        · subst hrs
          rcases hforked.src v with heq | heq
          · rw [heq]
            rfl
          · rw [heq, map_sharePage_fst]
            rfl
        · rw [hforked.other r v hrs hrd]
          rfl
      refine .inr ⟨_, g2, ?_, hinv2, ⟨hspaces,
        h.owner_eq hinv2 hspaces hreserved htables htarget, ?_, ?_, ?_⟩⟩
      · simp only [vmmCopyP4, halloc, if_neg haddr, memset, hres]
      · intro v
        rw [hpage src v hne]
        exact hforked.src v
      · intro r v hrs hr
        have hrd : r ≠ dst := fun heq => hnotin (heq ▸ hr)
        rw [hpage r v hrd]
        exact hforked.other r v hrs hrd
      · intro f hf
        have hf0 : (g.newRoot dst).owner f = .data := by
          rw [hother (hdata0 hf)]
          exact hf
        rw [hdest.mem f (by rw [hforked.data f hf0]; simp), hforked.mem f hf0]
        exact hkeep0 f hf

end AosKernel.Memory
