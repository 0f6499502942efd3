import AosKernel.Memory.Layout

/-!
# Blocks and their references

`Counts` says that the allocator agrees with a layout: a block is free exactly when nobody owns it,
a table has one reference, and a block of user data has as many references as pages map it, only one
if a page may write to it. There is one lemma for each elementary change: a block is taken or given
back or changes its use, or one page is changed.
-/

namespace AosKernel.Memory

open Lib Function Layout

/-- The allocator agrees with the layout. `p4` is the block of the boot PML4, which does not come
from the allocator. -/
structure Counts (p4 : Nat) (p : Pmm) (g : Layout) : Prop where
  pmm : p.Wf
  free_iff : ∀ f, g.owner f = .free ↔ f ∈ p.free
  lt_total : ∀ {f}, g.owner f ≠ .reserved → f < p.totalBlocks
  zero : g.owner 0 = .reserved
  boot : g.owner p4 = .reserved ∨ g.owner p4 = .table p4 0 0
  table_ref : ∀ {f r d b}, g.owner f = .table r d b → f ≠ p4 → p.refcounts f = 1
  page_data : ∀ {r v f a}, g.page r v = some (f, a) →
    g.owner f = .data ∧ (a = .writable → g.refs f = 1)
  data_ref : ∀ {f}, g.owner f = .data → p.refcounts f = g.refs f ∧ 0 < g.refs f

/-- What `Counts` says about one block. -/
structure CountsAt (p4 : Nat) (p : Pmm) (g : Layout) (f : Nat) : Prop where
  free_iff : g.owner f = .free ↔ f ∈ p.free
  lt_total : g.owner f ≠ .reserved → f < p.totalBlocks
  zero : f = 0 → g.owner f = .reserved
  boot : f = p4 → g.owner f = .reserved ∨ g.owner f = .table p4 0 0
  table_ref : ∀ {r d b}, g.owner f = .table r d b → f ≠ p4 → p.refcounts f = 1
  page_data : ∀ {r v a}, g.page r v = some (f, a) →
    g.owner f = .data ∧ (a = .writable → g.refs f = 1)
  data_ref : g.owner f = .data → p.refcounts f = g.refs f ∧ 0 < g.refs f

/-- Nothing that `Counts` says about a block is different. -/
structure SameAt (p : Pmm) (g : Layout) (p' : Pmm) (g' : Layout) (f : Nat) : Prop where
  owner : g'.owner f = g.owner f
  free : f ∈ p'.free ↔ f ∈ p.free
  refcount : p'.refcounts f = p.refcounts f
  refs : g'.refs f = g.refs f
  page : ∀ {r v a}, g'.page r v = some (f, a) → g.page r v = some (f, a)

namespace Layout

lemma refs_setPage {g : Layout} {r v : Nat} (hx : (r, v) ∈ g.holders)
    (x : Option (Nat × Access)) (f : Nat) :
    (g.setPage r v x).refs f + (if (g.page r v).map Prod.fst = some f then 1 else 0) =
      g.refs f + (if x.map Prod.fst = some f then 1 else 0) := by
  have hother : ∀ y ∈ g.holders, y ≠ (r, v) → (g.setPage r v x).target y = g.target y := by
    intro y _ hne
    unfold target
    rw [setPage_page_of_ne]
    rintro ⟨h1, h2⟩
    exact hne (Prod.ext h1 h2)
  have h := RefCount.refs_update hx f hother
  rw [show (g.setPage r v x).target (r, v) = x.map Prod.fst by
    rw [target, setPage_page_self]] at h
  exact h

/-- The layout after the page of `r` at `v`, which maps `f`, is gone. -/
def dropPage (g : Layout) (r v f : Nat) : Layout :=
  if g.refs f = 1 then (g.setPage r v none).setOwner f .free else g.setPage r v none

variable (g : Layout)

@[simp] lemma dropPage_spaces (r v f : Nat) : (g.dropPage r v f).spaces = g.spaces := by
  unfold dropPage
  split <;> rfl

@[simp] lemma dropPage_page (r v f : Nat) :
    (g.dropPage r v f).page = (g.setPage r v none).page := by
  unfold dropPage
  split <;> rfl

lemma dropPage_owner_of_ne {r v f x : Nat} (h : x ≠ f) :
    (g.dropPage r v f).owner x = g.owner x := by
  unfold dropPage
  split
  · exact setOwner_owner_of_ne _ _ h
  · rfl

end Layout

namespace Counts

variable {p4 : Nat} {p : Pmm} {g : Layout} {f : Nat}

section

variable (h : Counts p4 p g)
include h

lemma lt (hf : g.owner f ≠ .reserved) : f < 2 ^ 40 := by
  have h1 := h.lt_total hf
  have h2 := h.pmm.total_le
  unfold maxBlocks at h2
  omega

lemma used (hf : g.owner f ≠ .reserved) (hf' : g.owner f ≠ .free) : p.bitmap f = true := by
  by_contra hbit
  exact hf' ((h.free_iff f).2 (Pmm.mem_free.2 ⟨h.lt_total hf, Bool.eq_false_of_not_eq_true hbit⟩))

lemma ne_boot_of_ne (hf : g.owner f ≠ .reserved) (hf' : (g.owner f).Plain) : f ≠ p4 := by
  rintro rfl
  rcases h.boot with hb | hb
  · exact hf hb
  · exact hf' _ _ _ hb

lemma ne_zero (hf : g.owner f ≠ .reserved) : f ≠ 0 := by
  rintro rfl
  exact hf h.zero

lemma refs_eq_zero (hf : g.owner f ≠ .data) : g.refs f = 0 := by
  refine RefCount.refs_eq_zero_iff.2 fun x _ hx => hf ?_
  obtain ⟨y, hy, rfl⟩ := Option.map_eq_some_iff.1 hx
  exact (h.page_data (a := y.2) hy).1

lemma change {p' : Pmm} {g' : Layout} (hpmm : p'.Wf) (htotal : p'.totalBlocks = p.totalBlocks)
    (hother : ∀ x, x ≠ f → SameAt p g p' g' x) (hself : CountsAt p4 p' g' f) : Counts p4 p' g' := by
  have hat : ∀ x, CountsAt p4 p' g' x := by
    intro x
    by_cases hx : x = f
    · rw [hx]
      exact hself
    obtain ⟨howner, hfree, hrc, hrefs, hpage⟩ := hother x hx
    refine ⟨?_, ?_, ?_, ?_, ?_, ?_, ?_⟩ <;> simp only [howner, hfree, hrc, hrefs, htotal]
    · exact h.free_iff x
    · exact h.lt_total
    · rintro rfl
      exact h.zero
    · rintro rfl
      exact h.boot
    · exact h.table_ref
    · exact fun hp => h.page_data (hpage hp)
    · exact h.data_ref
  exact ⟨hpmm, fun x => (hat x).free_iff, (hat _).lt_total, (hat 0).zero rfl, (hat p4).boot rfl,
    (hat _).table_ref, (hat _).page_data, (hat _).data_ref⟩

/-- The owner of one block changes, not between free and used, and not to or from user data. -/
theorem setOwner {o : Owner} (hfree : g.owner f ≠ .free) (hfree' : o ≠ .free)
    (hdata : g.owner f ≠ .data) (hdata' : o ≠ .data) (h0 : f ≠ 0)
    (htotal : o ≠ .reserved → f < p.totalBlocks)
    (hboot : f = p4 → o = .reserved ∨ o = .table p4 0 0)
    (hrc : ∀ r d b, o = .table r d b → f ≠ p4 → p.refcounts f = 1) :
    Counts p4 p (g.setOwner f o) := by
  refine h.change h.pmm rfl (fun x hx => ⟨setOwner_owner_of_ne _ _ hx, Iff.rfl, rfl, rfl,
    id⟩) ⟨?_, ?_, fun h => absurd h h0, ?_, ?_, fun hp => absurd (h.page_data hp).1 hdata, ?_⟩
  all_goals rw [setOwner_owner_self]
  · rw [← h.free_iff]
    exact ⟨fun h' => absurd h' hfree', fun h' => absurd h' hfree⟩
  · exact htotal
  · exact hboot
  · exact hrc _ _ _
  · exact fun h' => absurd h' hdata'

theorem take (hf : f ∈ p.free) : Counts p4 (p.take f) (g.setOwner f .reserved) := by
  have hfree : g.owner f = .free := (h.free_iff f).2 hf
  have hunmapped : ∀ {r v a}, g.page r v ≠ some (f, a) := by
    intro r v a hp
    have hdata := (h.page_data hp).1
    rw [hfree] at hdata
    cases hdata
  refine h.change (h.pmm.take hf) rfl (fun x hx => ⟨setOwner_owner_of_ne _ _ hx, ?_, ?_, rfl,
    id⟩) ⟨?_, ?_, ?_, ?_, ?_, fun hp => absurd hp hunmapped, ?_⟩
  · rw [Pmm.take_free, Finset.mem_erase]
    exact and_iff_right hx
  · simp [Pmm.take, hx]
  all_goals simp [Pmm.take_free]

/-- The last reference to a block is dropped, and with it the page that may have mapped it. -/
theorem release {g' : Layout} (hf : g.owner f ≠ .reserved) (hf' : g.owner f ≠ .free)
    (hboot : f ≠ p4) (howner : g'.owner = (g.setOwner f .free).owner)
    (hpage : ∀ {r v f' a}, g'.page r v = some (f', a) → f' ≠ f ∧ g.page r v = some (f', a))
    (hrefs : ∀ x, x ≠ f → g'.refs x = g.refs x) : Counts p4 (p.release f) g' := by
  have hlt := h.lt_total hf
  have hself : g'.owner f = .free := by
    rw [howner]
    exact setOwner_owner_self _ _ _
  refine h.change (h.pmm.release hlt (h.used hf hf') (h.ne_zero hf)) rfl (fun x hx => ⟨?_, ?_, ?_,
    hrefs x hx, fun hp => (hpage hp).2⟩) ⟨?_, fun _ => hlt, fun h0 => absurd h0 (h.ne_zero hf),
    fun hb => absurd hb hboot, ?_, fun hp => absurd rfl (hpage hp).1, ?_⟩
  · rw [howner]
    exact setOwner_owner_of_ne _ _ hx
  · rw [Pmm.release_free hlt, Finset.mem_insert]
    exact or_iff_right hx
  · simp [Pmm.release, hx]
  all_goals simp [hself, Pmm.release_free hlt]

end

variable {r v : Nat}

theorem addFresh (h : Counts p4 p g) (a : Access) (hx : (r, v) ∈ g.holders)
    (hnone : g.page r v = none) (hf : g.owner f = .reserved) (hlt : f < p.totalBlocks)
    (hused : p.bitmap f = true) (hrc : p.refcounts f = 1) (h0 : f ≠ 0) (hboot : f ≠ p4) :
    Counts p4 p ((g.setPage r v (some (f, a))).setOwner f .data) := by
  have hzero : g.refs f = 0 := h.refs_eq_zero (by simp [hf])
  have hrefs : ∀ x, (g.setPage r v (some (f, a))).refs x = if x = f then 1 else g.refs x := by
    intro x
    have hmove := refs_setPage hx (some (f, a)) x
    rw [hnone] at hmove
    simp only [Option.map_none, reduceCtorEq, if_false, Option.map_some, Option.some.injEq] at hmove
    by_cases hxf : x = f
    · subst hxf
      rw [if_pos rfl] at hmove ⊢
      omega
    · rw [if_neg (Ne.symm hxf)] at hmove
      rw [if_neg hxf]
      omega
  have hpage : ∀ {r' v' f' a'}, (g.setPage r v (some (f, a))).page r' v' = some (f', a') →
      f' = f ∨ g.page r' v' = some (f', a') := by
    intro r' v' f' a' hx'
    by_cases hslot : r' = r ∧ v' = v
    · obtain ⟨rfl, rfl⟩ := hslot
      rw [setPage_page_self] at hx'
      cases hx'
      exact .inl rfl
    · rw [setPage_page_of_ne _ _ hslot] at hx'
      exact .inr hx'
  refine h.change h.pmm rfl (fun x hx => ⟨setOwner_owner_of_ne _ _ hx, Iff.rfl, rfl, ?_,
    fun hp => (hpage hp).resolve_left hx⟩) ⟨?_, fun _ => hlt, fun h => absurd h h0,
    fun h => absurd h hboot, ?_, ?_, ?_⟩
  · rw [setOwner_refs, hrefs, if_neg hx]
  · simp [Pmm.mem_free, hused]
  · simp
  · simp [hrefs]
  · simp [hrefs, hrc]

/-- The pages change without a change of owners: the counts have to follow. -/
lemma setPages (h : Counts p4 p g) {g' : Layout} {p' : Pmm} (howner : g'.owner = g.owner)
    (hpmm : p'.Wf) (hfree : p'.free = p.free) (htotal : p'.totalBlocks = p.totalBlocks)
    (hrc : ∀ f, g.owner f ≠ .data → p'.refcounts f = p.refcounts f)
    (hpage : ∀ {r v f a}, g'.page r v = some (f, a) →
      g.owner f = .data ∧ (a = .writable → g'.refs f = 1))
    (hdata : ∀ {f}, g.owner f = .data → p'.refcounts f = g'.refs f ∧ 0 < g'.refs f) :
    Counts p4 p' g' := by
  refine ⟨hpmm, ?_, ?_, ?_, ?_, ?_, ?_, ?_⟩
  · intro f
    rw [howner, hfree]
    exact h.free_iff f
  · intro f hf
    rw [howner] at hf
    rw [htotal]
    exact h.lt_total hf
  · rw [howner]
    exact h.zero
  · rw [howner]
    exact h.boot
  · intro f r d b hf hne
    rw [howner] at hf
    rw [hrc f (by simp [hf])]
    exact h.table_ref hf hne
  · intro r v f a hx
    rw [howner]
    exact hpage hx
  · intro f hf
    rw [howner] at hf
    exact hdata hf

variable {a : Access}

theorem setAccess (h : Counts p4 p g) {a' : Access} (hx : (r, v) ∈ g.holders)
    (hpage : g.page r v = some (f, a)) (ha : a' = .writable → g.refs f = 1) :
    Counts p4 p (g.setPage r v (some (f, a'))) := by
  have hrefs : ∀ x, (g.setPage r v (some (f, a'))).refs x = g.refs x := by
    intro x
    have hmove := refs_setPage hx (some (f, a')) x
    rw [hpage] at hmove
    simp only [Option.map_some] at hmove
    omega
  refine h.setPages rfl h.pmm rfl rfl (fun _ _ => rfl) ?_ ?_
  · intro r' v' f' b hx'
    rw [hrefs]
    by_cases hslot : r' = r ∧ v' = v
    · obtain ⟨rfl, rfl⟩ := hslot
      rw [setPage_page_self] at hx'
      cases hx'
      exact ⟨(h.page_data hpage).1, ha⟩
    · rw [setPage_page_of_ne _ _ hslot] at hx'
      exact h.page_data hx'
  · intro x hx'
    rw [hrefs]
    exact h.data_ref hx'

theorem addShared (h : Counts p4 p g) (hx : (r, v) ∈ g.holders) (hnone : g.page r v = none)
    (hf : g.owner f = .data) (ha : a ≠ .writable)
    (hother : ∀ r' v' a', g.page r' v' = some (f, a') → a' ≠ .writable) :
    Counts p4 (p.setRefcount f (p.refcounts f + 1)) (g.setPage r v (some (f, a))) := by
  have hrefs : ∀ x, (g.setPage r v (some (f, a))).refs x =
      g.refs x + if f = x then 1 else 0 := by
    intro x
    have hmove := refs_setPage hx (some (f, a)) x
    rw [hnone] at hmove
    simp only [Option.map_none, reduceCtorEq, if_false, Option.map_some, Option.some.injEq] at hmove
    exact hmove
  have hcount : ∀ x, x ≠ f → (p.setRefcount f (p.refcounts f + 1)).refcounts x = p.refcounts x := by
    intro x hne
    simp [Pmm.setRefcount, hne]
  refine h.setPages rfl (h.pmm.setRefcount _) rfl rfl ?_ ?_ ?_
  · intro x hx'
    exact hcount x (fun heq => hx' (heq ▸ hf))
  · intro r' v' f' b hx'
    by_cases hslot : r' = r ∧ v' = v
    · obtain ⟨rfl, rfl⟩ := hslot
      rw [setPage_page_self] at hx'
      cases hx'
      exact ⟨hf, fun hb => absurd hb ha⟩
    · rw [setPage_page_of_ne _ _ hslot] at hx'
      refine ⟨(h.page_data hx').1, fun hb => ?_⟩
      have hff : f ≠ f' := by
        rintro rfl
        exact hother r' v' b hx' hb
      rw [hrefs, if_neg hff]
      exact (h.page_data hx').2 hb
  · intro x hx'
    have hd := h.data_ref hx'
    rw [hrefs]
    by_cases hxf : f = x
    · subst hxf
      simp [Pmm.setRefcount, hd.1]
    · rw [hcount x (Ne.symm hxf), if_neg hxf]
      exact hd

theorem dropPage (h : Counts p4 p g) (hholder : ∀ {r v x}, g.page r v = some x → (r, v) ∈ g.holders)
    (hpage : g.page r v = some (f, a)) :
    Counts p4 (pmmFreeBlock p (addr f)) (g.dropPage r v f) := by
  have hdata := (h.page_data hpage).1
  have hne : g.owner f ≠ .reserved := by simp [hdata]
  have hne' : g.owner f ≠ .free := by simp [hdata]
  have hrc := h.data_ref hdata
  have hrefs : ∀ x, (g.setPage r v none).refs x + (if f = x then 1 else 0) = g.refs x := by
    intro x
    have hmove := Layout.refs_setPage (hholder hpage) none x
    rw [hpage] at hmove
    simpa using hmove
  have hpages : ∀ {r' v' f' a'}, (g.setPage r v none).page r' v' = some (f', a') →
      g.page r' v' = some (f', a') ∧ ¬ (r' = r ∧ v' = v) := by
    intro r' v' f' a' hx'
    by_cases hslot : r' = r ∧ v' = v
    · obtain ⟨rfl, rfl⟩ := hslot
      exact absurd hx' (by simp)
    · rw [Layout.setPage_page_of_ne _ _ hslot] at hx'
      exact ⟨hx', hslot⟩
  rw [pmmFreeBlock_addr h.pmm (h.lt_total hne) (h.used hne hne') (by omega), hrc.1]
  unfold Layout.dropPage
  by_cases hone : g.refs f = 1
  · rw [if_neg (by omega), if_pos hone]
    refine h.release hne hne' (h.ne_boot_of_ne hne (by rw [hdata]; simp)) rfl ?_ ?_
    · intro r' v' f' a' hx'
      obtain ⟨hx'', hslot⟩ := hpages hx'
      refine ⟨?_, hx''⟩
      rintro rfl
      -- The only page that maps `f` is the one that goes away.
      have hsame := RefCount.eq_of_refs_eq_one hone (hholder hx'') (hholder hpage)
        (by simp [Layout.target, hx'']) (by simp [Layout.target, hpage])
      exact hslot (Prod.mk.inj hsame)
    · intro x hxf
      have hmove := hrefs x
      rw [if_neg (Ne.symm hxf)] at hmove
      exact hmove
  · rw [if_pos (by omega), if_neg hone]
    refine h.setPages rfl (h.pmm.setRefcount _) rfl rfl ?_ ?_ ?_
    · intro x hx'
      have hxf : x ≠ f := fun heq => hx' (heq ▸ hdata)
      simp [Pmm.setRefcount, hxf]
    · intro r' v' f' b hx'
      obtain ⟨hx'', -⟩ := hpages hx'
      refine ⟨(h.page_data hx'').1, fun hb => ?_⟩
      have hone' := (h.page_data hx'').2 hb
      have hff : f ≠ f' := by
        rintro rfl
        exact hone hone'
      have hmove := hrefs f'
      rw [if_neg hff] at hmove
      omega
    · intro x hx'
      have hd := h.data_ref hx'
      have hmove := hrefs x
      by_cases hxf : f = x
      · subst hxf
        rw [if_pos rfl] at hmove
        simp only [Pmm.setRefcount, update_self]
        omega
      · rw [if_neg hxf] at hmove
        simp only [Pmm.setRefcount, update_of_ne (Ne.symm hxf)]
        omega

lemma setSpaces (h : Counts p4 p g) {spaces : Finset Nat}
    (hrefs : ∀ f, refs { g with spaces := spaces } f = g.refs f) :
    Counts p4 p { g with spaces := spaces } :=
  h.setPages rfl h.pmm rfl rfl (fun _ _ => rfl)
    (fun {r v f a} hx => by rw [hrefs f]; exact h.page_data (r := r) (v := v) hx)
    (fun {f} hf => by rw [hrefs f]; exact h.data_ref hf)

end Counts

lemma Layout.refs_setSpaces {g : Layout} {s s' : Finset Nat} (hsub : s ⊆ s')
    (hnone : ∀ r ∈ s', r ∉ s → ∀ v, g.page r v = none) (f : Nat) :
    refs { g with spaces := s' } f = refs { g with spaces := s } f := by
  refine RefCount.refs_of_subset (Finset.product_subset_product_left hsub) f ?_
  rintro ⟨r, v⟩ hx hnot
  obtain ⟨hr, hv⟩ := Finset.mem_product.1 hx
  have hr' : r ∉ s := fun hr' => hnot (Finset.mem_product.2 ⟨hr', hv⟩)
  show (g.page r v).map Prod.fst = none
  rw [hnone r hr hr' v]
  rfl

end AosKernel.Memory
