import AosKernel.Lib.RefCount
import AosKernel.Memory.Vmm

/-!
# Who owns each block

A `Layout` is the abstract side of `vmm.c`: the live address spaces, the owner of every block, and
for each address space the partial map from user pages to blocks. The tables of an address space
form a tree of depth three below its PML4; the table at depth `d` with prefix `b` translates the
pages whose first `d` digits in base 512 are `b`, so an owner `table r d b` names one place of one
tree.

`Tables` says that physical memory holds these trees and maps. It is a local statement, and has one
lemma for each elementary change: linking and unlinking a table, adding and removing a root, and
changing one page.
-/

namespace AosKernel.Memory

open Lib Function

/-- The owner of a block. A reserved block is used by something that is not a user page table: the
kernel, or nobody. -/
inductive Owner where
  | free
  | reserved
  | data
  | table (root depth pre : Nat)
  deriving DecidableEq

/-- Prefixes of user pages, by their number of digits: the PML4 index is in `[2, 256)`. -/
def UserPrefix : Nat → Nat → Prop
  | 0, b => b = 0
  | d + 1, b => 2 ≤ b / 512 ^ d ∧ b / 512 ^ d < 256

def userPages : Finset Nat := Finset.Ico (2 * 512 ^ 3) (256 * 512 ^ 3)

lemma mem_userPages {v : Nat} : v ∈ userPages ↔ UserPrefix 4 v := by
  simp only [userPages, Finset.mem_Ico, UserPrefix]
  constructor
  · rintro ⟨h1, h2⟩
    exact ⟨by omega, by omega⟩
  · rintro ⟨h1, h2⟩
    exact ⟨by omega, by omega⟩

variable {i : Nat}

lemma digits_div (b : Nat) (hi : i < 512) : (b * 512 + i) / 512 = b := by omega

lemma digits_mod (b : Nat) (hi : i < 512) : (b * 512 + i) % 512 = i := by omega

lemma digits_eq (v : Nat) : v / 512 * 512 + v % 512 = v := by omega

/-- Below the PML4, every entry of a user table has a user prefix. -/
lemma userPrefix_child {d b : Nat} (hi : i < 512) :
    UserPrefix (d + 2) (b * 512 + i) ↔ UserPrefix (d + 1) b := by
  have h : (b * 512 + i) / 512 ^ (d + 1) = b / 512 ^ d := by
    rw [Nat.pow_succ', ← Nat.div_div_eq_div_mul]
    congr 1
    omega
  simp only [UserPrefix, h]

lemma userPrefix_div {d b : Nat} : UserPrefix (d + 2) b ↔ UserPrefix (d + 1) (b / 512) := by
  have h := userPrefix_child (d := d) (b := b / 512) (Nat.mod_lt b (by omega : 0 < 512))
  rwa [digits_eq] at h

structure Layout where
  spaces : Finset Nat
  owner : Nat → Owner
  page : Nat → Nat → Option (Nat × Access)

namespace Layout

def target (g : Layout) (x : Nat × Nat) : Option Nat := (g.page x.1 x.2).map Prod.fst

/-- The pages that can hold a reference. -/
def holders (g : Layout) : Finset (Nat × Nat) := g.spaces ×ˢ userPages

/-- The number of user pages of live address spaces mapped to block `f`. -/
def refs (g : Layout) (f : Nat) : Nat := RefCount.refs g.holders g.target f

def setOwner (g : Layout) (f : Nat) (o : Owner) : Layout :=
  { g with owner := update g.owner f o }

def setPage (g : Layout) (r v : Nat) (x : Option (Nat × Access)) : Layout :=
  { g with page := update g.page r (update (g.page r) v x) }

variable (g : Layout) (f : Nat)

@[simp] lemma setOwner_spaces (o : Owner) : (g.setOwner f o).spaces = g.spaces := rfl
@[simp] lemma setOwner_page (o : Owner) : (g.setOwner f o).page = g.page := rfl
@[simp] lemma setOwner_owner_self (o : Owner) : (g.setOwner f o).owner f = o := by simp [setOwner]
lemma setOwner_owner_of_ne {f f' : Nat} (o : Owner) (h : f' ≠ f) :
    (g.setOwner f o).owner f' = g.owner f' := by simp [setOwner, h]
@[simp] lemma setOwner_refs (o : Owner) : (g.setOwner f o).refs = g.refs := rfl

@[simp] lemma setPage_owner (r v : Nat) (x : Option (Nat × Access)) :
    (g.setPage r v x).owner = g.owner := rfl
@[simp] lemma setPage_page_self (r v : Nat) (x : Option (Nat × Access)) :
    (g.setPage r v x).page r v = x := by simp [setPage]
lemma setPage_page_of_ne {r v r' v' : Nat} (x : Option (Nat × Access)) (h : ¬ (r' = r ∧ v' = v)) :
    (g.setPage r v x).page r' v' = g.page r' v' := by
  unfold setPage
  by_cases hr : r' = r
  · subst hr
    have hv : v' ≠ v := fun hv => h ⟨rfl, hv⟩
    simp [hv]
  · simp [hr]

def addRoot (g : Layout) (c : Nat) : Layout :=
  { g.setOwner c (.table c 0 0) with spaces := insert c g.spaces }

/-- The layout without the address space `r`, whose PML4 gets the owner `o`. -/
def dropRoot (g : Layout) (r : Nat) (o : Owner) : Layout :=
  { g.setOwner r o with spaces := g.spaces.erase r }

end Layout

def writeWord (mem : Nat → Nat → UInt64) (t i : Nat) (w : UInt64) : Nat → Nat → UInt64 :=
  update mem t (update (mem t) i w)

variable (mem : Nat → Nat → UInt64)

lemma writeWord_self (t i : Nat) (w : UInt64) : writeWord mem t i w t i = w := by simp [writeWord]

lemma writeWord_of_ne {t t' i' : Nat} (w : UInt64) (h : ¬ (t' = t ∧ i' = i)) :
    writeWord mem t i w t' i' = mem t' i' := by
  unfold writeWord
  by_cases ht : t' = t
  · subst ht
    have hi : i' ≠ i := fun hi => h ⟨rfl, hi⟩
    simp [hi]
  · simp [ht]

lemma writeWord_other {t t' : Nat} (i : Nat) (w : UInt64) (h : t' ≠ t) :
    writeWord mem t i w t' = mem t' := by simp [writeWord, h]

/-- The word of a page table for a page. -/
def Leaf (k : Fin 3) (w : UInt64) : Option (Nat × Access) → Prop
  | none => has w pagePresent = false
  | some (f, a) => w = addr f ||| a.flags k ∧ f < 2 ^ 40

lemma leaf_none (k : Fin 3) : Leaf k 0 none := show has 0 pagePresent = false by decide

lemma leaf_some (k : Fin 3) {f : Nat} (a : Access) (hf : f < 2 ^ 40) :
    Leaf k (addr f ||| a.flags k) (some (f, a)) := ⟨rfl, hf⟩

lemma Leaf.present {k : Fin 3} {w : UInt64} {x : Option (Nat × Access)} (h : Leaf k w x) :
    has w pagePresent = x.isSome := by
  cases x with
  | none => exact h
  | some y =>
    obtain ⟨rfl, hlt⟩ := h
    rw [word_has (by decide) hlt (Access.flags_lt k y.2), Access.has_flags_present]
    rfl

def Owner.Plain (o : Owner) : Prop := ∀ r d b, o ≠ .table r d b

@[simp] lemma Owner.plain_free : Owner.free.Plain := by simp [Plain]
@[simp] lemma Owner.plain_reserved : Owner.reserved.Plain := by simp [Plain]
@[simp] lemma Owner.plain_data : Owner.data.Plain := by simp [Plain]

lemma Layout.setOwner_eq_table {g : Layout} {c f r d b : Nat} {o : Owner} :
    (g.setOwner c o).owner f = .table r d b ↔
      (f = c ∧ o = .table r d b) ∨ (f ≠ c ∧ g.owner f = .table r d b) := by
  by_cases hfc : f = c
  · subst hfc
    simp
  · rw [Layout.setOwner_owner_of_ne _ _ hfc]
    simp [hfc]

lemma Layout.setOwner_of_plain {g : Layout} {c : Nat} (o : Owner) (hc : (g.owner c).Plain)
    {f r d b : Nat} (hf : g.owner f = .table r d b) : (g.setOwner c o).owner f = .table r d b :=
  setOwner_eq_table.2 (.inr ⟨fun heq => hc r d b (heq ▸ hf), hf⟩)

lemma Layout.of_setOwner_plain {g : Layout} {c : Nat} {o : Owner} (ho : o.Plain) {f r d b : Nat}
    (hf : (g.setOwner c o).owner f = .table r d b) : f ≠ c ∧ g.owner f = .table r d b :=
  (setOwner_eq_table.1 hf).resolve_left fun h => ho r d b h.2

/-- Physical memory holds the tables of the layout. -/
structure Tables (k : Fin 3) (mem : Nat → Nat → UInt64) (g : Layout) : Prop where
  root : ∀ r, r ∈ g.spaces ↔ g.owner r = .table r 0 0
  root_eq : ∀ {f r b}, g.owner f = .table r 0 b → f = r
  shape : ∀ {f r d b}, g.owner f = .table r d b → d ≤ 3 ∧ UserPrefix d b ∧ f < 2 ^ 40
  down : ∀ {t r d b i}, g.owner t = .table r d b → d < 3 → i < 512 →
    UserPrefix (d + 1) (b * 512 + i) → has (mem t i) pagePresent = true →
    ∃ c, mem t i = addr c ||| tableFlags ∧ g.owner c = .table r (d + 1) (b * 512 + i)
  up : ∀ {c r d b}, g.owner c = .table r (d + 1) b →
    ∃ t, g.owner t = .table r d (b / 512) ∧ mem t (b % 512) = addr c ||| tableFlags
  leaf : ∀ {t r b i}, g.owner t = .table r 3 b → i < 512 → Leaf k (mem t i) (g.page r (b * 512 + i))
  page_table : ∀ {r v x}, g.page r v = some x → ∃ t, g.owner t = .table r 3 (v / 512)

/-! ## Words of tables -/

lemma tableFlags_lt : tableFlags < 4096 := by decide

lemma has_table_present {c : Nat} (hc : c < 2 ^ 40) :
    has (addr c ||| tableFlags) pagePresent = true := by
  rw [word_has (by decide) hc tableFlags_lt]
  decide

namespace Tables

variable {k : Fin 3} {mem : Nat → Nat → UInt64} {g : Layout} {r d b : Nat}

lemma lt (h : Tables k mem g) {f : Nat} (hf : g.owner f = .table r d b) : f < 2 ^ 40 :=
  (h.shape hf).2.2

lemma mem_spaces (h : Tables k mem g) : ∀ {d f r b}, g.owner f = .table r d b → r ∈ g.spaces := by
  intro d
  induction d with
  | zero =>
    intro f r b hf
    have hfr := h.root_eq hf
    have hb : b = 0 := (h.shape hf).2.1
    subst hfr hb
    exact (h.root f).2 hf
  | succ d ih =>
    intro f r b hf
    obtain ⟨t, ht, -⟩ := h.up hf
    exact ih ht

lemma owner_inj (h : Tables k mem g) :
    ∀ {d f f' r b}, g.owner f = .table r d b → g.owner f' = .table r d b → f = f' := by
  intro d
  induction d with
  | zero =>
    intro f f' r b hf hf'
    rw [h.root_eq hf, h.root_eq hf']
  | succ d ih =>
    intro f f' r b hf hf'
    obtain ⟨t, ht, hw⟩ := h.up hf
    obtain ⟨t', ht', hw'⟩ := h.up hf'
    have htt : t = t' := ih ht ht'
    subst htt
    -- Both blocks are the address in the same word of the common parent.
    have haddr : addr f = addr f' := by
      rw [← word_table (h.lt hf) tableFlags_lt, ← word_table (h.lt hf') tableFlags_lt, ← hw, ← hw']
    have h1 := h.lt hf
    have h2 := h.lt hf'
    exact addr_inj (by omega) (by omega) haddr

variable {c t : Nat}

lemma parent_present (h : Tables k mem g) (hc : g.owner c = .table r (d + 1) b)
    (ht : g.owner t = .table r d (b / 512)) : has (mem t (b % 512)) pagePresent = true := by
  obtain ⟨t', ht', hw⟩ := h.up hc
  have htt := h.owner_inj ht ht'
  subst htt
  rw [hw]
  exact has_table_present (h.lt hc)

variable {v : Nat}

section

variable (h : Tables k mem g)
include h

lemma holder_of_table (ht : g.owner t = .table r 3 (v / 512)) : (r, v) ∈ g.holders := by
  refine Finset.mem_product.2 ⟨h.mem_spaces ht, mem_userPages.2 ?_⟩
  exact userPrefix_div.2 (h.shape ht).2.1

lemma page_holder {x : Nat × Access} (hx : g.page r v = some x) : (r, v) ∈ g.holders := by
  obtain ⟨t, ht⟩ := h.page_table hx
  exact h.holder_of_table ht

lemma page_none_of_no_table (hno : ∀ t, g.owner t ≠ .table r 3 (v / 512)) :
    g.page r v = none := by
  cases hx : g.page r v with
  | none => rfl
  | some =>
    obtain ⟨t, ht⟩ := h.page_table hx
    exact absurd ht (hno t)

lemma congr_mem {mem' : Nat → Nat → UInt64}
    (hmem : ∀ f r d b, g.owner f = .table r d b → mem' f = mem f) : Tables k mem' g where
  root := h.root
  root_eq := h.root_eq
  shape := h.shape
  down ht hd hi hu hp := by
    rw [hmem _ _ _ _ ht] at hp ⊢
    exact h.down ht hd hi hu hp
  up hc := by
    obtain ⟨t, ht, hw⟩ := h.up hc
    exact ⟨t, ht, by rw [hmem _ _ _ _ ht]; exact hw⟩
  leaf ht hi := by
    rw [hmem _ _ _ _ ht]
    exact h.leaf ht hi
  page_table := h.page_table

lemma setOwner_plain {f : Nat} {o : Owner} (hf : (g.owner f).Plain) (ho : o.Plain) :
    Tables k mem (g.setOwner f o) := by
  have hiff : ∀ {f' r d b}, (g.setOwner f o).owner f' = .table r d b ↔ g.owner f' = .table r d b :=
    ⟨fun h' => (Layout.of_setOwner_plain ho h').2, Layout.setOwner_of_plain o hf⟩
  exact {
    root := fun r => by rw [hiff]; exact h.root r
    root_eq := fun h' => h.root_eq (hiff.1 h')
    shape := fun h' => h.shape (hiff.1 h')
    down := fun ht hd hi hu hp => by
      obtain ⟨c, hc, ho'⟩ := h.down (hiff.1 ht) hd hi hu hp
      exact ⟨c, hc, hiff.2 ho'⟩
    up := fun hc => by
      obtain ⟨t, ht, hw⟩ := h.up (hiff.1 hc)
      exact ⟨t, hiff.2 ht, hw⟩
    leaf := fun ht hi => h.leaf (hiff.1 ht) hi
    page_table := fun hx => by
      obtain ⟨t, ht⟩ := h.page_table hx
      exact ⟨t, hiff.2 ht⟩ }

theorem link {i : Nat} (ht : g.owner t = .table r d b) (hd : d < 3) (hi : i < 512)
    (hu : UserPrefix (d + 1) (b * 512 + i)) (hp : has (mem t i) pagePresent = false)
    (hc : (g.owner c).Plain) (hlt : c < 2 ^ 40) (hz : ∀ j, has (mem c j) pagePresent = false) :
    Tables k (writeWord mem t i (addr c ||| tableFlags))
      (g.setOwner c (.table r (d + 1) (b * 512 + i))) := by
  have hct : t ≠ c := fun heq => hc r d b (heq ▸ ht)
  have hdiv := digits_div b hi
  have hmod := digits_mod b hi
  -- No table was linked at this place, since its parent's entry was not present.
  have hfresh : ∀ c', g.owner c' ≠ .table r (d + 1) (b * 512 + i) := by
    intro c' hc'
    have hpres := h.parent_present hc' (t := t) (by rw [hdiv]; exact ht)
    rw [hmod, hp] at hpres
    exact Bool.noConfusion hpres
  have hold := @Layout.setOwner_of_plain g c (.table r (d + 1) (b * 512 + i)) hc
  refine ⟨?_, ?_, ?_, ?_, ?_, ?_, ?_⟩
  · intro r'
    rw [Layout.setOwner_spaces, h.root]
    refine ⟨fun h' => hold h', fun h' => ?_⟩
    rcases Layout.setOwner_eq_table.1 h' with ⟨-, ho⟩ | ⟨-, h''⟩
    · cases ho
    · exact h''
  · intro f r' b' hf
    rcases Layout.setOwner_eq_table.1 hf with ⟨-, ho⟩ | ⟨-, hf'⟩
    · cases ho
    · exact h.root_eq hf'
  · intro f r' d' b' hf
    rcases Layout.setOwner_eq_table.1 hf with ⟨rfl, ⟨⟩⟩ | ⟨-, hf'⟩
    · exact ⟨by omega, hu, hlt⟩
    · exact h.shape hf'
  · intro t' r' d' b' i' ht' hd' hi' hu' hp'
    rcases Layout.setOwner_eq_table.1 ht' with ⟨rfl, -⟩ | ⟨-, ht''⟩
    · rw [writeWord_other _ _ _ (Ne.symm hct), hz] at hp'
      exact Bool.noConfusion hp'
    by_cases hslot : t' = t ∧ i' = i
    · obtain ⟨rfl, rfl⟩ := hslot
      rw [ht] at ht''
      cases ht''
      exact ⟨c, writeWord_self _ _ _ _, Layout.setOwner_owner_self _ _ _⟩
    · rw [writeWord_of_ne _ _ hslot] at hp' ⊢
      obtain ⟨c', hc', ho'⟩ := h.down ht'' hd' hi' hu' hp'
      exact ⟨c', hc', hold ho'⟩
  · intro c' r' d' b' hc'
    rcases Layout.setOwner_eq_table.1 hc' with ⟨rfl, ⟨⟩⟩ | ⟨-, hc''⟩
    · refine ⟨t, ?_, ?_⟩
      · rw [hdiv]
        exact hold ht
      · rw [hmod]
        exact writeWord_self _ _ _ _
    · obtain ⟨t', ht', hw⟩ := h.up hc''
      refine ⟨t', hold ht', ?_⟩
      rw [writeWord_of_ne]
      · exact hw
      · rintro ⟨rfl, rfl⟩
        rw [hw, has_table_present (h.lt hc'')] at hp
        exact Bool.noConfusion hp
  · intro t' r' b' i' ht' hi'
    rcases Layout.setOwner_eq_table.1 ht' with ⟨rfl, ⟨⟩⟩ | ⟨-, ht''⟩
    · have hnone : g.page r ((b * 512 + i) * 512 + i') = none := by
        refine h.page_none_of_no_table fun t'' ht'' => hfresh t'' ?_
        rwa [digits_div _ hi'] at ht''
      rw [Layout.setOwner_page, hnone, writeWord_other _ _ _ (Ne.symm hct)]
      exact hz i'
    · have hne : t' ≠ t := by
        rintro rfl
        rw [ht] at ht''
        cases ht''
        omega
      rw [writeWord_other _ _ _ hne]
      exact h.leaf ht'' hi'
  · intro r' v x hx
    obtain ⟨t', ht'⟩ := h.page_table hx
    exact ⟨t', hold ht'⟩

theorem unlink {w : UInt64} {o : Owner} (hc : g.owner c = .table r (d + 1) b)
    (ht : g.owner t = .table r d (b / 512)) (hz : ∀ j < 512, has (mem c j) pagePresent = false)
    (hw : has w pagePresent = false) (ho : o.Plain) :
    Tables k (writeWord mem t (b % 512) w) (g.setOwner c o) := by
  have hd := (h.shape hc).1
  have hcases := @Layout.of_setOwner_plain g c o ho
  -- The place of `c` is the only one that the written entry belongs to.
  have hplace : ∀ {c' r' d' b'}, g.owner c' = .table r' (d' + 1) b' →
      g.owner t = .table r' d' (b' / 512) → b' % 512 = b % 512 → c' = c := by
    intro c' r' d' b' hc' ht' hmod
    obtain ⟨rfl, rfl, hdiv⟩ := Owner.table.inj (ht.symm.trans ht')
    have hb : b' = b := by omega
    subst hb
    exact h.owner_inj hc' hc
  refine ⟨?_, ?_, ?_, ?_, ?_, ?_, ?_⟩
  · intro r'
    rw [Layout.setOwner_spaces, h.root]
    constructor
    · intro h'
      refine (Layout.setOwner_owner_of_ne _ _ ?_).trans h'
      rintro rfl
      rw [hc] at h'
      cases h'
    · exact fun h' => (hcases h').2
  · exact fun hf => h.root_eq (hcases hf).2
  · exact fun hf => h.shape (hcases hf).2
  · intro t' r' d' b' i' ht' hd' hi' hu' hp'
    obtain ⟨-, ht''⟩ := hcases ht'
    by_cases hslot : t' = t ∧ i' = b % 512
    · obtain ⟨rfl, rfl⟩ := hslot
      rw [writeWord_self, hw] at hp'
      exact Bool.noConfusion hp'
    rw [writeWord_of_ne _ _ hslot] at hp' ⊢
    obtain ⟨c', hc', ho'⟩ := h.down ht'' hd' hi' hu' hp'
    refine ⟨c', hc', (Layout.setOwner_owner_of_ne _ _ ?_).trans ho'⟩
    rintro rfl
    rw [hc] at ho'
    cases ho'
    apply hslot
    rw [digits_div _ hi'] at ht
    exact ⟨h.owner_inj ht'' ht, (digits_mod _ hi').symm⟩
  · intro c' r' d' b' hc'
    obtain ⟨hne, hc''⟩ := hcases hc'
    obtain ⟨t', ht', hw'⟩ := h.up hc''
    have htc : t' ≠ c := by
      rintro rfl
      have := hz (b' % 512) (Nat.mod_lt _ (by omega))
      rw [hw', has_table_present (h.lt hc'')] at this
      exact Bool.noConfusion this
    refine ⟨t', (Layout.setOwner_owner_of_ne _ _ htc).trans ht', ?_⟩
    rw [writeWord_of_ne]
    · exact hw'
    · rintro ⟨rfl, hmod⟩
      exact hne (hplace hc'' ht' hmod)
  · intro t' r' b' i' ht' hi'
    obtain ⟨-, ht''⟩ := hcases ht'
    have hne : t' ≠ t := by
      rintro rfl
      rw [ht] at ht''
      cases ht''
      omega
    rw [writeWord_other _ _ _ hne]
    exact h.leaf ht'' hi'
  · intro r' v x hx
    rw [Layout.setOwner_page] at hx
    obtain ⟨t', ht'⟩ := h.page_table hx
    refine ⟨t', (Layout.setOwner_owner_of_ne _ _ ?_).trans ht'⟩
    rintro rfl
    -- A mapped page would be a present entry of the table that is taken out.
    have hlt : v % 512 < 512 := Nat.mod_lt _ (by omega)
    have hpres := (h.leaf ht' hlt).present
    rw [digits_eq, hx, hz (v % 512) hlt] at hpres
    exact Bool.noConfusion hpres

theorem newRoot (hc : (g.owner c).Plain) (hlt : c < 2 ^ 40)
    (hz : ∀ i < 512, UserPrefix 1 i → has (mem c i) pagePresent = false) :
    Tables k mem (g.addRoot c) := by
  have hold := @Layout.setOwner_of_plain g c (.table c 0 0) hc
  refine ⟨?_, ?_, ?_, ?_, ?_, ?_, ?_⟩
  · intro r
    rw [show (g.addRoot c).spaces = insert c g.spaces from rfl, Finset.mem_insert, h.root]
    constructor
    · rintro (rfl | hr)
      · exact Layout.setOwner_owner_self _ _ _
      · exact hold hr
    · intro hr
      rcases Layout.setOwner_eq_table.1 hr with ⟨rfl, -⟩ | ⟨-, hr'⟩
      · exact .inl rfl
      · exact .inr hr'
  · intro f r b hf
    rcases Layout.setOwner_eq_table.1 hf with ⟨rfl, ⟨⟩⟩ | ⟨-, hf'⟩
    · rfl
    · exact h.root_eq hf'
  · intro f r d b hf
    rcases Layout.setOwner_eq_table.1 hf with ⟨rfl, ⟨⟩⟩ | ⟨-, hf'⟩
    · exact ⟨by omega, rfl, hlt⟩
    · exact h.shape hf'
  · intro t r d b i ht hd hi hu hp
    rcases Layout.setOwner_eq_table.1 ht with ⟨rfl, ⟨⟩⟩ | ⟨-, ht'⟩
    · rw [hz i hi (by simpa using hu)] at hp
      exact Bool.noConfusion hp
    · obtain ⟨c', hc', ho'⟩ := h.down ht' hd hi hu hp
      exact ⟨c', hc', hold ho'⟩
  · intro c' r d b hc'
    rcases Layout.setOwner_eq_table.1 hc' with ⟨-, ho⟩ | ⟨-, hc''⟩
    · cases ho
    · obtain ⟨t, ht, hw⟩ := h.up hc''
      exact ⟨t, hold ht, hw⟩
  · intro t r b i ht hi
    rcases Layout.setOwner_eq_table.1 ht with ⟨-, ho⟩ | ⟨-, ht'⟩
    · cases ho
    · exact h.leaf ht' hi
  · intro r v x hx
    obtain ⟨t, ht⟩ := h.page_table hx
    exact ⟨t, hold ht⟩

lemma no_table_of_root (hr : g.owner r = .table r 0 0)
    (hz : ∀ i < 512, UserPrefix 1 i → has (mem r i) pagePresent = false) :
    ∀ {d c b}, g.owner c ≠ .table r (d + 1) b := by
  intro d
  induction d with
  | zero =>
    intro c b hc
    obtain ⟨t, ht, hw⟩ := h.up hc
    obtain rfl := h.root_eq ht
    have hu := (h.shape hc).2.1
    have hmod : b % 512 = b := Nat.mod_eq_of_lt (by simp only [UserPrefix] at hu; omega)
    have hnot := hz (b % 512) (Nat.mod_lt _ (by omega)) (by rw [hmod]; exact hu)
    rw [hw, has_table_present (h.lt hc)] at hnot
    exact Bool.noConfusion hnot
  | succ d ih =>
    intro c b hc
    obtain ⟨t, ht, -⟩ := h.up hc
    exact ih ht

theorem dropRoot {o : Owner} (hr : g.owner r = .table r 0 0)
    (hz : ∀ i < 512, UserPrefix 1 i → has (mem r i) pagePresent = false) (ho : o.Plain) :
    Tables k mem (g.dropRoot r o) := by
  have hcases := @Layout.of_setOwner_plain g r o ho
  have hdeep : ∀ {f r' d' b'}, g.owner f = .table r' (d' + 1) b' → f ≠ r := by
    rintro f r' d' b' hf rfl
    rw [hr] at hf
    cases hf
  refine ⟨?_, ?_, ?_, ?_, ?_, ?_, ?_⟩
  · intro r'
    rw [show (g.dropRoot r o).spaces = g.spaces.erase r from rfl, Finset.mem_erase, h.root]
    exact ⟨fun h' => (Layout.setOwner_owner_of_ne _ _ h'.1).trans h'.2, fun h' => hcases h'⟩
  · exact fun hf => h.root_eq (hcases hf).2
  · exact fun hf => h.shape (hcases hf).2
  · intro t r' d b i ht hd hi hu hp
    obtain ⟨c', hc', ho'⟩ := h.down (hcases ht).2 hd hi hu hp
    exact ⟨c', hc', (Layout.setOwner_owner_of_ne _ _ (hdeep ho')).trans ho'⟩
  · intro c' r' d b hc'
    obtain ⟨t, ht, hw⟩ := h.up (hcases hc').2
    refine ⟨t, (Layout.setOwner_owner_of_ne _ _ ?_).trans ht, hw⟩
    rintro rfl
    obtain ⟨rfl, rfl, -⟩ := Owner.table.inj (hr.symm.trans ht)
    exact h.no_table_of_root hr hz (hcases hc').2
  · exact fun ht hi => h.leaf (hcases ht).2 hi
  · intro r' v x hx
    obtain ⟨t, ht⟩ := h.page_table hx
    exact ⟨t, (Layout.setOwner_owner_of_ne _ _ (hdeep ht)).trans ht⟩

lemma writeKernel {i : Nat} (ht : g.owner t = .table r 0 0) (hi : ¬ UserPrefix 1 i) (w : UInt64) :
    Tables k (writeWord mem t i w) g := by
  have hdeep : ∀ {t' r' d' b'}, g.owner t' = .table r' (d' + 1) b' → t' ≠ t := by
    rintro t' r' d' b' ht' rfl
    rw [ht] at ht'
    cases ht'
  refine ⟨h.root, h.root_eq, h.shape, ?_, ?_, ?_, h.page_table⟩
  · intro t' r' d' b' i' ht' hd hi' hu hp
    have hslot : ¬ (t' = t ∧ i' = i) := by
      rintro ⟨rfl, rfl⟩
      obtain ⟨-, rfl, rfl⟩ := Owner.table.inj (ht.symm.trans ht')
      exact hi (by simpa using hu)
    rw [writeWord_of_ne _ _ hslot] at hp ⊢
    exact h.down ht' hd hi' hu hp
  · intro c r' d' b' hc
    obtain ⟨t', ht', hw⟩ := h.up hc
    refine ⟨t', ht', ?_⟩
    rw [writeWord_of_ne]
    · exact hw
    · rintro ⟨rfl, rfl⟩
      obtain ⟨-, rfl, -⟩ := Owner.table.inj (ht.symm.trans ht')
      have hu := (h.shape hc).2.1
      have hmod : b' % 512 = b' := Nat.mod_eq_of_lt (by simp only [UserPrefix] at hu; omega)
      rw [hmod] at hi
      exact hi hu
  · intro t' r' b' i' ht' hi'
    rw [writeWord_other _ _ _ (hdeep ht')]
    exact h.leaf ht' hi'

theorem setLeaf {w : UInt64} {x : Option (Nat × Access)} (ht : g.owner t = .table r 3 (v / 512))
    (hw : Leaf k w x) : Tables k (writeWord mem t (v % 512) w) (g.setPage r v x) := by
  have hshallow : ∀ {t' r' d' b'}, g.owner t' = .table r' d' b' → d' < 3 → t' ≠ t := by
    rintro t' r' d' b' ht' hd rfl
    obtain ⟨-, hd', -⟩ := Owner.table.inj (ht.symm.trans ht')
    omega
  refine ⟨h.root, h.root_eq, h.shape, ?_, ?_, ?_, ?_⟩
  · intro t' r' d' b' i ht' hd hi hu hp
    rw [writeWord_other _ _ _ (hshallow ht' hd)] at hp ⊢
    exact h.down ht' hd hi hu hp
  · intro c r' d' b' hc
    obtain ⟨t', ht', hw'⟩ := h.up hc
    have hd := (h.shape hc).1
    exact ⟨t', ht', by rw [writeWord_other _ _ _ (hshallow ht' (by omega))]; exact hw'⟩
  · intro t' r' b' i ht' hi
    by_cases hslot : t' = t ∧ i = v % 512
    · obtain ⟨rfl, rfl⟩ := hslot
      obtain ⟨rfl, -, rfl⟩ := Owner.table.inj (ht.symm.trans ht')
      rw [writeWord_self, digits_eq, Layout.setPage_page_self]
      exact hw
    · rw [writeWord_of_ne _ _ hslot, Layout.setPage_page_of_ne]
      · exact h.leaf ht' hi
      · rintro ⟨rfl, hv⟩
        apply hslot
        have hb : b' = v / 512 := by rw [← hv, digits_div _ hi]
        subst hb
        exact ⟨h.owner_inj ht' ht, by rw [← hv, digits_mod _ hi]⟩
  · intro r' v' y hy
    by_cases hslot : r' = r ∧ v' = v
    · obtain ⟨rfl, rfl⟩ := hslot
      exact ⟨t, ht⟩
    · rw [Layout.setPage_page_of_ne _ _ hslot] at hy
      exact h.page_table hy

end

end Tables

end AosKernel.Memory
