import AosKernel.Lib.RefCount
import Mathlib.Data.Finset.Filter

/-!
# Counted objects that hold references

A pool of objects whose slots are in use while somebody refers to them. An object counts the
references to each of its *ends* (`Scheme.ends`), and it may itself hold entries that refer to
objects of the pool; they are released when the object is. Everybody else's references are a
function `T : R → Nat`.

`Balanced` says that every count is the number of references, from outside and from the entries of
the objects, and that the objects in use are those somebody refers to. Retaining, releasing with all
that follows from it, creating an object and moving entries into or out of an object keep the pool
balanced. A release may be carried out on an entry that an object still in use keeps in its list
(`release_setInner`).
-/

set_option linter.unusedSectionVars false

namespace AosKernel.Lib.ObjectPool

open Lib.RefCount Function

universe u v w

variable {E : Type u} {R : Type v} {O : Type w} [DecidableEq R] [DecidableEq O]

/-- What an entry refers to, and which references an object counts. -/
structure Scheme (E : Type u) (R : Type v) (O : Type w) where
  ref : E → Option R
  object : R → O
  ends : O → List R
  mem_ends : ∀ r o, r ∈ ends o ↔ object r = o
  /-- The objects that may hold entries. -/
  containers : Finset O

/-- The counts, the slots in use, and the entries each object holds. -/
@[ext] structure Pool (E : Type u) (R : Type v) (O : Type w) where
  count : R → Nat
  used : O → Bool
  inner : O → List E

namespace Pool

variable (S : Scheme E R O)

/-! ## Operations -/

def setCount (p : Pool E R O) (r : R) (n : Nat) : Pool E R O :=
  { p with count := update p.count r n }

/-- Count one more reference, if the object is in use. -/
def retain (e : E) (p : Pool E R O) : Pool E R O :=
  match S.ref e with
  | none => p
  | some r => if p.used (S.object r) then p.setCount r (p.count r + 1) else p

/-- Whether no end of an object has a reference. -/
def unreferenced (o : O) (p : Pool E R O) : Bool := (S.ends o).all fun r => p.count r == 0

def drop (r : R) (p : Pool E R O) : Pool E R O := p.setCount r (p.count r - 1)

def setInner (o : O) (l : List E) (p : Pool E R O) : Pool E R O :=
  { p with inner := update p.inner o l }

def free (o : O) (p : Pool E R O) : Pool E R O :=
  { p with used := update p.used o false, inner := update p.inner o [] }

/-- Release an entry. The last reference frees the object and then releases the entries it held, at
most `fuel - 1` objects deep. -/
def release : Nat → E → Pool E R O → Pool E R O
  | 0, _, p => p
  | fuel + 1, e, p =>
      match S.ref e with
      | none => p
      | some r =>
          if p.used (S.object r) = false then p
          else if (p.drop r).unreferenced S (S.object r) then
            (p.inner (S.object r)).foldl (fun p e => release fuel e p)
              ((p.drop r).free (S.object r))
          else p.drop r

/-- Take the slot of an object into use, with one reference to each end. -/
def create (o : O) (p : Pool E R O) : Pool E R O where
  count := fun r => if S.object r = o then 1 else p.count r
  used := update p.used o true
  inner := update p.inner o []

section Equations

variable {S} {p : Pool E R O} {e : E} {r : R}

lemma retain_of_unused (h : ∀ r, S.ref e = some r → p.used (S.object r) = false) :
    p.retain S e = p := by
  unfold retain
  split
  · rfl
  · rename_i r hr
    simp [h r hr]

lemma retain_of_used (hr : S.ref e = some r) (hu : p.used (S.object r) = true) :
    p.retain S e = p.setCount r (p.count r + 1) := by
  simp [retain, hr, hu]

lemma release_of_unused (h : ∀ r, S.ref e = some r → p.used (S.object r) = false) (fuel : Nat) :
    release S fuel e p = p := by
  cases fuel with
  | zero => rfl
  | succ =>
  unfold release
  split
  · rfl
  · rename_i r hr
    simp [h r hr]

lemma release_of_used (hr : S.ref e = some r) (hu : p.used (S.object r) = true) (fuel : Nat) :
    release S (fuel + 1) e p =
      if (p.drop r).unreferenced S (S.object r) then
        (p.inner (S.object r)).foldl (fun p e => release S fuel e p) ((p.drop r).free (S.object r))
      else p.drop r := by
  simp [release, hr, hu]

lemma free_of_empty {o : O} (h : p.inner o = []) :
    p.free o = { p with used := update p.used o false } := by
  rw [free, ← h, update_eq_self]

end Equations

/-! ## Balance -/

/-- The references to `r` from the entries of the objects. -/
def pending (p : Pool E R O) (r : R) : Nat := heldIn S.ref S.containers p.inner r

/-- Every count is the number of references, and exactly the objects with a reference are in use. -/
structure Balanced (p : Pool E R O) (T : R → Nat) : Prop where
  count : ∀ r, p.count r = T r + p.pending S r
  used : ∀ o, p.used o = true ↔ ∃ r, S.object r = o ∧ 0 < p.count r
  outside : ∀ o, o ∉ S.containers → p.inner o = []
  unused : ∀ o, p.used o = false → p.inner o = []

variable {S} {p : Pool E R O} {T T' : R → Nat}

lemma Balanced.congr (h : p.Balanced S T) (hT : ∀ r, T' r = T r) : p.Balanced S T' :=
  (funext hT : T' = T) ▸ h

lemma Balanced.used_of_pos (h : p.Balanced S T) {r : R} (hr : 0 < T r) :
    p.used (S.object r) = true :=
  (h.used _).2 ⟨r, rfl, by rw [h.count]; omega⟩

lemma Balanced.count_eq_zero (h : p.Balanced S T) {r : R} (hr : p.used (S.object r) = false) :
    p.count r = 0 := by
  by_contra hne
  have := (h.used _).2 ⟨r, rfl, pos_of_ne_zero hne⟩
  simp [hr] at this

lemma unreferenced_iff (o : O) (p : Pool E R O) :
    p.unreferenced S o = true ↔ ∀ r, S.object r = o → p.count r = 0 := by
  simp [unreferenced, S.mem_ends]

variable {l : List E} {o : O}

/-- Moving entries between an object and the outside. -/
theorem Balanced.setInner (h : p.Balanced S T) (ho : o ∈ S.containers)
    (hused : p.used o = false → l = [])
    (hT : ∀ r, T' r + held S.ref l r = T r + held S.ref (p.inner o) r) :
    (p.setInner o l).Balanced S T' where
  count := fun r => by
    have hu := heldIn_update S.ref ho p.inner l r
    have hc := h.count r
    have hr := hT r
    simp only [Pool.setInner, pending] at hc hu ⊢
    omega
  used := h.used
  outside := fun o' ho' => by
    have hne : o' ≠ o := fun e => ho' (e ▸ ho)
    simp only [Pool.setInner, update_of_ne hne]
    exact h.outside o' ho'
  unused := fun o' ho' => by
    by_cases e : o' = o
    · subst e
      simpa [Pool.setInner] using hused ho'
    · simp only [Pool.setInner, update_of_ne e]
      exact h.unused o' ho'

/-! ## Retaining -/

@[simp] lemma retain_used (e : E) (p : Pool E R O) : (p.retain S e).used = p.used := by
  unfold retain
  split
  · rfl
  · split <;> rfl

@[simp] lemma retain_inner (e : E) (p : Pool E R O) : (p.retain S e).inner = p.inner := by
  unfold retain
  split
  · rfl
  · split <;> rfl

theorem Balanced.retain (h : p.Balanced S T) {e : E}
    (he : ∀ r, S.ref e = some r → p.used (S.object r) = true) :
    (p.retain S e).Balanced S fun r => T r + held S.ref [e] r := by
  cases hr : S.ref e with
  | none =>
    rw [retain_of_unused (by simp [hr])]
    exact h.congr fun r => by rw [held_singleton_of_none S.ref hr, add_zero]
  | some r₀ =>
  rw [retain_of_used hr (he r₀ hr)]
  have hcount : ∀ r, (p.setCount r₀ (p.count r₀ + 1)).count r =
      p.count r + held S.ref [e] r := fun r => by
    rw [held_singleton, hr, setCount]
    by_cases hrr : r = r₀
    · subst hrr
      simp
    · simp [update_of_ne hrr, Ne.symm hrr]
  refine ⟨fun r => ?_, fun o => ?_, h.outside, h.unused⟩
  · have hc := h.count r
    rw [hcount]
    simp only [pending, setCount] at hc ⊢
    omega
  · constructor
    · intro ho
      obtain ⟨r, hro, hpos⟩ := (h.used o).1 ho
      refine ⟨r, hro, ?_⟩
      rw [hcount]
      omega
    · rintro ⟨r, rfl, hpos⟩
      by_cases hrr : r = r₀
      · subst hrr
        exact he r hr
      · simp only [setCount, update_of_ne hrr] at hpos
        exact (h.used _).2 ⟨r, rfl, hpos⟩

/-! ## Creating -/

variable {r₀ : R}

theorem Balanced.create (h : p.Balanced S T) (hr₀ : S.object r₀ = o) (ho : p.used o = false) :
    (p.create S o).Balanced S fun r => T r + if S.object r = o then 1 else 0 := by
  have hinner : (p.create S o).inner = p.inner := by
    simp [Pool.create, ← h.unused o ho, update_eq_self]
  refine ⟨fun r => ?_, fun o' => ?_, fun o' ho' => ?_, fun o' ho' => ?_⟩
  · have hc := h.count r
    have hp : (p.create S o).pending S r = p.pending S r := by rw [pending, hinner, pending]
    rw [hp]
    simp only [Pool.create]
    by_cases hr : S.object r = o
    · have h0 := h.count_eq_zero (r := r) (by rw [hr]; exact ho)
      rw [if_pos hr, if_pos hr]
      omega
    · rw [if_neg hr, if_neg hr]
      omega
  · by_cases e : o' = o
    · subst e
      simp only [Pool.create, update_self, true_iff]
      exact ⟨r₀, hr₀, by simp [hr₀]⟩
    simp only [Pool.create, update_of_ne e]
    rw [h.used]
    refine exists_congr fun r => and_congr_right fun hr => ?_
    rw [if_neg (by rw [hr]; exact e)]
  · rw [hinner]
    exact h.outside o' ho'
  · rw [hinner]
    by_cases e : o' = o
    · subst e
      exact h.unused o' ho
    · simp only [Pool.create, update_of_ne e] at ho'
      exact h.unused o' ho'

/-! ## Releasing -/

variable {fuel : Nat}

lemma foldl_release_used_le
    (ih : ∀ (e : E) (p : Pool E R O) (o : O), (release S fuel e p).used o = true → p.used o = true)
    (l : List E) (p : Pool E R O) (o : O)
    (h : (l.foldl (fun p e => release S fuel e p) p).used o = true) : p.used o = true := by
  induction l generalizing p with
  | nil => exact h
  | cons e l ihl => exact ih e p o (ihl _ h)

lemma release_used_le (fuel : Nat) (e : E) (p : Pool E R O) (o : O)
    (h : (release S fuel e p).used o = true) : p.used o = true := by
  induction fuel generalizing e p o with
  | zero => exact h
  | succ fuel ih =>
    simp only [release] at h
    split at h
    · exact h
    split at h
    · exact h
    split at h
    · have := foldl_release_used_le ih _ _ o h
      simp only [free, drop, setCount, update_apply] at this
      split at this
      · simp at this
      · exact this
    · exact h

/-- The objects in use that may hold entries. -/
def usedContainers (S : Scheme E R O) (p : Pool E R O) : Finset O :=
  S.containers.filter fun o => p.used o = true

lemma usedContainers_subset {q : Pool E R O} (h : ∀ o, q.used o = true → p.used o = true) :
    usedContainers S q ⊆ usedContainers S p :=
  Finset.monotone_filter_right _ fun o _ => h o

lemma card_usedContainers_free_lt (ho : o ∈ S.containers) (hu : p.used o = true) :
    (usedContainers S (p.free o)).card < (usedContainers S p).card := by
  refine Finset.card_lt_card (Finset.ssubset_iff_subset_ne.2 ⟨usedContainers_subset ?_, ?_⟩)
  · intro o' ho'
    simp only [free, update_apply] at ho'
    split at ho'
    · simp at ho'
    · exact ho'
  · intro heq
    have hmem : o ∈ usedContainers S p := Finset.mem_filter.2 ⟨ho, hu⟩
    rw [← heq] at hmem
    have := (Finset.mem_filter.1 hmem).2
    simp [free] at this

lemma Balanced.drop (h : p.Balanced S T) (hT : ∀ r, T r = T' r + if r₀ = r then 1 else 0)
    (hun : (p.drop r₀).unreferenced S (S.object r₀) = false) : (p.drop r₀).Balanced S T' := by
  refine ⟨fun r => ?_, fun o => ?_, h.outside, h.unused⟩
  · have hc := h.count r
    have hr := hT r
    by_cases e : r = r₀
    · subst e
      simp only [Pool.drop, setCount, update_self, pending, if_true] at hc hr ⊢
      omega
    · simp only [Pool.drop, setCount, update_of_ne e, pending, Ne.symm e, if_false] at hc hr ⊢
      omega
  · by_cases ho : S.object r₀ = o
    · subst ho
      have hex : ∃ r, S.object r = S.object r₀ ∧ 0 < (p.drop r₀).count r := by
        by_contra hno
        have := (unreferenced_iff (S.object r₀) (p.drop r₀)).2 fun r hr => by
          by_contra hne
          exact hno ⟨r, hr, pos_of_ne_zero hne⟩
        rw [hun] at this
        exact Bool.false_ne_true this
      refine iff_of_true ?_ hex
      have hr := hT r₀
      exact h.used_of_pos (r := r₀) (by rw [hr, if_pos rfl]; omega)
    · rw [show (p.drop r₀).used o = p.used o from rfl, h.used]
      refine exists_congr fun r => and_congr_right fun hr => ?_
      have e : r ≠ r₀ := fun e => ho (e ▸ hr)
      simp [Pool.drop, setCount, update_of_ne e]

/-- A pool without an object that has lost its last reference; what it held is outside now. -/
lemma Balanced.free (h : p.Balanced S T) (hT : ∀ r, T r = T' r + if r₀ = r then 1 else 0)
    (hun : (p.drop r₀).unreferenced S (S.object r₀) = true) :
    ((p.drop r₀).free (S.object r₀)).Balanced S
      fun r => T' r + held S.ref (p.inner (S.object r₀)) r := by
  have hzero := (unreferenced_iff _ _).1 hun
  have hpending : ∀ r, ((p.drop r₀).free (S.object r₀)).pending S r +
      held S.ref (p.inner (S.object r₀)) r = p.pending S r := fun r => by
    by_cases hc : S.object r₀ ∈ S.containers
    · have := heldIn_update S.ref hc p.inner [] r
      simpa [pending, Pool.free, Pool.drop, setCount] using this
    have hin := h.outside _ hc
    rw [hin, held_nil, add_zero]
    simp only [pending, Pool.free, Pool.drop, setCount]
    rw [← hin, update_eq_self]
  refine ⟨fun r => ?_, fun o => ?_, fun o ho => ?_, fun o ho => ?_⟩
  · have hc := h.count r
    have hr := hT r
    have hp := hpending r
    have hcount : ((p.drop r₀).free (S.object r₀)).count r + (if r₀ = r then 1 else 0) =
        p.count r := by
      by_cases e : r = r₀
      · subst e
        simp only [Pool.free, Pool.drop, setCount, update_self, if_true] at hr ⊢
        omega
      · simp [Pool.free, Pool.drop, setCount, update_of_ne e, Ne.symm e]
    omega
  · by_cases ho : o = S.object r₀
    · subst ho
      refine iff_of_false (by simp [Pool.free]) ?_
      rintro ⟨r, hr, hpos⟩
      exact absurd (hzero r hr) (Nat.pos_iff_ne_zero.1 hpos)
    · simp only [Pool.free, update_of_ne ho]
      rw [show (p.drop r₀).used o = p.used o from rfl, h.used]
      refine exists_congr fun r => and_congr_right fun hr => ?_
      have e : r ≠ r₀ := fun e => ho (by rw [← hr, e])
      simp [Pool.drop, setCount, update_of_ne e]
  · simp only [Pool.free, Pool.drop, setCount, update_apply]
    split
    · rfl
    · exact h.outside o ho
  · simp only [Pool.free, Pool.drop, setCount, update_apply] at ho ⊢
    split
    · rfl
    · rename_i hne
      rw [if_neg hne] at ho
      exact h.unused o ho

lemma Balanced.foldl_release
    (ih : ∀ {p : Pool E R O} {T : R → Nat} {e : E}, p.Balanced S (fun r => T r + held S.ref [e] r) →
      (usedContainers S p).card < fuel → (Pool.release S fuel e p).Balanced S T)
    (h : p.Balanced S fun r => T r + held S.ref l r) (hfuel : (usedContainers S p).card < fuel) :
    (l.foldl (fun p e => Pool.release S fuel e p) p).Balanced S T := by
  induction l generalizing p with
  | nil => simpa using h
  | cons e l ihl =>
    have h1 : p.Balanced S fun r => (T r + held S.ref l r) + held S.ref [e] r :=
      h.congr fun r => by rw [held_cons S.ref e l]; omega
    refine ihl (ih h1 hfuel) (lt_of_le_of_lt (Finset.card_le_card ?_) hfuel)
    exact usedContainers_subset fun o => release_used_le fuel e p o

/-- Releasing an entry from outside. Each object freed on the way is one container less, so fuel
above their number is enough. -/
theorem Balanced.release {e : E} (h : p.Balanced S fun r => T r + held S.ref [e] r)
    (hfuel : (usedContainers S p).card < fuel) : (Pool.release S fuel e p).Balanced S T := by
  induction fuel generalizing p T e with
  | zero => omega
  | succ fuel ih =>
    cases hr : S.ref e with
    | none =>
      rw [release_of_unused (by simp [hr])]
      exact h.congr fun r => by rw [held_singleton_of_none S.ref hr, add_zero]
    | some r₀ =>
    have hT : ∀ r, T r + held S.ref [e] r = T r + if r₀ = r then 1 else 0 := fun r => by
      rw [held_singleton, hr]
      simp
    have hused : p.used (S.object r₀) = true := h.used_of_pos (r := r₀) (by rw [hT]; simp)
    rw [release_of_used hr hused]
    split
    · rename_i hun
      have hfree := h.free hT hun
      by_cases hc : S.object r₀ ∈ S.containers
      · refine Balanced.foldl_release (fun h' => ih h') hfree ?_
        have hlt : (usedContainers S ((p.drop r₀).free (S.object r₀))).card <
            (usedContainers S p).card := card_usedContainers_free_lt hc hused
        omega
      · simpa [h.outside _ hc] using hfree
    · rename_i hun
      exact h.drop hT (by simpa using hun)

/-! ## Releasing in place -/

lemma foldl_release_setInner {k : List E}
    (ih : ∀ (e : E) (p : Pool E R O), (release S fuel e p).used o = true → release S fuel e
      (p.setInner o k) = (release S fuel e p).setInner o k) (l : List E) (p : Pool E R O)
    (h : (l.foldl (fun p e => release S fuel e p) p).used o = true) :
    l.foldl (fun p e => release S fuel e p) (p.setInner o k) =
      (l.foldl (fun p e => release S fuel e p) p).setInner o k := by
  induction l generalizing p with
  | nil => rfl
  | cons e l ihl =>
    have hused : (release S fuel e p).used o = true :=
      foldl_release_used_le (release_used_le fuel) l _ o h
    simp only [List.foldl_cons]
    rw [ih e p hused]
    exact ihl _ h

/-- What an object holds does not matter to a release that leaves the object in use. -/
theorem release_setInner (fuel : Nat) (e : E) (p : Pool E R O) (o : O) (k : List E)
    (h : (release S fuel e p).used o = true) :
    release S fuel e (p.setInner o k) = (release S fuel e p).setInner o k := by
  induction fuel generalizing e p with
  | zero => rfl
  | succ fuel ih =>
    cases hr : S.ref e with
    | none => simp [release, hr]
    | some r =>
    by_cases hu : p.used (S.object r) = false
    · simp [release, hr, setInner, hu]
    have hunref : ((p.setInner o k).drop r).unreferenced S (S.object r) =
        (p.drop r).unreferenced S (S.object r) := rfl
    simp only [release, hr, hu, hunref] at h ⊢
    rw [if_neg (show ¬ (p.setInner o k).used (S.object r) = false from hu)]
    split
    · rename_i hun
      rw [if_pos hun] at h
      -- the object freed here is another one, since `o` is in use afterwards
      have hne : S.object r ≠ o := by
        rintro rfl
        have := foldl_release_used_le (release_used_le fuel) _ _ _ h
        simp [free] at this
      have hfree : ((p.setInner o k).drop r).free (S.object r) =
          ((p.drop r).free (S.object r)).setInner o k := by
        simp only [free, drop, setCount, setInner]
        rw [update_comm hne]
      have hin : (p.setInner o k).inner (S.object r) = p.inner (S.object r) :=
        update_of_ne hne _ _
      rw [hfree, hin]
      exact foldl_release_setInner ih _ _ h
    · rfl

lemma setInner_setInner (p : Pool E R O) (o : O) (l l' : List E) :
    (p.setInner o l).setInner o l' = p.setInner o l' := by
  simp [setInner]

lemma setInner_self {p : Pool E R O} (h : p.inner o = l) : p.setInner o l = p := by
  rw [setInner, ← h, update_eq_self]

/-- Releasing an entry that an object in use keeps in its list, and taking it off the list
afterwards. -/
lemma Balanced.release_inPlace (h : p.Balanced S T) {e : E} (ho : o ∈ S.containers)
    (hr₀ : S.object r₀ = o) (hpos : 0 < T r₀)
    (hl : ∀ r, held S.ref (p.inner o) r = held S.ref l r + held S.ref [e] r)
    (hfuel : (usedContainers S p).card < fuel) :
    (Pool.release S fuel e p).inner o = p.inner o ∧
      ((Pool.release S fuel e p).setInner o l).Balanced S T := by
  have hused : p.used o = true := hr₀ ▸ h.used_of_pos hpos
  -- the same release with the entry taken off first
  have hbal : (p.setInner o l).Balanced S fun r => T r + held S.ref [e] r :=
    h.setInner ho (fun hu => absurd (hused.symm.trans hu) Bool.true_eq_false_eq_False)
      fun r => by rw [hl]; omega
  have hrel : (Pool.release S fuel e (p.setInner o l)).Balanced S T := hbal.release hfuel
  have hkeep : (Pool.release S fuel e (p.setInner o l)).used o = true := hr₀ ▸ hrel.used_of_pos hpos
  have hback := release_setInner fuel e (p.setInner o l) o (p.inner o) hkeep
  have hsame := release_setInner fuel e (p.setInner o l) o l hkeep
  rw [setInner_setInner, setInner_self rfl] at hback
  rw [setInner_setInner] at hsame
  rw [hback]
  refine ⟨by simp [Pool.setInner], ?_⟩
  rw [setInner_setInner, ← hsame]
  exact hrel

end Pool

end AosKernel.Lib.ObjectPool
