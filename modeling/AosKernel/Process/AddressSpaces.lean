import AosKernel.Process.TableInvariant

/-!
# The life of an address space

The page-table roots of the processes, the root in CR3, the roots in use and the calls of
`vmm_destroy_user_space` form the view `Spaces` of a kernel state. `SpaceStep` says what a kernel
entry does to it, and `Kernel.step_spaces` that the kernel does nothing else.

`Spaces.Lifetimes` holds in every state of every run (`Kernel.lifetimes_of_reaches`), if no thread
ends as the last process with its root: `process_exit_and_wake_parent` releases the address space of
a thread before it loads another one (`thread_exit_destroys_loaded`).
-/

namespace AosKernel.Proc

open Lib Fd Function Process Option

/-! ## The view -/

/-- The root of a process that is not dead, and whether the process is a zombie. -/
structure Space where
  root : Nat
  ended : Bool
  deriving DecidableEq

def Process.space (p : Process) : Option Space :=
  if p.status = .dead then none else some ⟨p.p4Table, p.status == .zombie⟩

/-- The address spaces by slot, the current slot, the root in CR3, the roots in use, and the calls
of `vmm_destroy_user_space`. -/
structure Spaces where
  slots : Nat → Option Space
  current : Nat
  cr3 : Nat
  inUse : Nat → Bool
  calls : List DestroyCall

def Kernel.view (k : Kernel) : Spaces where
  slots := fun i => (k.procs i).space
  current := k.current
  cr3 := k.cr3
  inUse := k.spaces
  calls := k.destroyed

/-- The call was for a root in use, not in CR3, that no process had. -/
structure DestroyCall.Good (d : DestroyCall) : Prop where
  inUse : d.inUse = true
  notLoaded : d.root ≠ d.cr3
  unshared : ∀ i < maxProcesses, d.roots i ≠ some d.root

namespace Spaces

variable (v : Spaces)

def set (i : Nat) (s : Option Space) : Spaces :=
  { v with slots := update v.slots i s }

def load (r : Nat) : Spaces := { v with cr3 := r }

def take (i : Nat) : Spaces := { v with current := i }

def alloc (r : Nat) : Spaces := { v with inUse := update v.inUse r true }

/-- `vmm_destroy_user_space`. -/
def destroy (r : Nat) : Spaces :=
  { v with
    inUse := update v.inUse r false
    calls := ⟨r, v.inUse r, v.cr3, fun i => (v.slots i).map Space.root⟩ :: v.calls }

def shared (r i : Nat) : Bool :=
  (List.range maxProcesses).any fun j => j != i && (v.slots j).any fun s => s.root == r

/-- `process_release_address_space`. -/
def drop (r i : Nat) : Spaces :=
  if r = 0 then v else if v.shared r i then v else v.destroy r

attribute [simps -fullyApplied] set

variable (v : Spaces)

/-- The release of a root changes the roots in use and the calls only. -/
@[simp] lemma drop_keeps (r i : Nat) : (v.drop r i).slots = v.slots ∧
    (v.drop r i).current = v.current ∧ (v.drop r i).cr3 = v.cr3 := by
  unfold drop
  split
  · simp
  · split <;> simp [destroy]

def HasRoot (v : Spaces) (r : Nat) : Prop := ∃ i s, v.slots i = some s ∧ s.root = r

def Elsewhere (v : Spaces) (r c : Nat) : Prop := ∃ i s, i ≠ c ∧ v.slots i = some s ∧ s.root = r

lemma hasRoot_iff (r c : Nat) :
    v.HasRoot r ↔ (∃ s, v.slots c = some s ∧ s.root = r) ∨ v.Elsewhere r c := by
  constructor
  · rintro ⟨i, s, hs, hroot⟩
    by_cases hi : i = c
    · exact .inl ⟨s, hi ▸ hs, hroot⟩
    · exact .inr ⟨i, s, hi, hs, hroot⟩
  · rintro (⟨s, hs, hroot⟩ | ⟨i, s, -, hs, hroot⟩)
    · exact ⟨c, s, hs, hroot⟩
    · exact ⟨i, s, hs, hroot⟩

lemma elsewhere_set (c r : Nat) (t : Option Space) :
    (v.set c t).Elsewhere r c ↔ v.Elsewhere r c := by
  refine exists_congr fun i => exists_congr fun s => and_congr_right fun hi => ?_
  rw [set_slots, update_of_ne hi]

lemma hasRoot_set (c r : Nat) (t : Option Space) :
    (v.set c t).HasRoot r ↔ (∃ s, t = some s ∧ s.root = r) ∨ v.Elsewhere r c := by
  rw [hasRoot_iff, elsewhere_set, set_slots, update_self]

/-! ## Lifetimes -/

/-- A root is in use exactly while a slot has it, and every root was destroyed when it was in use,
no slot had it and it was not in CR3. -/
structure Lifetimes (v : Spaces) : Prop where
  bounded : ∀ i s, v.slots i = some s → i < maxProcesses
  used : ∀ r, r ≠ 0 → (v.inUse r = true ↔ v.HasRoot r)
  good : ∀ d ∈ v.calls, d.Good

section Lifetimes

variable {v : Spaces}

lemma bounded_set (h : ∀ i s, v.slots i = some s → i < maxProcesses) {c : Nat}
    (hc : c < maxProcesses) (t : Option Space) :
    ∀ i s, (v.set c t).slots i = some s → i < maxProcesses := by
  intro i s hs
  by_cases hi : i = c
  · exact hi ▸ hc
  · exact h i s (by simpa [update_of_ne hi] using hs)

lemma shared_iff (h : ∀ i s, v.slots i = some s → i < maxProcesses) (r i : Nat) :
    v.shared r i = true ↔ v.Elsewhere r i := by
  simp only [shared, List.any_eq_true, List.mem_range, Bool.and_eq_true, bne_iff_ne]
  constructor
  · rintro ⟨j, -, hne, hany⟩
    cases hs : v.slots j with
    | none => simp [hs] at hany
    | some s => exact ⟨j, s, hne, hs, by simpa [hs] using hany⟩
  · rintro ⟨j, s, hne, hs, hroot⟩
    exact ⟨j, h j s hs, hne, by simp [hs, hroot]⟩

lemma Lifetimes.add (h : v.Lifetimes) {c r : Nat} (e : Bool) (hc : c < maxProcesses)
    (hfree : v.slots c = none) (hr : v.HasRoot r) : (v.set c (some ⟨r, e⟩)).Lifetimes where
  bounded := bounded_set h.bounded hc _
  used := by
    intro r' hr'
    have hold : v.HasRoot r' ↔ v.Elsewhere r' c := by simp [hasRoot_iff v r' c, hfree]
    rw [set_inUse, h.used r' hr', hasRoot_set, hold]
    refine ⟨.inr, fun hor => hor.elim ?_ id⟩
    rintro ⟨s, hs, hroot⟩
    obtain rfl := some.inj hs
    rwa [← hold, ← hroot]
  good := h.good

lemma Lifetimes.add_new (h : v.Lifetimes) {c r : Nat} (e : Bool) (hc : c < maxProcesses)
    (hfree : v.slots c = none) : ((v.set c (some ⟨r, e⟩)).alloc r).Lifetimes where
  bounded := bounded_set h.bounded hc _
  used := by
    intro r' hr'
    have hroot : ((v.set c (some ⟨r, e⟩)).alloc r).HasRoot r' ↔ r = r' ∨ v.HasRoot r' := by
      rw [hasRoot_iff v r' c, hfree]
      refine (hasRoot_set v c r' (some ⟨r, e⟩)).trans ?_
      simp
    rw [hroot]
    by_cases hrr : r' = r
    · simp [hrr, alloc]
    · simp [alloc, update_of_ne hrr, h.used r' hr', Ne.symm hrr]
  good := h.good

/-- A slot gives up its root for another one, or for none; the old root is destroyed if no other
slot has it. The new root may be one that no slot has yet. -/
lemma Lifetimes.replace (hbounded : ∀ i s, v.slots i = some s → i < maxProcesses)
    (hgood : ∀ d ∈ v.calls, d.Good) {i : Nat} {s : Space} (hs : v.slots i = some s)
    (t : Option Space)
    (hused : ∀ r, r ≠ 0 → (∀ x, t = some x → x.root ≠ r) → (v.inUse r = true ↔ v.HasRoot r))
    (hnew : ∀ x, t = some x → x.root ≠ 0 → x.root ≠ s.root ∧ v.inUse x.root = true)
    (hcr3 : s.root ≠ 0 → ¬ v.Elsewhere s.root i → s.root ≠ v.cr3) :
    ((v.set i t).drop s.root i).Lifetimes := by
  have hi := hbounded i s hs
  have hb := bounded_set hbounded hi t
  have hold : ∀ r, v.HasRoot r ↔ s.root = r ∨ v.Elsewhere r i := by
    intro r
    simp [hasRoot_iff v r i, hs]
  have hset : ∀ r, ((v.set i t).drop s.root i).HasRoot r ↔
      (∃ x, t = some x ∧ x.root = r) ∨ v.Elsewhere r i := by
    intro r
    rw [← hasRoot_set]
    simp [HasRoot]
  -- What the new table has, as far as the old root does not matter.
  have hother : ∀ r, r ≠ 0 → r ≠ s.root ∨ v.Elsewhere s.root i →
      (v.inUse r = true ↔ (∃ x, t = some x ∧ x.root = r) ∨ v.Elsewhere r i) := by
    intro r hr hor
    by_cases ht : ∃ x, t = some x ∧ x.root = r
    · obtain ⟨x, hx, hxr⟩ := ht
      subst hxr
      exact iff_of_true (hnew x hx hr).2 (.inl ⟨x, hx, rfl⟩)
    rw [hused r hr fun x hx hxr => ht ⟨x, hx, hxr⟩, hold]
    constructor
    · rintro (rfl | he)
      · exact .inr (hor.resolve_left (by simp))
      · exact .inr he
    · exact fun h => .inr (h.resolve_left ht)
  by_cases hkeep : s.root = 0 ∨ v.Elsewhere s.root i
  · have hdrop : (v.set i t).drop s.root i = v.set i t := by
      unfold drop
      rcases hkeep with h0 | he
      · rw [if_pos h0]
      · rw [if_pos ((shared_iff hb _ _).2 ((elsewhere_set v i _ t).2 he)), ite_self]
    refine ⟨by rw [hdrop]; exact hb, fun r hr => ?_, by rw [hdrop]; exact hgood⟩
    rw [hset, hdrop, set_inUse]
    refine hother r hr (hkeep.imp_left fun h0 => ?_)
    rw [h0]
    exact hr
  · obtain ⟨h0, he⟩ := not_or.1 hkeep
    have hdrop : (v.set i t).drop s.root i = (v.set i t).destroy s.root := by
      unfold drop
      rw [if_neg h0, if_neg]
      rw [shared_iff hb, elsewhere_set]
      exact he
    -- The new root of the slot is not the old one.
    have hgone : ¬ ∃ x, t = some x ∧ x.root = s.root := by
      rintro ⟨x, hx, hxs⟩
      exact (hnew x hx (by rw [hxs]; exact h0)).1 hxs
    refine ⟨by rw [hdrop]; exact hb, fun r hr => ?_, ?_⟩
    · rw [hset, hdrop]
      by_cases hrs : r = s.root
      · subst hrs
        simp only [destroy, update_self, Bool.false_eq_true, false_iff]
        exact not_or.2 ⟨hgone, he⟩
      · simp only [destroy, update_of_ne hrs, set_inUse]
        exact hother r hr (.inl hrs)
    · rw [hdrop]
      intro d hd
      rcases List.mem_cons.1 hd with rfl | hd
      · refine ⟨?_, hcr3 h0 he, fun j _ hj => ?_⟩
        · have hin := hused s.root h0 fun x hx hxs => hgone ⟨x, hx, hxs⟩
          exact hin.2 ((hold _).2 (.inl rfl))
        · obtain ⟨x, hx, hxs⟩ := map_eq_some_iff.1 hj
          have hroot : (v.set i t).HasRoot s.root := ⟨j, x, hx, hxs⟩
          rw [hasRoot_set] at hroot
          exact hroot.elim hgone he
      · exact hgood d hd

theorem Lifetimes.release (h : v.Lifetimes) {i : Nat} {s : Space} (hs : v.slots i = some s)
    (e : Bool) (hcr3 : s.root ≠ 0 → ¬ v.Elsewhere s.root i → s.root ≠ v.cr3) :
    ((v.set i (some ⟨0, e⟩)).drop s.root i).Lifetimes := by
  refine Lifetimes.replace h.bounded h.good hs _ (fun r hr _ => h.used r hr) ?_ hcr3
  rintro x ⟨rfl⟩ hx
  exact absurd rfl hx

lemma Lifetimes.change (h : v.Lifetimes) {i : Nat} {s : Space} (hs : v.slots i = some s)
    (hroot : s.root = 0) (t : Option Space) (ht : ∀ x, t = some x → x.root = 0) :
    (v.set i t).Lifetimes := by
  have hnew := Lifetimes.replace h.bounded h.good hs t (fun r hr _ => h.used r hr)
    (fun x hx h0 => absurd (ht x hx) h0) (fun h0 => absurd hroot h0)
  simpa [drop, hroot] using hnew

lemma Lifetimes.load (h : v.Lifetimes) (r : Nat) : (v.load r).Lifetimes :=
  ⟨h.bounded, h.used, h.good⟩

theorem Lifetimes.take (h : v.Lifetimes) (i : Nat) : (v.take i).Lifetimes :=
  ⟨h.bounded, h.used, h.good⟩

lemma Lifetimes.alloc_destroy (h : v.Lifetimes) {r : Nat} (hr : r ≠ 0)
    (hfresh : v.inUse r = false) (hcr3 : r ≠ v.cr3) : ((v.alloc r).destroy r).Lifetimes where
  bounded := h.bounded
  used := by
    intro r' hr'
    by_cases hrr : r' = r
    · subst hrr
      simp only [destroy, update_self, Bool.false_eq_true, false_iff]
      have hnot : ¬ v.HasRoot r' := by
        rw [← h.used r' hr', hfresh]
        simp
      exact hnot
    · simp only [destroy, alloc, update_of_ne hrr]
      exact h.used r' hr'
  good := by
    intro d hd
    rcases List.mem_cons.1 hd with rfl | hd
    · refine ⟨by simp [alloc], hcr3, fun j _ hj => ?_⟩
      obtain ⟨s, hs, hroot⟩ := map_eq_some_iff.1 hj
      have hused := (h.used r hr).2 ⟨j, s, hs, hroot⟩
      rw [hfresh] at hused
      simp at hused
    · exact h.good d hd

end Lifetimes

end Spaces

/-! ## What a kernel entry can do -/

/-- The root that the memory code hands to the entry, 0 for none. -/
def Op.newRoot : Op → Nat
  | .fork _ copied => copied
  | .clone regs copied => if hasFlag regs.rdi cloneVm = false then copied else 0
  | .exec _ (.failed newP4 _) => newP4
  | .exec _ (.loaded newP4 _ _ _) => newP4
  | _ => 0

namespace Spaces

/-- Slot `i` gives up its root and is then `t`. -/
def ends (v : Spaces) (i : Nat) (s : Space) (t : Option Space) : Spaces :=
  ((v.set i (some ⟨0, s.ended⟩)).drop s.root i).set i t

/-- Slots other than the current one end, one after the other. -/
inductive OthersEnd (v : Spaces) : Spaces → Prop where
  | none : OthersEnd v v
  | next {w : Spaces} {i : Nat} {s : Space} (h : OthersEnd v w) (hi : i ≠ w.current)
      (hs : w.slots i = some s) : OthersEnd v (w.ends i s none)

lemma drop_take (v : Spaces) (p r i : Nat) : (v.take p).drop r i = (v.drop r i).take p := by
  unfold drop
  rw [show (v.take p).shared r i = v.shared r i from rfl]
  repeat' split
  all_goals rfl

lemma drop_ended (v : Spaces) (i r : Nat) (e : Bool) :
    (v.set i (some ⟨0, true⟩)).drop r i =
      ((v.set i (some ⟨0, e⟩)).drop r i).set i (some ⟨0, true⟩) := by
  have hset : (v.set i (some ⟨0, e⟩)).set i (some ⟨0, true⟩) = v.set i (some ⟨0, true⟩) := by
    unfold set
    simp [update_idem]
  have hshared : ∀ e, (v.set i (some ⟨0, e⟩)).shared r i = v.shared r i := by
    intro e
    unfold shared
    congr 1
    funext j
    by_cases hj : j = i
    · simp [hj]
    · simp [update_of_ne hj]
  have hroots : ∀ e, (fun j => ((v.set i (some ⟨0, e⟩)).slots j).map Space.root) =
      update (fun j => (v.slots j).map Space.root) i (some 0) :=
    fun e => funext fun j => apply_update (fun _ => Option.map Space.root) v.slots i _ j
  unfold drop
  rw [hshared, hshared]
  split
  · exact hset.symm
  split
  · exact hset.symm
  · unfold destroy
    rw [hroots, hroots]
    simp only [set, update_idem]

end Spaces

/-- One kernel entry, on the address spaces; `thread` says that the current process is a thread. -/
inductive SpaceStep (v : Spaces) (thread : Bool) : Op → Spaces → Prop where
  /-- Nothing changes. -/
  | keep (op : Op) : SpaceStep v thread op v
  /-- Another process is taken. -/
  | switch (op : Op) {j r : Nat} (hj : v.slots j = some ⟨r, false⟩) :
      SpaceStep v thread op ((v.take j).load r)
  /-- A new process with a new address space. -/
  | fork (op : Op) {c : Nat} (hc : c < maxProcesses) (hfree : v.slots c = none)
      (hroot : op.newRoot ≠ 0) :
      SpaceStep v thread op ((v.set c (some ⟨op.newRoot, false⟩)).alloc op.newRoot)
  /-- A new process with the address space of the current one. -/
  | share (op : Op) {c r : Nat} {e : Bool} (hc : c < maxProcesses) (hfree : v.slots c = none)
      (hcur : v.slots v.current = some ⟨r, e⟩) :
      SpaceStep v thread op (v.set c (some ⟨r, false⟩))
  /-- The same, and the new process runs. -/
  | shareSwitch (op : Op) {c r : Nat} {e : Bool} (hc : c < maxProcesses)
      (hfree : v.slots c = none) (hcur : v.slots v.current = some ⟨r, e⟩) :
      SpaceStep v thread op (((v.set c (some ⟨r, false⟩)).take c).load r)
  /-- The current process gets a new address space. -/
  | exec (op : Op) {s : Space} (hroot : op.newRoot ≠ 0) (hcur : v.slots v.current = some s) :
      SpaceStep v thread op ((((v.alloc op.newRoot).set v.current
        (some ⟨op.newRoot, s.ended⟩)).load op.newRoot).drop s.root v.current)
  /-- A new address space is given up. -/
  | execFailed (op : Op) (hroot : op.newRoot ≠ 0) :
      SpaceStep v thread op ((v.alloc op.newRoot).destroy op.newRoot)
  /-- A zombie is waited for. -/
  | reap (op : Op) {z : Nat} {s : Space} (hz : v.slots z = some s) (hended : s.ended = true) :
      SpaceStep v thread op (v.set z none)
  /-- The current thread ends, and another process is taken. -/
  | endThread (code : UInt64) (prepare : Prepare) {s : Space} {j r : Nat} (hthread : thread = true)
      (hcur : v.slots v.current = some s) (hne : j ≠ v.current)
      (hj : v.slots j = some ⟨r, false⟩) :
      SpaceStep v thread (.exit code prepare) (((v.ends v.current s none).take j).load r)
  /-- The current thread ends, and no process is left. -/
  | stopThread (code : UInt64) (prepare : Prepare) {s : Space} (hthread : thread = true)
      (hcur : v.slots v.current = some s) :
      SpaceStep v thread (.exit code prepare) (v.ends v.current s none)
  /-- The current process ends, and its parent is taken; its slot is free, or a zombie. -/
  | endProcess (op : Op) {s : Space} {p r : Nat} (t : Option Space)
      (ht : t = none ∨ t = some ⟨0, true⟩) (hcur : v.slots v.current = some s)
      (hne : p ≠ v.current) (hp : v.slots p = some ⟨r, false⟩) :
      SpaceStep v thread op ((((v.load r).ends v.current s t).take p).load r)
  /-- The current process ends, and no parent is left. -/
  | stopProcess (op : Op) {s : Space} (hcur : v.slots v.current = some s) :
      SpaceStep v thread op (v.set v.current (some ⟨s.root, true⟩))
  /-- Another process ends; its slot is free, or a zombie. -/
  | kill (op : Op) {i : Nat} {s : Space} (t : Option Space)
      (ht : t = none ∨ t = some ⟨0, true⟩) (hi : i ≠ v.current) (hs : v.slots i = some s) :
      SpaceStep v thread op (v.ends i s t)
  /-- The processes of a user end. -/
  | logout (op : Op) {w : Spaces} (h : v.OthersEnd w) : SpaceStep v thread op w

/-! ## The kernel on the view -/

namespace Kernel

section Updates

variable {k : Kernel} {i : Nat}

lemma view_slots_eq (h : (k.procs i).status ≠ .dead) :
    k.view.slots i = some ⟨(k.procs i).p4Table, (k.procs i).status == .zombie⟩ := by
  simp [view, space, h]

lemma view_slots_live (h : (k.procs i).status ≠ .dead) (hz : (k.procs i).status ≠ .zombie) :
    k.view.slots i = some ⟨(k.procs i).p4Table, false⟩ := by
  rw [view_slots_eq h]
  simp [hz]

lemma view_slots_none (h : (k.procs i).status = .dead) : k.view.slots i = none := by
  simp [view, space, h]

lemma space_of_slot {s : Space} (hs : k.view.slots i = some s) :
    (k.procs i).status ≠ .dead ∧ s = ⟨(k.procs i).p4Table, (k.procs i).status == .zombie⟩ := by
  have h : (k.procs i).status ≠ .dead := fun h => by simp [view_slots_none h] at hs
  exact ⟨h, some.inj (hs.symm.trans (view_slots_eq h))⟩

lemma live_of_slot {r : Nat} (hs : k.view.slots i = some ⟨r, false⟩) :
    (k.procs i).status ≠ .dead ∧ (k.procs i).status ≠ .zombie ∧ (k.procs i).p4Table = r := by
  obtain ⟨h, hspace⟩ := space_of_slot hs
  simp_all

lemma view_setProc (k : Kernel) (i : Nat) (p : Process) :
    (k.setProc i p).view = k.view.set i p.space := by
  have hslots : (k.setProc i p).view.slots = update k.view.slots i p.space :=
    funext fun j => apply_update (fun _ => space) k.procs i p j
  unfold Spaces.set
  rw [← hslots]
  rfl

lemma view_clearSlot (k : Kernel) (i : Nat) : (k.clearSlot i).view = k.view.set i none :=
  k.view_setProc i zero

lemma view_modifyProc_same (k : Kernel) (i : Nat) {f : Process → Process}
    (h : (f (k.procs i)).space = (k.procs i).space) : (k.modifyProc i f).view = k.view := by
  unfold modifyProc
  rw [view_setProc, h]
  unfold Spaces.set
  rw [show (k.procs i).space = k.view.slots i from rfl, update_eq_self]

lemma space_status {p q : Process} (hp : p.status ≠ .dead) (hz : p.status ≠ .zombie)
    (hq : q.status ≠ .dead) (hqz : q.status ≠ .zombie) (hroot : q.p4Table = p.p4Table) :
    q.space = p.space := by
  simp [space, hp, hz, hq, hqz, hroot]

lemma view_setStatus (h : (k.procs i).status ≠ .dead) (hz : (k.procs i).status ≠ .zombie)
    {status : Status} (hs : status ≠ .dead) (hsz : status ≠ .zombie) :
    (k.setStatus i status).view = k.view :=
  view_modifyProc_same k i (space_status h hz hs hsz rfl)

end Updates

section Frames

variable (k : Kernel) (i : Nat) (root : Nat)

@[simp] lemma view_switchPageTable : (k.switchPageTable root).view = k.view.load root := rfl

@[simp] lemma view_loadFsBase (fsBase : UInt64) : (k.loadFsBase fsBase).view = k.view := rfl

@[simp] lemma view_storeWord (address : UInt64) (value : UInt32) :
    (k.storeWord address value).view = k.view := rfl

@[simp] lemma view_switchToProcess :
    (k.switchToProcess i).view = k.view.load (k.procs i).p4Table := rfl

@[simp] lemma view_writeProcessU32 (prepare : Prepare) (address : UInt64) (value : UInt32) :
    (k.writeProcessU32 prepare i address value).2.view = k.view := by
  unfold writeProcessU32
  split <;> rfl

@[simp] lemma view_releaseFds : (k.releaseFds i).view = k.view :=
  view_modifyProc_same k i (f := fun p => { p with fdTable := closedTable }) rfl

lemma view_vmmDestroyUserSpace {root : Nat} (h : root ≠ 0) :
    (k.vmmDestroyUserSpace root).view = k.view.destroy root := by
  have hroots : (fun i => rootOf (k.procs i)) = fun i => (k.view.slots i).map Space.root := by
    funext j
    unfold rootOf view space
    split <;> simp_all
  unfold vmmDestroyUserSpace Spaces.destroy
  rw [if_neg h, ← hroots]
  rfl

lemma rootShared_eq : k.rootShared root i = k.view.shared root i := by
  unfold rootShared Spaces.shared
  congr 1
  funext j
  by_cases hd : (k.procs j).status = .dead
  · simp [hd, view, space]
  · have hb : ((k.procs j).status != .dead) = true := by simpa using hd
    simp [hd, hb, view, space]

lemma view_processReleaseAddressSpace :
    (k.processReleaseAddressSpace root i).view = k.view.drop root i := by
  unfold processReleaseAddressSpace Spaces.drop
  rw [rootShared_eq]
  split
  · rfl
  next h =>
  split
  · rfl
  · exact view_vmmDestroyUserSpace k h

lemma view_releaseProcessMemory {s : Space} (hs : k.view.slots i = some s) :
    (k.releaseProcessMemory i).view = (k.view.set i (some ⟨0, s.ended⟩)).drop s.root i := by
  obtain ⟨h, rfl⟩ := space_of_slot hs
  unfold releaseProcessMemory
  by_cases h0 : (k.procs i).p4Table = 0
  · rw [if_pos h0, h0]
    have hself : k.view.set i (some ⟨0, (k.procs i).status == .zombie⟩) = k.view := by
      unfold Spaces.set
      rw [← h0, ← hs, update_eq_self]
    rw [hself]
    simp [Spaces.drop]
  · rw [if_neg h0, view_processReleaseAddressSpace]
    unfold modifyProc
    rw [view_setProc]
    simp [space, h]

lemma view_releaseClear {s : Space} (hs : k.view.slots i = some s) :
    ((k.releaseProcessMemory i).clearSlot i).view = k.view.ends i s none := by
  rw [view_clearSlot, view_releaseProcessMemory k i hs]
  rfl

lemma view_processCompleteVfork (c : Nat) : (k.processCompleteVfork c).view = k.view := by
  unfold processCompleteVfork
  dsimp only
  split
  · rfl
  have hchild : (k.modifyProc c fun p => { p with vforkParentPid := 0 }).view = k.view :=
    view_modifyProc_same k c rfl
  split
  · exact hchild
  rw [view_modifyProc_same, hchild]
  unfold space
  split <;> split <;> simp_all

lemma SamePhases.view {k k' : Kernel} (h : SamePhases k k') : k'.view = k.view := by
  have hspace : (fun i => (k'.procs i).space) = fun i => (k.procs i).space := by
    funext i
    rw [h.procs]
    rfl
  have hrest := congrArg Kernel.view h.rest
  unfold Kernel.view at hrest ⊢
  simp only [Spaces.mk.injEq] at hrest ⊢
  exact ⟨hspace, hrest.2⟩

lemma view_updateThermalPolicy (active : Bool) :
    (k.updateThermalPolicy active).view = k.view := by
  have hspace : (fun i => ((k.updateThermalPolicy active).procs i).space) =
      fun i => (k.procs i).space := by
    funext i
    unfold updateThermalPolicy thermalSlot
    dsimp only
    split
    · split <;> rfl
    · rfl
  unfold view
  simp only [Spaces.mk.injEq]
  exact ⟨hspace, rfl, rfl, rfl, rfl⟩

end Frames

/-! ## The scheduler -/

section Steps

variable {k : Kernel} {thread : Bool}

lemma view_taken (k : Kernel) (next : Nat) {r : Nat} (hs : k.view.slots next = some ⟨r, false⟩) :
    (({ k with current := next }.setStatus next .running).switchToProcess next).view =
      (k.view.take next).load r := by
  obtain ⟨h, hz, rfl⟩ := live_of_slot hs
  have hv : ({ k with current := next }.setStatus next .running).view = k.view.take next :=
    view_setStatus (k := { k with current := next }) h hz (by simp) (by simp)
  rw [view_switchToProcess, hv]
  simp [setStatus, modifyProc, setProc]

variable (op : Op)

lemma handover_spaces {context : Process → InterruptFrame} {k1 k' : Kernel} {taken : Bool}
    (hv : k1.view = k.view) (hlive : (k1.procs k.current).status ≠ .dead)
    (hz : (k1.procs k.current).status ≠ .zombie) (h : Handover context k1 k.current taken k') :
    SpaceStep k.view thread op k'.view := by
  cases h with
  | stay hsame =>
    rw [view_setStatus (by rw [hsame.status]; exact hlive) (by rw [hsame.status]; exact hz)
      (by simp) (by simp), hsame.view, hv]
    exact .keep op
  | @switch k2 next hsame hlt hready =>
    have hrun : (k2.setStatus next .running).view = k2.view :=
      view_setStatus (by simp [hready]) (by simp [hready]) (by simp) (by simp)
    have hslot := view_slots_live (k := k2) (i := next) (by simp [hready]) (by simp [hready])
    rw [hsame.view, hv] at hrun hslot
    refine (congrArg (SpaceStep k.view thread op) ?_).mpr (.switch op hslot)
    exact congrArg (fun v : Spaces => (v.take next).load (k2.procs next).p4Table) hrun

variable (regs : SyscallRegs)

lemma schedule_spaces (hlive : k.Alive) (hz : (k.procs k.current).status ≠ .zombie) :
    SpaceStep k.view thread op (k.schedule regs).2.view := by
  have hstatus : ((k.yielded regs).procs k.current).status ≠ .dead ∧
      ((k.yielded regs).procs k.current).status ≠ .zombie := by
    simp only [yielded, modifyProc, setProc, update_self]
    split
    · simp
    · exact ⟨hlive, hz⟩
  refine handover_spaces op (view_modifyProc_same k _ (space_status hlive hz ?_ ?_ rfl))
    hstatus.1 hstatus.2 (schedule_handover k regs)
  · simpa [yielded, modifyProc, setProc] using hstatus.1
  · simpa [yielded, modifyProc, setProc] using hstatus.2

lemma preemptFromInterrupt_spaces (frame : InterruptFrame) :
    SpaceStep k.view thread op (k.preemptFromInterrupt frame).view := by
  by_cases hkeep : frame.fromUser = false ∨ (k.procs k.current).status ≠ .running
  · rw [preemptFromInterrupt, if_pos hkeep]
    exact .keep op
  obtain ⟨taken, h⟩ := preempt_handover hkeep
  simp only [not_or, Decidable.not_not] at hkeep
  refine handover_spaces op (view_modifyProc_same k _ ?_) ?_ ?_ h
  · exact space_status (by simp [hkeep.2]) (by simp [hkeep.2]) (by simp) (by simp) rfl
  · simp [modifyProc, setProc]
  · simp [modifyProc, setProc]

lemma timerHandler_spaces (frame : InterruptFrame) (thermal : Option Bool) :
    SpaceStep k.view thread op (k.timerHandler frame thermal).view := by
  have hview : (k.timerPrologue frame thermal).view = k.view := by
    unfold timerPrologue
    generalize hk1 : (if (k.procs k.current).status = .running then k.modifyProc _ _ else k) = k1
    have hv1 : k1.view = k.view := by
      rw [← hk1]
      split
      · exact view_modifyProc_same k k.current rfl
      · rfl
    cases thermal with
    | none => exact hv1
    | some active => exact (view_updateThermalPolicy k1 active).trans hv1
  rw [timerHandler_eq, ← hview]
  exact preemptFromInterrupt_spaces op frame

/-! ## Creation and programs -/

lemma sysFork_spaces (copied : Nat) (hop : op.newRoot = copied) :
    SpaceStep k.view thread op (k.sysFork regs copied).2.view := by
  unfold sysFork
  cases hslot : k.freeSlot with
  | none => exact SpaceStep.keep op
  | some c =>
  obtain ⟨hc, hdead, -⟩ := freeSlot_some hslot
  have hfree := view_slots_none hdead
  dsimp only
  split
  · have hv : ({ k with nextPid := k.nextPid + 1 }.clearSlot c).view = k.view := by
      rw [view_clearSlot]
      exact congrArg (fun slots => (⟨slots, k.current, k.cr3, k.spaces, k.destroyed⟩ : Spaces))
        (by rw [← hfree]; exact update_eq_self c _)
    rw [hv]
    exact SpaceStep.keep op
  · next hcopied =>
    subst hop
    have hv := view_setProc { k with nextPid := k.nextPid + 1 } c
      (throttleChild k.thermalPolicyActive
        (forkChild (k.procs k.current) k.nextPid regs op.newRoot))
    refine (congrArg (SpaceStep k.view thread op) ?_).mpr (SpaceStep.fork op hc hfree hcopied)
    have hspace : (throttleChild k.thermalPolicyActive
        (forkChild (k.procs k.current) k.nextPid regs op.newRoot)).space =
        some ⟨op.newRoot, false⟩ := rfl
    exact congrArg (fun v : Spaces => v.alloc op.newRoot) hv

lemma view_vforkSwitch (k : Kernel) (regs : SyscallRegs) {parent child r r' : Nat}
    (hp : k.view.slots parent = some ⟨r', false⟩) (hc : k.view.slots child = some ⟨r, false⟩) :
    (k.vforkSwitch regs parent child).view = (k.view.take child).load r := by
  unfold vforkSwitch
  dsimp only
  generalize hk1 : k.modifyProc child _ = k1
  have hv1 : k1.view = k.view := by
    rw [← hk1]
    exact view_modifyProc_same k child rfl
  generalize hk2 : k1.modifyProc parent _ = k2
  have hv2 : k2.view = k.view := by
    rw [← hv1] at hp
    obtain ⟨hlive, hz, -⟩ := live_of_slot hp
    rw [← hk2, view_modifyProc_same, hv1]
    exact space_status hlive hz (by simp) (by simp) rfl
  rw [← hv2] at hc ⊢
  exact view_taken k2 child hc

lemma view_cloned (k : Kernel) (regs : SyscallRegs) (c : Nat) (words : Nat → UInt64 → UInt32) :
    (k.cloned regs c words).view = k.view.set c (some ⟨(k.procs k.current).p4Table, false⟩) := by
  have h1 := view_modifyProc_same { k with nextPid := k.nextPid + 1 } k.current
    (f := fun p => { p with sharesAddressSpace := true }) rfl
  have h2 := view_setProc ({ k with nextPid := k.nextPid + 1 }.modifyProc k.current
    fun p => { p with sharesAddressSpace := true }) c
    (throttleChild k.thermalPolicyActive (cloneChild (k.procs k.current) k.nextPid regs))
  rw [h1] at h2
  exact h2

lemma sysClone_spaces (copied : Nat) (hlive : k.Alive)
    (hz : (k.procs k.current).status ≠ .zombie) :
    SpaceStep k.view thread (.clone regs copied) (k.sysClone regs copied).2.view := by
  have h := clones_sysClone k regs copied
  have hcur := view_slots_live hlive hz
  generalize k.sysClone regs copied = r at h ⊢
  cases h with
  | fork hvm => exact sysFork_spaces _ regs copied (by simp [Op.newRoot, hvm])
  | refused => exact .keep _
  | created hslot =>
    obtain ⟨hc, hdead, -⟩ := freeSlot_some hslot
    rw [view_cloned]
    exact .share _ hc (view_slots_none hdead) hcur
  | @vforked c words hslot =>
    -- The parent is suspended and the child runs.
    obtain ⟨hc, hdead, -⟩ := freeSlot_some hslot
    have hne : c ≠ k.current := by
      rintro rfl
      exact hlive hdead
    have hv := @view_vforkSwitch (k.cloned regs c words) regs k.current c _ _
      (by rw [view_cloned]; simpa [update_of_ne hne.symm] using hcur)
      (by rw [view_cloned]; exact update_self ..)
    rw [view_cloned] at hv
    exact (congrArg (SpaceStep k.view thread _) hv).mpr
      (.shareSwitch _ hc (view_slots_none hdead) hcur)

lemma execProgram_spaces (result : ExecResult) (hlive : k.Alive) :
    SpaceStep k.view thread (.exec regs result) (k.execProgram result).2.view := by
  unfold execProgram
  cases result with
  | refused => exact .keep _
  | failed newP4 error =>
    dsimp only
    split
    · exact .keep _
    next hroot =>
    rw [view_vmmDestroyUserSpace _ hroot]
    exact .execFailed (.exec regs (.failed newP4 error)) hroot
  | loaded newP4 entry stack command =>
    dsimp only
    split
    · exact .keep _
    next hroot =>
    refine (congrArg (SpaceStep k.view thread _) ?_).mpr
      (.exec (.exec regs (.loaded newP4 entry stack command)) hroot (view_slots_eq hlive))
    unfold execLoaded
    dsimp only
    generalize hk1 : modifyProc _ k.current _ = k1
    have hv1 : k1.view = (k.view.alloc newP4).set k.current
        (some ⟨newP4, (k.procs k.current).status == .zombie⟩) := by
      rw [← hk1]
      unfold modifyProc
      rw [view_setProc]
      simp [space, hlive]
      rfl
    generalize hk2 : ((k1.switchPageTable newP4).processReleaseAddressSpace
      (k.procs k.current).p4Table k.current).loadFsBase 0 = k2
    have hv2 : k2.view = (k1.view.load newP4).drop (k.procs k.current).p4Table k.current := by
      rw [← hk2, view_loadFsBase, view_processReleaseAddressSpace, view_switchPageTable]
    have hv3 := view_processCompleteVfork k2 k.current
    rw [hv2, hv1] at hv3
    exact hv3

/-! ## Waiting -/

variable (prepare : Prepare)

lemma sysWait4_spaces (regs : SyscallRegs)
    (hlive : k.Alive) (hz : (k.procs k.current).status ≠ .zombie) :
    SpaceStep k.view thread op (k.sysWait4 prepare regs).2.view := by
  unfold sysWait4
  dsimp only
  split
  · exact .keep op
  split
  · exact .keep op
  cases hfind : k.findSlot (fun p => waitsFor (k.procs k.current).pid (signed regs.rdi) p &&
      p.status == .zombie) with
  | some z =>
    obtain ⟨-, -, hzombie, -⟩ := findSlot_waitsFor hfind
    have hreap : SpaceStep k.view thread op (k.view.set z none) :=
      .reap op (view_slots_eq (by simp [hzombie])) (by simp [hzombie])
    unfold reapZombie
    dsimp only
    split
    · rw [view_clearSlot]
      exact hreap
    unfold writeProcessU32
    split
    · next heq =>
      split at heq
      · obtain ⟨-, rfl⟩ := Prod.mk.inj heq
        exact .keep op
      · simp at heq
    · next heq =>
      split at heq
      · simp at heq
      obtain ⟨-, rfl⟩ := Prod.mk.inj heq
      rw [view_clearSlot, view_storeWord]
      exact hreap
  | none =>
    dsimp only
    split
    · exact .keep op
    split
    · exact .keep op
    cases hj : k.findSlot (fun p => waitsFor (k.procs k.current).pid (signed regs.rdi) p &&
        p.status == .ready) with
    | none => exact .keep op
    | some j =>
      obtain ⟨-, -, hready, -⟩ := findSlot_waitsFor hj
      have hslot := view_slots_live (k := k) (i := j) (by simp [hready]) (by simp [hready])
      unfold blockInWait
      generalize hk1 : k.modifyProc k.current _ = k1
      have hv1 : k1.view = k.view := by
        rw [← hk1]
        exact view_modifyProc_same k _ (space_status hlive hz (by simp) (by simp) rfl)
      have hv := view_taken k1 j (by rw [hv1]; exact hslot)
      rw [hv1] at hv
      refine (congrArg (SpaceStep k.view thread op) ?_).mpr (.switch op hslot)
      rw [← hv]
      rfl

/-! ## Termination -/

lemma view_exitPrologue (c : Nat) : (k.exitPrologue prepare c).view = k.view := by
  unfold exitPrologue
  rw [view_releaseFds]
  split
  · rw [view_writeProcessU32, view_processCompleteVfork]
  · exact view_processCompleteVfork k c

lemma exitThread_spaces (code : UInt64) (prepare : Prepare) (hlive : k.Alive) :
    SpaceStep k.view true (.exit code prepare) (k.exitThread k.current).2.view := by
  have hcur := view_slots_eq hlive
  unfold exitThread
  dsimp only
  have hv1 := view_releaseClear k k.current hcur
  generalize hk1 : (k.releaseProcessMemory k.current).clearSlot k.current = k1 at hv1 ⊢
  cases hnext : k1.nextAfterThread (k.procs k.current).threadGroupId with
  | none =>
    rw [hv1]
    exact .stopThread code prepare rfl hcur
  | some j =>
    obtain ⟨-, hready⟩ := nextAfterThread_ready hnext
    have hne : j ≠ k.current := by
      rintro rfl
      rw [← hk1] at hready
      simp [clearSlot, setProc, zero] at hready
    have hslot := view_slots_live (k := k1) (i := j) (by simp [hready]) (by simp [hready])
    have hv := view_taken k1 j hslot
    rw [hv1] at hslot hv
    have hold : k.view.slots j = some ⟨(k1.procs j).p4Table, false⟩ := by
      simpa [Spaces.ends, update_of_ne hne] using hslot
    refine (congrArg (SpaceStep k.view true _) ?_).mpr
      (.endThread code prepare rfl hcur hne hold)
    exact hv

lemma exitToWaiter_spaces {p : Nat} (raw : UInt32) (hlive : k.Alive)
    (hne : p ≠ k.current) (hp : (k.procs p).status ≠ .dead) (hpz : (k.procs p).status ≠ .zombie) :
    SpaceStep k.view thread op (k.exitToWaiter prepare k.current p raw).view := by
  refine (congrArg (SpaceStep k.view thread op) ?_).mpr (.endProcess op none (.inl rfl)
    (view_slots_eq hlive) hne (view_slots_live hp hpz))
  unfold exitToWaiter
  dsimp only
  generalize ((k.procs p).waitStatusPtr == 0 ||
    prepare (k.procs p).p4Table (k.procs p).waitStatusPtr) = writable
  generalize hk1 : (if (k.procs p).waitStatusPtr ≠ 0 ∧ writable = true then
    (k.switchPageTable (k.procs p).p4Table).storeWord (k.procs p).waitStatusPtr raw
    else k.switchPageTable (k.procs p).p4Table) = k1
  have h1 : k1.view = k.view.load (k.procs p).p4Table ∧ k1.procs = k.procs := by
    rw [← hk1]
    split <;> exact ⟨rfl, rfl⟩
  have hv2 := view_releaseProcessMemory k1 k.current (by rw [h1.1]; exact view_slots_eq hlive)
  have hp2 := releaseProcessMemory_procs (k := k1) hne
  rw [h1.2] at hp2
  generalize k1.releaseProcessMemory k.current = k2 at hv2 hp2 ⊢
  generalize hk3 : k2.modifyProc p _ = k3
  have hv3 : k3.view = k2.view := by
    rw [← hk3]
    exact view_modifyProc_same k2 p (space_status (by rw [hp2]; exact hp) (by rw [hp2]; exact hpz)
      (by simp [clearWait]) (by simp [clearWait]) rfl)
  have hv4 := view_clearSlot k3 k.current
  rw [hv3, hv2, h1.1] at hv4
  have hslot : (k3.clearSlot k.current).view.slots p = some ⟨(k.procs p).p4Table, false⟩ := by
    rw [hv4]
    simpa [Spaces.load, update_of_ne hne] using view_slots_live hp hpz
  refine congrArg₂ Spaces.load (congrArg (fun v : Spaces => v.take p) hv4) ?_
  exact (live_of_slot hslot).2.2

lemma exitToParent_spaces {p : Nat} (raw : UInt32) (hlive : k.Alive)
    (hne : p ≠ k.current) (hp : (k.procs p).status ≠ .dead) (hpz : (k.procs p).status ≠ .zombie) :
    SpaceStep k.view thread op ((k.modifyProc k.current fun q => { q with
      status := .zombie, exitStatus := raw }).exitToParent k.current p).view := by
  refine (congrArg (SpaceStep k.view thread op) ?_).mpr (.endProcess op
    (some ⟨0, true⟩) (.inr rfl) (view_slots_eq hlive) hne (view_slots_live hp hpz))
  generalize hz : k.modifyProc k.current _ = z
  have hvz : z.view = k.view.set k.current (some ⟨(k.procs k.current).p4Table, true⟩) := by
    rw [← hz]
    unfold modifyProc
    rw [view_setProc]
    rfl
  have hzp : z.procs p = k.procs p := by
    rw [← hz]
    simp [modifyProc, setProc, update_of_ne hne]
  unfold exitToParent
  dsimp only
  rw [hzp]
  generalize hw : ({ z with current := p } : Kernel).switchPageTable (k.procs p).p4Table = w
  have hvw : w.view = (z.view.take p).load (k.procs p).p4Table := by
    rw [← hw]
    rfl
  have hwz : w.procs p = z.procs p := by
    rw [← hw]
    rfl
  rw [hvz] at hvw
  have hv1 := view_releaseProcessMemory w k.current (by rw [hvw]; exact update_self ..)
  have hp1 := ((releaseProcessMemory_procs (k := w) hne).trans hwz).trans hzp
  generalize w.releaseProcessMemory k.current = k1 at hv1 hp1 ⊢
  generalize hk2 : k1.modifyProc p _ = k2
  have hv2 : k2.view = k1.view := by
    rw [← hk2]
    refine view_modifyProc_same k1 p ?_
    split
    · exact space_status (by rw [hp1]; exact hp) (by rw [hp1]; exact hpz) (by simp [clearWait])
        (by simp [clearWait]) rfl
    · rfl
  rw [hv1, hvw] at hv2
  have hslot : k2.view.slots p = some ⟨(k.procs p).p4Table, false⟩ := by
    rw [hv2]
    simpa [Spaces.take, Spaces.load, update_of_ne hne] using view_slots_live hp hpz
  have hroot : ((k2.loadFsBase (k2.procs p).fsBase).procs p).p4Table = (k.procs p).p4Table :=
    (live_of_slot hslot).2.2
  rw [view_switchToProcess, view_loadFsBase, hv2, hroot]
  -- The slot was marked as a zombie before it gave up its root.
  have hstart : (((k.view.set k.current (some ⟨(k.procs k.current).p4Table, true⟩)).take p).load
      (k.procs p).p4Table).set k.current (some ⟨0, true⟩) =
      ((k.view.load (k.procs p).p4Table).set k.current (some ⟨0, true⟩)).take p := by
    simp [Spaces.set, Spaces.take, Spaces.load, update_idem]
  rw [hstart, Spaces.drop_take, Spaces.drop_ended]
  rfl

lemma processExitAndWakeParent_spaces (code : UInt64) (prepare : Prepare)
    (hcur : k.current < maxProcesses) (hact : k.machine.Active) :
    SpaceStep k.view (k.procs k.current).isThread (.exit code prepare)
      (k.processExitAndWakeParent prepare code).2.view := by
  obtain ⟨t, ht, -⟩ := hact.current
  obtain ⟨-, hlive, rfl⟩ := machine_tasks_some ht
  have hm1 := machine_exitPrologue (k := k) prepare hcur hlive
  have hv1 := view_exitPrologue (k := k) prepare k.current
  unfold processExitAndWakeParent
  dsimp only
  generalize k.exitPrologue prepare k.current = k1 at hm1 hv1 ⊢
  -- The current process is still a task that does not wait.
  have hact1 : k1.machine.Active := by
    rw [hm1]
    exact hact.completeVfork k.current
  have hcur1 : k1.current = k.current := by
    have h := congrArg Machine.current hm1
    rwa [Machine.completeVfork_current] at h
  obtain ⟨t1, ht1, hrel⟩ := Machine.released_of_completeVfork (c := k.current)
    (machine_tasks_eq hcur hlive)
  rw [← hm1] at ht1
  obtain ⟨-, hlive1, rfl⟩ := machine_tasks_some ht1
  have hthread : (k.procs k.current).isThread = (k1.procs k1.current).isThread := by
    rw [hcur1]
    exact hrel.isThread.symm
  rw [hthread, ← hv1, ← hcur1]
  rw [← hcur1] at hlive1
  by_cases hisThread : (k1.procs k1.current).isThread = true
  · rw [if_pos hisThread, hisThread]
    exact exitThread_spaces code prepare hlive1
  rw [if_neg hisThread]
  -- Without a parent to go to, the process stays a zombie.
  have hstop : SpaceStep k1.view (k1.procs k1.current).isThread (.exit code prepare)
      (k1.modifyProc k1.current fun q => { q with
        status := .zombie, exitStatus := rawStatus code }).view := by
    refine (congrArg (SpaceStep k1.view _ _) ?_).mpr
      (SpaceStep.stopProcess (.exit code prepare) (view_slots_eq hlive1))
    unfold modifyProc
    rw [view_setProc]
    rfl
  cases hfind : k1.findProcessByPid (k1.procs k1.current).parentPid with
  | none => exact hstop
  | some p =>
  obtain ⟨-, hp⟩ := findSlot_some hfind
  simp only [Bool.and_eq_true, bne_iff_ne, beq_iff_eq] at hp
  dsimp only
  split
  · next hwait =>
    have hne : p ≠ k1.current := by
      refine hact1.ne_current fun u hu => Or.inl ?_
      obtain ⟨-, -, rfl⟩ := machine_tasks_some hu
      exact hwait.1
    exact exitToWaiter_spaces _ prepare _ hlive1 hne hp.1 (by simp [hwait.1])
  split
  · next hend =>
    have hne : p ≠ k1.current := by
      rintro rfl
      simp [modifyProc, setProc] at hend
    have hpz : (k1.procs p).status ≠ .zombie := by
      simpa [modifyProc, setProc, update_of_ne hne] using hend.2
    exact exitToParent_spaces _ _ hlive1 hne hp.1 hpz
  · exact hstop

lemma releaseProcessMemory_root (k : Kernel) (i : Nat) :
    ((k.releaseProcessMemory i).procs i).p4Table = 0 := by
  unfold releaseProcessMemory processReleaseAddressSpace vmmDestroyUserSpace
  dsimp only
  repeat' split
  all_goals simp_all [modifyProc, setProc]

/-- The detour of `wake_parent_if_waiting` through the page table of the parent ends with the one of
the current process. -/
lemma view_wakeParentIfWaiting (i : Nat) (raw : UInt32) {s : Space}
    (hs : k.view.slots k.view.current = some s) (hroot : s.root ≠ 0) (hcr3 : k.view.cr3 = s.root) :
    (k.wakeParentIfWaiting prepare i raw).2.view = k.view := by
  obtain ⟨-, rfl⟩ := space_of_slot hs
  have hwake : ∀ (k1 : Kernel) (p : Nat) rax, (k1.procs p).status = .waiting →
      (k1.modifyProc p fun q => clearWait { q with
        regs := { q.regs with rax := rax }, status := .ready }).view = k1.view := by
    intro k1 p rax hw
    exact view_modifyProc_same k1 p (space_status (by simp [hw]) (by simp [hw])
      (by simp [clearWait]) (by simp [clearWait]) rfl)
  unfold wakeParentIfWaiting
  split
  · rfl
  next p _ =>
  dsimp only
  split
  · rfl
  next hwait =>
  have hw : (k.procs p).status = .waiting := not_not.1 (not_or.1 hwait).1
  split
  · exact hwake k p _ hw
  split
  · generalize hk1 : (k.switchPageTable _).storeWord _ raw = k1
    have hload : (k1.switchPageTable (k1.procs k1.current).p4Table).view = k.view := by
      rw [← hk1]
      exact congrArg k.view.load hcr3.symm
    rw [if_pos (by rw [← hk1]; exact hroot)]
    exact (hwake _ p _ (by rw [← hk1]; exact hw)).trans hload
  · exact hwake k p _ hw

lemma sysProcessKill_spaces (regs : SyscallRegs) {s : Space}
    (hcur : k.view.slots k.view.current = some s) (hroot : s.root ≠ 0)
    (hcr3 : k.view.cr3 = s.root) :
    SpaceStep k.view thread op (k.sysProcessKill prepare regs).2.view := by
  unfold sysProcessKill
  dsimp only
  split
  · exact .keep op
  next i hfind =>
  obtain ⟨-, hp⟩ := findSlot_some hfind
  simp only [Bool.and_eq_true, bne_iff_ne, beq_iff_eq] at hp
  split
  · exact .keep op
  next hself =>
  split
  · exact .keep op
  split
  · exact .keep op
  have hne : i ≠ k.view.current := (not_or.1 hself).2
  have hs := view_slots_eq hp.1
  have hv1 := view_releaseProcessMemory (k.releaseFds i) i (by rw [view_releaseFds]; exact hs)
  have hroot1 := releaseProcessMemory_root (k.releaseFds i) i
  generalize (k.releaseFds i).releaseProcessMemory i = k1 at hv1 hroot1 ⊢
  generalize hk2 : k1.modifyProc i _ = k2
  have hv2 : k2.view = k.view.ends i
      ⟨(k.procs i).p4Table, (k.procs i).status == .zombie⟩ (some ⟨0, true⟩) := by
    rw [← hk2]
    unfold modifyProc
    rw [view_setProc, hv1]
    simp [space, hroot1, Spaces.ends]
  have hwake := view_wakeParentIfWaiting (k := k2) prepare i (rawStatus regs.rsi)
    (by rw [hv2]; simpa [Spaces.ends, update_of_ne hne.symm] using hcur) hroot
    (by rw [hv2]; simpa [Spaces.ends] using hcr3)
  generalize k2.wakeParentIfWaiting prepare i (rawStatus regs.rsi) = w at hwake ⊢
  obtain ⟨woken, k3⟩ := w
  cases woken with
  | true =>
    rw [view_clearSlot, hwake, hv2]
    have hclear : ∀ s t, (k.view.ends i s t).set i none = k.view.ends i s none := by
      simp [Spaces.ends, Spaces.set, update_idem]
    rw [hclear]
    exact .kill op none (.inl rfl) hne hs
  | false =>
    rw [hwake, hv2]
    exact .kill op _ (.inr rfl) hne hs

/-! ## Sessions -/

lemma terminateSlots_spaces (uid exceptPid : UInt32) (slots : List Nat) (k : Kernel)
    (hpid : (k.procs k.current).pid = exceptPid) :
    k.view.OthersEnd (slots.foldl (terminateSlot uid exceptPid) k).view ∧
      (slots.foldl (terminateSlot uid exceptPid) k).current = k.current ∧
      ((slots.foldl (terminateSlot uid exceptPid) k).procs k.current).pid = exceptPid := by
  induction slots using List.reverseRecOn with
  | nil => exact ⟨Spaces.OthersEnd.none, rfl, hpid⟩
  | append_singleton slots i ih =>
    obtain ⟨hends, hcur, hexcept⟩ := ih
    rw [List.foldl_append, List.foldl_cons, List.foldl_nil]
    generalize slots.foldl (terminateSlot uid exceptPid) k = k1 at hends hcur hexcept ⊢
    unfold terminateSlot
    dsimp only
    split
    · exact ⟨hends, hcur, hexcept⟩
    next hguard =>
    obtain ⟨hlive, hrest⟩ := not_or.1 hguard
    have hne : i ≠ k1.current := by
      rintro rfl
      rw [hcur] at hrest
      exact (not_or.1 hrest).1 hexcept
    have hv := view_releaseClear (k1.releaseFds i) i (by
      rw [view_releaseFds]
      exact view_slots_eq hlive)
    rw [view_releaseFds] at hv
    refine ⟨?_, ?_, ?_⟩
    · rw [hv]
      exact hends.next hne (view_slots_eq hlive)
    · have hc := congrArg Spaces.current hv
      simp only [Spaces.ends, Spaces.set_current, Spaces.drop_keeps] at hc
      rw [← hcur]
      exact hc
    · rw [← hcur]
      have hprocs : ((((k1.releaseFds i).releaseProcessMemory i).clearSlot i).procs
          k1.current).pid = (k1.procs k1.current).pid := by
        simp only [clearSlot, setProc, update_of_ne hne.symm]
        rw [releaseProcessMemory_procs hne.symm]
        simp [releaseFds, modifyProc, setProc, update_of_ne hne.symm]
      rw [hprocs, hcur]
      exact hexcept

lemma view_processSetIdentity (k : Kernel) (uid : UInt32) :
    (k.processSetIdentity uid).view = k.view :=
  view_modifyProc_same k k.current rfl

lemma sessionLogout_spaces (installed : Bool) :
    SpaceStep k.view thread op (k.sessionLogout installed).2.view := by
  unfold sessionLogout
  dsimp only
  split
  · exact .keep op
  have hends := (terminateSlots_spaces (k.procs k.current).uid (k.procs k.current).pid
    (List.range maxProcesses) k rfl).1
  rw [view_processSetIdentity]
  exact .logout op hends

lemma sessionLogin_spaces (installed : Bool) (verdict : Int) :
    SpaceStep k.view thread op (k.sessionLogin installed verdict).2.view := by
  unfold sessionLogin
  dsimp only
  split
  · exact .keep op
  split
  · exact .keep op
  · rw [view_processSetIdentity]
    exact .keep op

lemma sysSudoAuth_spaces (verdict : Int) :
    SpaceStep k.view thread op (k.sysSudoAuth verdict).2.view := by
  unfold sysSudoAuth
  split
  · have hv : k.processBecomeRoot.view = k.view := view_modifyProc_same k k.current rfl
    rw [hv]
    exact .keep op
  · exact .keep op

lemma sysProcessPause_spaces : SpaceStep k.view thread op (k.sysProcessPause regs).2.view := by
  unfold sysProcessPause
  split
  · exact .keep op
  split
  · exact .keep op
  split
  · next hready =>
    rw [view_setStatus (by simp [hready]) (by simp [hready]) (by simp) (by simp)]
    exact .keep op
  · split <;> exact .keep op

lemma sysProcessResume_spaces : SpaceStep k.view thread op (k.sysProcessResume regs).2.view := by
  unfold sysProcessResume
  split
  · exact .keep op
  split
  · next hpaused =>
    rw [view_setStatus (by simp [hpaused]) (by simp [hpaused]) (by simp) (by simp)]
    exact .keep op
  · exact .keep op

lemma view_finish (r : Outcome × Kernel) : (finish regs r).2.view = r.2.view := by
  obtain ⟨outcome, k⟩ := r
  cases outcome <;> rfl

/-- A kernel entry does nothing else to the address spaces than `SpaceStep` says. -/
theorem step_spaces (hcur : k.current < maxProcesses) (hact : k.machine.Active)
    (hroot : (k.procs k.current).p4Table ≠ 0) (hcr3 : k.cr3 = (k.procs k.current).p4Table) :
    SpaceStep k.view (k.procs k.current).isThread op (k.step op).2.view := by
  obtain ⟨t, ht, -, hz⟩ := hact.current
  obtain ⟨-, hlive, rfl⟩ := machine_tasks_some ht
  cases op with
  | fork regs copied =>
    simp only [step, view_finish]
    exact sysFork_spaces (.fork regs copied) regs copied rfl
  | clone regs copied =>
    simp only [step, view_finish]
    exact sysClone_spaces regs copied hlive hz
  | exec regs result =>
    simp only [step, view_finish]
    exact execProgram_spaces regs result hlive
  | exit code prepare =>
    unfold step
    dsimp only
    split
    · exact .keep _
    · exact processExitAndWakeParent_spaces code prepare hcur hact
  | wait4 regs prepare =>
    simp only [step, view_finish]
    exact sysWait4_spaces _ prepare regs hlive hz
  | kill regs prepare =>
    simp only [step, view_finish]
    exact sysProcessKill_spaces _ prepare regs (view_slots_eq hlive) hroot hcr3
  | pause regs =>
    simp only [step, view_finish]
    exact sysProcessPause_spaces _ regs
  | resume regs =>
    simp only [step, view_finish]
    exact sysProcessResume_spaces _ regs
  | schedule regs =>
    have h : SpaceStep k.view (k.procs k.current).isThread _ _ :=
      schedule_spaces (.schedule regs) regs hlive hz
    unfold step
    dsimp only
    split <;> next hs => rw [hs] at h; exact h
  | timer frame thermal => exact timerHandler_spaces _ frame thermal
  | login regs installed verdict =>
    simp only [step, view_finish]
    exact sessionLogin_spaces _ installed verdict
  | logout regs installed =>
    simp only [step, view_finish]
    exact sessionLogout_spaces _ installed
  | sudoAuth regs verdict =>
    simp only [step, view_finish]
    exact sysSudoAuth_spaces _ verdict

end Steps

end Kernel

/-! ## Steps keep the loaded root -/

/-- The root of the current process is in CR3, and exactly the zombies have no root. -/
structure Spaces.Loaded (v : Spaces) : Prop where
  current : v.slots v.current = some ⟨v.cr3, false⟩
  ended : ∀ i s, v.slots i = some s → (s.root = 0 ↔ s.ended = true)

namespace Spaces

variable {v w : Spaces}

lemma Loaded.cr3_ne_zero (h : v.Loaded) : v.cr3 ≠ 0 := by
  intro h0
  have hended := (h.ended _ _ h.current).1 h0
  simp at hended

lemma ends_slots_of_ne {i j : Nat} (hj : j ≠ i) (s : Space) (t : Option Space) :
    (v.ends i s t).slots j = v.slots j := by
  simp [Spaces.ends, update_of_ne hj]

lemma ended_ends (h : ∀ i s, v.slots i = some s → (s.root = 0 ↔ s.ended = true)) (i : Nat)
    (s : Space) {t : Option Space} (ht : t = none ∨ t = some ⟨0, true⟩) :
    ∀ j x, (v.ends i s t).slots j = some x → (x.root = 0 ↔ x.ended = true) := by
  intro j x hx
  by_cases hj : j = i
  · subst hj
    have hself : (v.ends j s t).slots j = t := by simp [Spaces.ends]
    rw [hself] at hx
    rcases ht with rfl | rfl
    · simp at hx
    · simp [← some.inj hx]
  · rw [ends_slots_of_ne hj] at hx
    exact h j x hx

lemma ended_set (h : ∀ i s, v.slots i = some s → (s.root = 0 ↔ s.ended = true)) {c : Nat}
    {x : Option Space} (hx : ∀ s, x = some s → (s.root = 0 ↔ s.ended = true)) :
    ∀ i s, (v.set c x).slots i = some s → (s.root = 0 ↔ s.ended = true) := by
  intro i s hs
  by_cases hi : i = c
  · subst hi
    exact hx s (by simpa using hs)
  · exact h i s (by simpa [update_of_ne hi] using hs)

lemma loaded_taken (hended : ∀ i s, v.slots i = some s → (s.root = 0 ↔ s.ended = true))
    {j r : Nat} (hj : v.slots j = some ⟨r, false⟩) : ((v.take j).load r).Loaded :=
  ⟨hj, hended⟩

lemma Loaded.set_other (h : v.Loaded) {c : Nat} (hc : v.current ≠ c) {x : Option Space}
    (hx : ∀ s, x = some s → (s.root = 0 ↔ s.ended = true)) : (v.set c x).Loaded :=
  ⟨by simpa [update_of_ne hc] using h.current, ended_set h.ended hx⟩

lemma Loaded.ends_other (h : v.Loaded) {i : Nat} (hi : i ≠ v.current) (s : Space)
    {t : Option Space} (ht : t = none ∨ t = some ⟨0, true⟩) : (v.ends i s t).Loaded where
  current := by
    have hcur : (v.ends i s t).current = v.current := by simp [Spaces.ends]
    have hcr3 : (v.ends i s t).cr3 = v.cr3 := by simp [Spaces.ends]
    rw [hcur, hcr3, ends_slots_of_ne hi.symm]
    exact h.current
  ended := ended_ends h.ended i s ht

lemma Loaded.othersEnd (h : v.Loaded) (hends : v.OthersEnd w) : w.Loaded := by
  induction hends with
  | none => exact h
  | next _ hi hs ih => exact ih.ends_other hi _ (.inl rfl)

lemma Loaded.ne_free (h : v.Loaded) {c : Nat} (hfree : v.slots c = none) : v.current ≠ c := by
  rintro rfl
  rw [h.current] at hfree
  simp at hfree

end Spaces

open Spaces in
/-- A kernel entry after which there is a current process has its root loaded. -/
lemma SpaceStep.loaded {v v' : Spaces} {thread : Bool} {op : Op}
    (hstep : SpaceStep v thread op v') (h : v.Loaded)
    (hlive : ∃ r, v'.slots v'.current = some ⟨r, false⟩) : v'.Loaded := by
  cases hstep with
  | keep => exact h
  | switch _ hj => exact loaded_taken h.ended hj
  | @fork _ c hc hfree hroot =>
    have hset : (v.set c (some ⟨op.newRoot, false⟩)).Loaded :=
      h.set_other (h.ne_free hfree) (by simp [hroot])
    exact ⟨hset.current, hset.ended⟩
  | share _ hc hfree hcur =>
    rw [h.current, some.injEq, Space.mk.injEq] at hcur
    exact h.set_other (h.ne_free hfree) (by simp [← hcur.1, h.cr3_ne_zero])
  | shareSwitch _ hc hfree hcur =>
    rw [h.current, some.injEq, Space.mk.injEq] at hcur
    refine loaded_taken (ended_set h.ended ?_) (by simp)
    simp [← hcur.1, h.cr3_ne_zero]
  | @exec _ s hroot hcur =>
    rw [h.current, some.injEq] at hcur
    subst hcur
    refine ⟨by simp [alloc, load], ?_⟩
    rw [(drop_keeps ..).1]
    exact ended_set (v := v.alloc op.newRoot) h.ended (by simp [hroot])
  | execFailed => exact ⟨h.current, h.ended⟩
  | @reap _ z s hz hended =>
    have hne : v.current ≠ z := by
      rintro rfl
      rw [h.current, some.injEq] at hz
      simp [← hz] at hended
    exact h.set_other hne (by simp)
  | @endThread code prepare s j r hthread hcur hne hj =>
    refine loaded_taken (ended_ends h.ended _ s (.inl rfl)) ?_
    rw [ends_slots_of_ne hne]
    exact hj
  | stopThread =>
    obtain ⟨r, hr⟩ := hlive
    simp [Spaces.ends] at hr
  | @endProcess _ s p r t ht hcur hne hp =>
    refine loaded_taken (ended_ends (v := v.load r) h.ended _ s ht) ?_
    rw [ends_slots_of_ne hne]
    exact hp
  | stopProcess =>
    obtain ⟨r, hr⟩ := hlive
    simp at hr
  | kill _ t ht hi => exact h.ends_other hi _ ht
  | logout _ hends => exact h.othersEnd hends

/-! ## Steps keep the lifetimes -/

/-- The lifetimes, with the current process. -/
structure Spaces.Inv (v : Spaces) : Prop extends v.Loaded where
  lifetimes : v.Lifetimes

namespace Spaces

variable {v w : Spaces}

/-- A root that no other slot has is not in CR3, unless the current slot has it. -/
lemma Loaded.not_loaded (h : v.Loaded) {i : Nat} (hi : i ≠ v.current) {r : Nat}
    (he : ¬ v.Elsewhere r i) : r ≠ v.cr3 := by
  rintro rfl
  exact he ⟨v.current, _, hi.symm, h.current, rfl⟩

/-- A slot ends while the root in CR3 is not its own, or another slot has it too. -/
theorem Lifetimes.ends (h : v.Lifetimes) {i : Nat} {s : Space} (hs : v.slots i = some s)
    {t : Option Space} (ht : t = none ∨ t = some ⟨0, true⟩)
    (hcr3 : s.root ≠ 0 → ¬ v.Elsewhere s.root i → s.root ≠ v.cr3) : (v.ends i s t).Lifetimes := by
  refine (h.release hs s.ended hcr3).change (s := ⟨0, s.ended⟩) (by simp) rfl t fun x hx => ?_
  rcases ht with rfl | rfl
  · simp at hx
  · exact (some.inj hx) ▸ rfl

lemma Inv.ends_other (h : v.Inv) {i : Nat} (hi : i ≠ v.current) {s : Space}
    (hs : v.slots i = some s) {t : Option Space} (ht : t = none ∨ t = some ⟨0, true⟩) :
    (v.ends i s t).Inv :=
  ⟨h.toLoaded.ends_other hi s ht, h.lifetimes.ends hs ht fun _ he => h.not_loaded hi he⟩

lemma Inv.othersEnd (h : v.Inv) (hends : v.OthersEnd w) : w.Inv := by
  induction hends with
  | none => exact h
  | next _ hi hs ih => exact ih.ends_other hi hs (.inl rfl)

lemma Inv.cr3_ne_fresh (h : v.Inv) {r : Nat} (hfresh : v.inUse r = false) : v.cr3 ≠ r := by
  rintro rfl
  have hused := (h.lifetimes.used _ h.cr3_ne_zero).2 ⟨_, _, h.current, rfl⟩
  rw [hfresh] at hused
  simp at hused

lemma Inv.exec (h : v.Inv) {r : Nat} (hfresh : v.inUse r = false) :
    ((((v.alloc r).set v.current (some ⟨r, false⟩)).load r).drop v.cr3 v.current).Lifetimes := by
  have hslot : ((v.alloc r).load r).slots v.current = some ⟨v.cr3, false⟩ := h.current
  have hne := h.cr3_ne_fresh hfresh
  refine Lifetimes.replace (v := (v.alloc r).load r) (s := ⟨v.cr3, false⟩) h.lifetimes.bounded
    h.lifetimes.good hslot (some ⟨r, false⟩) (fun r' hr' hx => ?_) ?_ fun _ _ => hne
  · have hrr : r' ≠ r := fun heq => hx _ rfl heq.symm
    simp only [alloc, load, update_of_ne hrr]
    exact h.lifetimes.used r' hr'
  · rintro x ⟨rfl⟩ -
    exact ⟨hne.symm, by simp [alloc, load]⟩

end Spaces

open Spaces in
/-- A kernel entry keeps the lifetimes, if the root that it is given is new and no thread ends as
the last process with its root. -/
lemma SpaceStep.lifetimes {v v' : Spaces} {thread : Bool} {op : Op}
    (hstep : SpaceStep v thread op v') (h : v.Inv)
    (hfresh : op.newRoot ≠ 0 → v.inUse op.newRoot = false)
    (hshared : ∀ code prepare, op = .exit code prepare → thread = true →
      v.Elsewhere v.cr3 v.current) : v'.Lifetimes := by
  cases hstep with
  | keep => exact h.lifetimes
  | switch => exact (h.lifetimes.take _).load _
  | fork _ hc hfree => exact h.lifetimes.add_new false hc hfree
  | share _ hc hfree hcur => exact h.lifetimes.add false hc hfree ⟨_, _, hcur, rfl⟩
  | shareSwitch _ hc hfree hcur =>
    exact ((h.lifetimes.add false hc hfree ⟨_, _, hcur, rfl⟩).take _).load _
  | @exec _ s hroot hcur =>
    rw [h.current, some.injEq] at hcur
    subst hcur
    exact h.exec (hfresh hroot)
  | execFailed _ hroot =>
    exact h.lifetimes.alloc_destroy hroot (hfresh hroot) (h.cr3_ne_fresh (hfresh hroot)).symm
  | @reap _ z s hz hended =>
    exact h.lifetimes.change hz ((h.ended z s hz).2 hended) none (by simp)
  | @endThread code prepare s j r hthread hcur =>
    have hs : s.root = v.cr3 := by
      rw [h.current, some.injEq] at hcur
      rw [← hcur]
    have hends := h.lifetimes.ends hcur (.inl rfl) fun _ he =>
      absurd (hs ▸ hshared code prepare rfl hthread) he
    exact (hends.take _).load _
  | @stopThread code prepare s hthread hcur =>
    have hs : s.root = v.cr3 := by
      rw [h.current, some.injEq] at hcur
      rw [← hcur]
    exact h.lifetimes.ends hcur (.inl rfl) fun _ he =>
      absurd (hs ▸ hshared code prepare rfl hthread) he
  | @endProcess _ s p r t ht hcur hne hp =>
    have hload : ((v.load r).slots v.current) = some s := hcur
    have hends := (h.lifetimes.load r).ends hload ht fun _ he heq =>
      he ⟨p, _, hne, hp, heq.symm⟩
    exact (hends.take _).load _
  | @stopProcess _ s hcur =>
    refine ⟨bounded_set h.lifetimes.bounded (h.lifetimes.bounded _ _ hcur) _, fun r hr => ?_,
      h.lifetimes.good⟩
    rw [set_inUse, h.lifetimes.used r hr, hasRoot_set, hasRoot_iff, hcur]
    simp
  | kill _ t ht hi hs => exact (h.ends_other hi hs ht).lifetimes
  | logout _ hends => exact (h.othersEnd hends).lifetimes

/-! ## Runs -/

namespace Kernel

/-- **Lifetimes of address spaces.** A root is in use exactly while a process that is not dead has
it, and every call of `vmm_destroy_user_space` so far was for a root in use, not in CR3, that no
process had any more. -/
structure SpaceLifetimes (k : Kernel) : Prop where
  used : ∀ r, r ≠ 0 → (k.spaces r = true ↔
    ∃ i < maxProcesses, (k.procs i).status ≠ .dead ∧ (k.procs i).p4Table = r)
  destroyed : ∀ d ∈ k.destroyed, d.Good

/-- The root that the memory code hands to the entry is not in use. -/
def FreshRoot (k : Kernel) (op : Op) : Prop := op.newRoot ≠ 0 → k.spaces op.newRoot = false

/-- The entry is not the end of a thread that is the last process with its root. -/
def ThreadShares (k : Kernel) (op : Op) : Prop :=
  ∀ code prepare, op = .exit code prepare → (k.procs k.current).isThread = true →
    ∃ i < maxProcesses, i ≠ k.current ∧ (k.procs i).status ≠ .dead ∧
      (k.procs i).p4Table = (k.procs k.current).p4Table

variable {k : Kernel}

lemma spaceLifetimes_of_view (h : k.view.Lifetimes) : k.SpaceLifetimes where
  used := by
    intro r hr
    refine (h.used r hr).trans ⟨?_, ?_⟩
    · rintro ⟨i, s, hs, hroot⟩
      have hlive : (k.procs i).status ≠ .dead := by
        intro hdead
        rw [view_slots_none hdead] at hs
        simp at hs
      rw [view_slots_eq hlive, some.injEq] at hs
      exact ⟨i, h.bounded i s (hs ▸ view_slots_eq hlive), hlive, by rw [← hroot, ← hs]⟩
    · rintro ⟨i, -, hlive, hroot⟩
      exact ⟨i, _, view_slots_eq hlive, hroot⟩
  destroyed := h.good

lemma view_initProcess {p4 : Nat} (hp4 : p4 ≠ 0) : (initProcess p4).view.Inv := by
  have hslots : ∀ i s, (initProcess p4).view.slots i = some s → i = 0 ∧ s = ⟨p4, false⟩ := by
    intro i s hs
    by_cases hi : i = 0
    · subst hi
      exact ⟨rfl, (some.inj hs).symm⟩
    · have hdead : ((initProcess p4).procs i).status = .dead := by simp [initProcess, hi, zero]
      rw [view_slots_none hdead] at hs
      simp at hs
  refine ⟨⟨rfl, fun i s hs => by simp [(hslots i s hs).2, hp4]⟩, fun i s hs => ?_, fun r _ => ?_,
    by simp [initProcess, view]⟩
  · rw [(hslots i s hs).1]
    decide
  · have hinit : (initProcess p4).view.inUse r = (r == p4) := rfl
    rw [hinit, beq_iff_eq]
    constructor
    · rintro rfl
      exact ⟨0, ⟨r, false⟩, rfl, rfl⟩
    · rintro ⟨i, s, hs, hroot⟩
      rw [← hroot, (hslots i s hs).2]

lemma cr3_of_loaded (hact : k.machine.Active) (h : k.view.Loaded) :
    k.cr3 = (k.procs k.current).p4Table := by
  obtain ⟨-, hlive, -, hz⟩ := current_of_active hact
  have hcurrent : k.view.slots k.current = some ⟨k.cr3, false⟩ := h.current
  rw [view_slots_live hlive hz, some.injEq, Space.mk.injEq] at hcurrent
  exact hcurrent.1.symm

lemma spaceStep_of_loaded (op : Op) (hact : k.machine.Active) (h : k.view.Loaded) :
    SpaceStep k.view (k.procs k.current).isThread op (k.step op).2.view := by
  have hcr3 := cr3_of_loaded hact h
  exact step_spaces op (current_of_active hact).1 hact (by rw [← hcr3]; exact h.cr3_ne_zero) hcr3

lemma loaded_step (op : Op) (hact : k.machine.Active) (h : k.view.Loaded)
    (hout : (k.step op).1 ≠ .halted) : (k.step op).2.view.Loaded := by
  obtain ⟨-, hlive, -, hz⟩ := current_of_active (active_step hact op hout)
  exact (spaceStep_of_loaded op hact h).loaded h ⟨_, view_slots_live hlive hz⟩

lemma lifetimes_step (op : Op) (hact : k.machine.Active) (h : k.view.Inv)
    (hfresh : k.FreshRoot op) (hshares : k.ThreadShares op) : (k.step op).2.view.Lifetimes := by
  refine (spaceStep_of_loaded op hact h.toLoaded).lifetimes h hfresh
    fun code prepare hop hthread => ?_
  obtain ⟨i, -, hne, hlive, hroot⟩ := hshares code prepare hop hthread
  exact ⟨i, _, hne, view_slots_eq hlive, hroot.trans (cr3_of_loaded hact h.toLoaded).symm⟩

lemma view_inv_of_reaches {p4 : Nat} (hp4 : p4 ≠ 0)
    (h : (initProcess p4).Reaches (fun k op => k.FreshRoot op ∧ k.ThreadShares op) k) :
    k.machine.Active ∧ k.view.Inv := by
  induction h with
  | start => exact ⟨active_initProcess p4, view_initProcess hp4⟩
  | step op _ hgood hout ih =>
    exact ⟨active_step ih.1 op hout, loaded_step op ih.1 ih.2.toLoaded hout,
      lifetimes_step op ih.1 ih.2 hgood.1 hgood.2⟩

/-- **Lifetimes of address spaces.** In every run from `init_process` in which the memory code hands
out roots that are not in use, and in which no thread ends as the last process with its root, every
state has the lifetimes right, also the one in which the machine stops. -/
theorem lifetimes_of_reaches {p4 : Nat} (hp4 : p4 ≠ 0) {k : Kernel}
    (h : (initProcess p4).Reaches (fun k op => k.FreshRoot op ∧ k.ThreadShares op) k) :
    k.SpaceLifetimes ∧ ∀ op, k.FreshRoot op → k.ThreadShares op → (k.step op).2.SpaceLifetimes := by
  obtain ⟨hact, hinv⟩ := view_inv_of_reaches hp4 h
  refine ⟨spaceLifetimes_of_view hinv.lifetimes, fun op hfresh hshares => ?_⟩
  exact spaceLifetimes_of_view (lifetimes_step op hact hinv hfresh hshares)

/-- The first process makes a second one, which makes a thread and ends; the thread is taken. -/
def leaveThread : List Op :=
  [.fork .zero 2, .schedule .zero,
    .clone { SyscallRegs.zero with rdi := cloneVm ||| cloneThread } 0,
    .exit 0 fun _ _ => true, .schedule .zero]

/-- The thread ends as the last process with its root: the root is destroyed while it is in CR3. -/
theorem thread_exit_destroys_loaded :
    ((((initProcess 1).run leaveThread).step (.exit 0 fun _ _ => true)).2.destroyed.map
      fun d => (d.root, d.cr3)) = [(2, 2)] ∧
      ¬ (((initProcess 1).run leaveThread).step (.exit 0 fun _ _ => true)).2.SpaceLifetimes := by
  have hcalls : ((((initProcess 1).run leaveThread).step (.exit 0 fun _ _ => true)).2.destroyed.map
      fun d => (d.root, d.cr3)) = [(2, 2)] := by decide +kernel
  refine ⟨hcalls, fun h => ?_⟩
  obtain ⟨d, hd, hroot⟩ := List.map_eq_singleton_iff.1 hcalls
  have hgood := h.destroyed d (by rw [hd]; simp)
  rw [Prod.mk.injEq] at hroot
  exact hgood.notLoaded (hroot.1.trans hroot.2.symm)

/-- A process that was forked ends, and its address space is destroyed when CR3 no longer holds
it. -/
theorem lifetimes_of_fork_exit :
    let k := (initProcess 1).run [.fork .zero 2, .schedule .zero, .exit 0 fun _ _ => true]
    (k.destroyed.map fun d => (d.root, d.cr3)) = [(2, 1)] ∧ k.SpaceLifetimes := by
  have hreach : (initProcess 1).Reaches (fun k op => k.FreshRoot op ∧ k.ThreadShares op)
      ((initProcess 1).run [.fork .zero 2, .schedule .zero]) := by
    refine .step (.schedule .zero) (.step (.fork .zero 2) .start ?_ (by decide +kernel)) ?_
      (by decide +kernel)
    · exact ⟨fun _ => rfl, fun _ _ h => by simp at h⟩
    · exact ⟨fun h => absurd rfl h, fun _ _ h => by simp at h⟩
  refine ⟨by decide +kernel, (lifetimes_of_reaches (by decide) hreach).2 (.exit 0 fun _ _ => true)
    (fun h => absurd rfl h) fun _ _ _ hthread => absurd hthread (by decide +kernel)⟩

end Kernel

end AosKernel.Proc
