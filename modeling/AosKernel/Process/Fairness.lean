import AosKernel.Process.Refinement

/-!
# Fairness of the timer

The scan of `process_select_next_ready` starts behind the current slot and passes no ready slot
unless it is throttled; a throttled slot is taken when the scan comes to it for the fourth time at
the latest. `Kernel.rank` is the number of preemptions after which a slot has been taken, and
`preemption_fair` says how long a process waits.
-/

namespace AosKernel.Proc

open Lib Function

/-- How often the scan has to come to a ready process until it takes it. -/
def Process.turns (p : Process) : Nat :=
  if p.thermalThrottled then 4 - p.thermalSkipPhase.toNat % 4 else 1

lemma Process.turns_bounds (p : Process) :
    0 < p.turns ∧ p.turns ≤ if p.thermalThrottled then 4 else 1 := by
  unfold turns
  split <;> omega

namespace Kernel

/-! ## The scan -/

section Scan

variable {i : Nat}

/-- The scan changes no slot that it does not come to, and finds a process if it has a fallback. -/
lemma selectLoop_other : ∀ (n idx : Nat) (fallback : Option Nat) (k : Kernel),
    (∀ e < n, (idx + e) % maxProcesses ≠ i) →
      (selectLoop n idx fallback k).2.procs i = k.procs i ∧
        (fallback.isSome → (selectLoop n idx fallback k).1.isSome) := by
  intro n
  induction n with
  | zero => exact fun _ _ _ _ => ⟨rfl, id⟩
  | succ n ih =>
    intro idx fallback k hother
    have hrest : ∀ e < n, (idx + 1 + e) % maxProcesses ≠ i := fun e he => by
      rw [add_assoc, add_comm 1 e]
      exact hother (e + 1) (by omega)
    have hset : ∀ p, (k.setProc (idx % maxProcesses) p).procs i = k.procs i := fun p =>
      update_of_ne (hother 0 (by omega)).symm ..
    unfold selectLoop
    dsimp only
    split
    · exact ih _ _ k hrest
    split
    · split
      · obtain ⟨hkept, hsome⟩ := ih (idx + 1) _ _ hrest
        exact ⟨hkept.trans (hset _), fun _ => hsome (by cases fallback <;> rfl)⟩
      · exact ⟨hset _, fun _ => rfl⟩
    · exact ⟨rfl, fun _ => rfl⟩

/-- What the scan does for a ready slot: it takes it, it takes one before it, or it passes it. -/
inductive Scanned (i idx d : Nat) (k : Kernel) : Option Nat × Kernel → Prop where
  | taken {k' : Kernel} : Scanned i idx d k (some i, k')
  | before {k' : Kernel} {e : Nat} (he : e < d) (hkept : k'.procs i = k.procs i) :
      Scanned i idx d k (some ((idx + e) % maxProcesses), k')
  | passed {k' : Kernel} {j : Nat}
      (hturn : (k'.procs i).turns + 1 = (k.procs i).turns) : Scanned i idx d k (some j, k')

lemma Scanned.succ {idx d : Nat} {k k1 : Kernel} {r : Option Nat × Kernel}
    (hk : k1.procs i = k.procs i) (h : Scanned i (idx + 1) d k1 r) :
    Scanned i idx (d + 1) k r := by
  cases h with
  | taken => exact .taken
  | before he hkept =>
    rw [add_assoc, add_comm 1]
    exact .before (by omega) (hkept.trans hk)
  | passed hturn => exact .passed (by rw [hturn, hk])

/-- A throttled process that the scan passes has one turn less to wait for. -/
lemma turns_passed {p : Process} (hthrottled : p.thermalThrottled = true)
    (hphase : (p.thermalSkipPhase + 1) &&& 3 ≠ 0) :
    ({ p with thermalSkipPhase := (p.thermalSkipPhase + 1) &&& 3 } : Process).turns + 1 =
      p.turns := by
  have hand : ∀ x : UInt8, (x &&& 3).toNat = x.toNat % 4 := fun x => by
    rw [UInt8.toNat_and]
    exact Nat.and_two_pow_sub_one_eq_mod x.toNat 2
  have hnext : ((p.thermalSkipPhase + 1) &&& 3).toNat ≠ 0 := fun h => hphase (UInt8.toNat_inj.1 h)
  have hlt := p.thermalSkipPhase.toNat_lt
  unfold Process.turns
  rw [hand, UInt8.toNat_add] at *
  simp only [hthrottled, if_true, UInt8.toNat_one] at *
  omega

lemma selectLoop_scanned : ∀ (n idx d : Nat) (fallback : Option Nat) (k : Kernel),
    d < n → n ≤ maxProcesses → (idx + d) % maxProcesses = i → (k.procs i).status = .ready →
      Scanned i idx d k (selectLoop n idx fallback k) := by
  intro n
  induction n with
  | zero => exact fun _ _ _ _ h => absurd h (Nat.not_lt_zero _)
  | succ n ih =>
    rintro idx d fallback k hd hn rfl hready
    unfold selectLoop
    dsimp only
    cases d with
    | zero =>
      rw [add_zero] at hready ⊢
      -- Behind the slot the scan does not come to it again.
      have hpass : ∀ (fb : Option Nat) (k1 : Kernel), fb.isSome →
          (k1.procs (idx % maxProcesses)).turns + 1 = (k.procs (idx % maxProcesses)).turns →
            Scanned (idx % maxProcesses) idx 0 k (selectLoop n (idx + 1) fb k1) := by
        intro fb k1 hfb hturn
        obtain ⟨hkept, hsome⟩ := selectLoop_other n (idx + 1) fb k1 (i := idx % maxProcesses)
          fun e he => by
            unfold maxProcesses at *
            omega
        generalize selectLoop n (idx + 1) fb k1 = r at hsome hkept ⊢
        obtain ⟨found, k'⟩ := r
        obtain ⟨j, rfl⟩ := Option.isSome_iff_exists.1 (hsome hfb)
        exact .passed (by rw [hkept]; exact hturn)
      rw [if_neg (by simp [hready])]
      split
      · next hthrottled =>
        split
        · next hphase =>
          refine hpass _ _ (by cases fallback <;> rfl) ?_
          simpa [setProc] using turns_passed hthrottled hphase
        · exact .taken
      · exact .taken
    | succ d =>
      have hne : (idx + (d + 1)) % maxProcesses ≠ idx % maxProcesses := by
        unfold maxProcesses at *
        omega
      generalize hi : (idx + (d + 1)) % maxProcesses = i at *
      have hrest : ∀ (fb : Option Nat) (k1 : Kernel), k1.procs i = k.procs i →
          Scanned i idx (d + 1) k (selectLoop n (idx + 1) fb k1) := fun fb k1 hk =>
        (ih (idx + 1) d fb k1 (by omega) (by omega) (by rw [← hi, add_assoc, add_comm 1])
          (by rw [hk]; exact hready)).succ hk
      have hset : ∀ p, (k.setProc (idx % maxProcesses) p).procs i = k.procs i := fun p =>
        update_of_ne hne ..
      split
      · exact hrest _ k rfl
      split
      · split
        · exact hrest _ _ (hset _)
        · exact .before (Nat.succ_pos d) (hset _)
      · exact .before (Nat.succ_pos d) rfl

end Scan

/-! ## One interrupt -/

/-- The process in slot `i` is ready or running, and throttled or not. -/
structure Waits (i : Nat) (throttled : Bool) (k : Kernel) : Prop where
  current : k.current < maxProcesses
  running : (k.procs k.current).status = .running
  slot : i < maxProcesses
  ready : i ≠ k.current → (k.procs i).status = .ready
  throttled : (k.procs i).thermalThrottled = throttled

/-- The number of interrupts within which slot `i` is taken. -/
def rank (i : Nat) (k : Kernel) : Nat :=
  ((k.procs i).turns - 1) * maxProcesses +
    ((i + (maxProcesses - 1) - k.current) % maxProcesses + 1)

section Preemption

variable {i : Nat} {throttled : Bool} {k : Kernel} {frame : InterruptFrame}

lemma preempt_takes {x : Nat} {k2 : Kernel}
    (hrun : ¬(frame.fromUser = false ∨ (k.procs k.current).status ≠ .running))
    (hsel : (k.interrupted frame).processSelectNextReady k.current = (some x, k2)) :
    (k.preemptFromInterrupt frame).current = x ∧
      (k.preemptFromInterrupt frame).procs = (k2.setStatus x .running).procs := by
  have hsame := (processSelectNextReady_spec (k.interrupted frame) k.current).1
  rw [hsel] at hsame
  unfold preemptFromInterrupt
  rw [if_neg hrun]
  dsimp only
  rw [interrupted_eq, hsel]
  dsimp only
  split
  · next hx =>
    subst hx
    exact ⟨hsame.current, rfl⟩
  · exact ⟨rfl, rfl⟩

/-- An interrupt takes the process, or brings it closer to its turn. -/
lemma Waits.preempt (h : Waits i throttled k) (hframe : frame.fromUser = true) :
    Waits i throttled (k.preemptFromInterrupt frame) ∧
      ((k.preemptFromInterrupt frame).current = i ∨
        rank i (k.preemptFromInterrupt frame) < rank i k) := by
  obtain ⟨hcur, hrun, hi, hready, hthrottled⟩ := h
  have hfield : ∀ {β : Type} (f : Process → β),
      (∀ p : Process, f { saveInterruptContext p frame with status := .ready } = f p) →
        f ((k.interrupted frame).procs i) = f (k.procs i) := modifyProc_field k k.current i
  have hready1 : ((k.interrupted frame).procs i).status = .ready := by
    by_cases hic : i = k.current
    · simp [interrupted, modifyProc, setProc, hic]
    · simp [interrupted, modifyProc, setProc, update_of_ne hic, hready hic]
  -- The scan comes to the slot after as many steps as its rank says.
  have hscan := selectLoop_scanned maxProcesses (k.current + 1)
    ((i + (maxProcesses - 1) - k.current) % maxProcesses) none (k.interrupted frame)
    (Nat.mod_lt _ (by decide)) le_rfl (i := i) (by unfold maxProcesses at *; omega) hready1
  obtain ⟨hsame, hfound⟩ := processSelectNextReady_spec (k.interrupted frame) k.current
  rcases hsel : (k.interrupted frame).processSelectNextReady k.current with ⟨found, k2⟩
  rw [hsel] at hsame hfound
  rw [processSelectNextReady] at hsel
  rw [hsel] at hscan
  have htakes : ∀ x, found = some x → Waits i throttled (k.preemptFromInterrupt frame) ∧
      (k.preemptFromInterrupt frame).current = x ∧
      ((k.preemptFromInterrupt frame).procs i).turns = (k2.procs i).turns := by
    rintro x rfl
    obtain ⟨hx, hprocs⟩ := preempt_takes (by simp [hframe, hrun]) hsel
    have hkeep : ∀ {β : Type} (f : Process → β),
        (∀ p : Process, f { p with status := .running } = f p) →
          f ((k.preemptFromInterrupt frame).procs i) = f (k2.procs i) := by
      rw [hprocs]
      exact modifyProc_field k2 x i
    refine ⟨⟨hx ▸ (hfound x rfl).1, ?_, hi, fun hne => ?_, ?_⟩, hx,
      hkeep Process.turns fun _ => rfl⟩
    · rw [hx, hprocs]
      simp [setStatus, modifyProc, setProc]
    · rw [hprocs]
      simp only [setStatus, modifyProc, setProc]
      rw [update_of_ne (hx ▸ hne), hsame.status, hready1]
    · rw [hkeep Process.thermalThrottled fun _ => rfl, hsame.procs i, ← hthrottled]
      exact hfield Process.thermalThrottled fun _ => rfl
  have hturns1 := hfield Process.turns fun _ => rfl
  unfold rank
  cases hscan with
  | taken =>
    obtain ⟨hw, hx, -⟩ := htakes i rfl
    exact ⟨hw, .inl hx⟩
  | before he hkept =>
    obtain ⟨hw, hx, hturns⟩ := htakes _ rfl
    rw [hx, hturns, hkept, hturns1]
    refine ⟨hw, .inr ?_⟩
    unfold maxProcesses at *
    omega
  | passed hturn =>
    obtain ⟨hw, hx, hturns⟩ := htakes _ rfl
    have hpos := (k2.procs i).turns_bounds.1
    rw [hturns]
    refine ⟨hw, .inr ?_⟩
    unfold maxProcesses at *
    omega

end Preemption

/-! ## Runs -/

/-- The processes that preemptions go on with, given the interrupted contexts. -/
def selected (k : Kernel) : List InterruptFrame → List Nat
  | [] => []
  | frame :: frames =>
      (k.preemptFromInterrupt frame).current :: (k.preemptFromInterrupt frame).selected frames

section Runs

variable {i : Nat} {throttled : Bool} {window : List InterruptFrame}
  (hwindow : ∀ f ∈ window, f.fromUser = true)
include hwindow

lemma Waits.selected {k : Kernel} (h : Waits i throttled k) (hrank : rank i k ≤ window.length) :
    i ∈ k.selected window := by
  induction window generalizing k with
  | nil => simp [rank] at hrank
  | cons f window ih =>
    obtain ⟨hf, hrest⟩ := List.forall_mem_cons.1 hwindow
    obtain ⟨hw, htaken | hless⟩ := h.preempt hf
    · exact htaken ▸ List.mem_cons_self
    · rw [List.length_cons] at hrank
      exact List.mem_cons_of_mem _ (ih hrest hw (by omega))

/-- A window that is long enough takes the process, whatever was preempted before it. -/
lemma Waits.selected_in {k : Kernel} (h : Waits i throttled k) {before : List InterruptFrame}
    (hbefore : ∀ f ∈ before, f.fromUser = true)
    (hlength : (if throttled then 4 else 1) * maxProcesses ≤ window.length) :
    i ∈ (k.selected (before ++ window)).drop before.length := by
  induction before generalizing k with
  | nil =>
    refine h.selected hwindow ?_
    have hturns := (k.procs i).turns_bounds
    rw [h.throttled] at hturns
    unfold rank maxProcesses at *
    omega
  | cons f before ih =>
    obtain ⟨hf, hrest⟩ := List.forall_mem_cons.1 hbefore
    exact ih (h.preempt hf).1 hrest

end Runs

/-- `process_select_next_ready` finds a ready process if there is one. Among preemptions of user
mode, a process that is ready or running is taken by one of any 64, and by one of any 256 if it is
throttled. -/
theorem preemption_fair (k : Kernel) :
    (∀ current, (∃ i < maxProcesses, (k.procs i).status = .ready) →
      ∃ x < maxProcesses, (k.processSelectNextReady current).1 = some x ∧
        (k.procs x).status = .ready) ∧
      (k.current < maxProcesses → (k.procs k.current).status = .running →
        ∀ before window : List InterruptFrame, (∀ f ∈ before ++ window, f.fromUser = true) →
          ∀ i < maxProcesses, i = k.current ∨ (k.procs i).status = .ready →
            (if (k.procs i).thermalThrottled then 4 else 1) * maxProcesses ≤ window.length →
              i ∈ (k.selected (before ++ window)).drop before.length) := by
  constructor
  · rintro current ⟨i, hi, hready⟩
    have hscan := selectLoop_scanned maxProcesses (current + 1)
      ((i + maxProcesses - (current + 1) % maxProcesses) % maxProcesses) none k
      (Nat.mod_lt _ (by decide)) le_rfl (i := i) (by unfold maxProcesses at *; omega) hready
    have hfound := (processSelectNextReady_spec k current).2
    unfold processSelectNextReady at hfound ⊢
    generalize selectLoop maxProcesses (current + 1) none k = r at *
    cases hscan <;> exact ⟨_, (hfound _ rfl).1, rfl, (hfound _ rfl).2⟩
  · intro hcur hrun before window hframes i hi hready hlength
    obtain ⟨hbefore, hwindow⟩ := List.forall_mem_append.1 hframes
    exact Waits.selected_in hwindow ⟨hcur, hrun, hi, hready.resolve_left, rfl⟩ hbefore hlength

/-- Process 1 with two ready children, the second of which runs a program that the policy
throttles. -/
def throttledChild : Kernel :=
  let forked := (((initProcess 1).sysFork .zero 2).2.sysFork .zero 3).2
  updateThermalPolicy true (forked.modifyProc 2 fun p => { p with command := CString.ascii ['a'] })

/-- Both children are taken again and again, the second one after at most 256 preemptions. -/
theorem preemption_fair_throttled :
    let frames n := List.replicate n throttledChild.user
    (throttledChild.procs 1).thermalThrottled = false ∧
      (throttledChild.procs 2).thermalThrottled = true ∧
      1 ∈ (throttledChild.selected (frames 5 ++ frames 64)).drop 5 ∧
      2 ∈ (throttledChild.selected (frames 5 ++ frames 256)).drop 5 := by
  intro frames
  have huser : ∀ m n, ∀ f ∈ frames m ++ frames n, f.fromUser = true := by
    intro m n f hf
    obtain hf | hf := List.mem_append.1 hf <;> exact List.eq_of_mem_replicate hf ▸ by decide
  have hthrottled : (throttledChild.procs 2).thermalThrottled = true := by decide
  have hfree : (throttledChild.procs 1).thermalThrottled = false := by decide
  have hfair := (preemption_fair throttledChild).2 (by decide) (by decide)
  refine ⟨hfree, hthrottled, ?_, ?_⟩
  · exact hfair (frames 5) (frames 64) (huser 5 64) 1 (by decide) (.inr (by decide))
      (by rw [hfree, List.length_replicate]; decide)
  · exact hfair (frames 5) (frames 256) (huser 5 256) 2 (by decide) (.inr (by decide))
      (by rw [hthrottled, List.length_replicate]; decide)

end Kernel

end AosKernel.Proc
