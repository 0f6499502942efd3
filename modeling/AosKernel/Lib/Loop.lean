import Mathlib.Tactic

/-!
# Loops that may leave their function

The C loop `for (i = lo; i < lo + n; i++) { ... return -1; ... }` is `forLoop body n lo s`: the body
maps the state to a flag and a state, and a `false` flag leaves the loop with that state. The one
rule `forLoop_post` carries an invariant over the completed iterations and a postcondition of the
failing one. A loop that never leaves its function, `for (...) { ... }` in a `void` one, is
`forEach`. -/

namespace AosKernel.Lib.Loop

universe u

variable {σ : Type u}

/-- Iterations `lo, lo + 1, ..., lo + n - 1` of `body`, left at the first `false`. -/
def forLoop (body : Nat → σ → Bool × σ) : Nat → Nat → σ → Bool × σ
  | 0, _, s => (true, s)
  | n + 1, i, s =>
      match body i s with
      | (true, s') => forLoop body n (i + 1) s'
      | (false, s') => (false, s')

/-- Postcondition of a fallible step: `P` on success, `Q` on failure. -/
def Post (P Q : σ → Prop) (r : Bool × σ) : Prop :=
  (r.1 = true → P r.2) ∧ (r.1 = false → Q r.2)

variable {s : σ} {P Q : σ → Prop}

lemma post_true (h : P s) : Post P Q (true, s) :=
  ⟨fun _ => h, fun h' => by simp at h'⟩

lemma post_false (h : Q s) : Post P Q (false, s) :=
  ⟨fun h' => by simp at h', fun _ => h⟩

variable {r : Bool × σ} {i : Nat} {body : Nat → σ → Bool × σ} {s' : σ}

theorem Post.mono {P' Q' : σ → Prop} (h : Post P Q r) (hP : ∀ s, P s → P' s)
    (hQ : ∀ s, Q s → Q' s) : Post P' Q' r :=
  ⟨fun hr => hP _ (h.1 hr), fun hr => hQ _ (h.2 hr)⟩

lemma post_not_false_iff : Post P (fun _ => False) r ↔ r.1 = true ∧ P r.2 := by
  constructor
  · intro h
    cases hr : r.1 with
    | true => exact ⟨rfl, h.1 hr⟩
    | false => exact absurd (h.2 hr) id
  · rintro ⟨h1, h2⟩
    exact ⟨fun _ => h2, fun h => by rw [h1] at h; simp at h⟩

lemma forLoop_succ_of_true (n : Nat) (h : body i s = (true, s')) :
    forLoop body (n + 1) i s = forLoop body n (i + 1) s' := by
  simp [forLoop, h]

lemma forLoop_succ_of_false (n : Nat) (h : body i s = (false, s')) :
    forLoop body (n + 1) i s = (false, s') := by
  simp [forLoop, h]

/-- The loop rule. `P i` holds before iteration `i`; an iteration that leaves the loop establishes
`Q`. -/
theorem forLoop_post (body : Nat → σ → Bool × σ) {P : Nat → σ → Prop} :
    ∀ (n lo : Nat) (s : σ), P lo s →
      (∀ i s, lo ≤ i → i < lo + n → P i s → Post (P (i + 1)) Q (body i s)) →
      Post (P (lo + n)) Q (forLoop body n lo s) := by
  intro n
  induction n with
  | zero =>
    intro lo s hP _
    exact post_true hP
  | succ n ih =>
    intro lo s hP hbody
    have hfirst := hbody lo s le_rfl (by omega) hP
    cases hb : body lo s with
    | mk flag s' =>
      rw [hb] at hfirst
      cases flag with
      | true =>
        rw [forLoop_succ_of_true n hb]
        have hrest := ih (lo + 1) s' (hfirst.1 rfl)
          (fun i t h1 h2 => hbody i t (by omega) (by omega))
        rwa [show lo + 1 + n = lo + (n + 1) by omega] at hrest
      | false =>
        rw [forLoop_succ_of_false n hb]
        exact post_false (hfirst.2 rfl)

theorem forLoop_total (body : Nat → σ → Bool × σ) (n lo : Nat) {P : Nat → σ → Prop} (hP : P lo s)
    (hbody : ∀ i s, lo ≤ i → i < lo + n → P i s → (body i s).1 = true ∧ P (i + 1) (body i s).2) :
    (forLoop body n lo s).1 = true ∧ P (lo + n) (forLoop body n lo s).2 :=
  post_not_false_iff.1 (forLoop_post body n lo s hP fun i s h1 h2 h =>
    post_not_false_iff.2 (hbody i s h1 h2 h))

/-- Iterations `lo, lo + 1, ..., lo + n - 1` of a body that does not leave the loop. -/
def forEach (body : Nat → σ → σ) : Nat → Nat → σ → σ
  | 0, _, s => s
  | n + 1, i, s => forEach body n (i + 1) (body i s)

theorem forEach_inv (body : Nat → σ → σ) {P : Nat → σ → Prop} :
    ∀ (n lo : Nat) (s : σ), P lo s →
      (∀ i s, lo ≤ i → i < lo + n → P i s → P (i + 1) (body i s)) →
      P (lo + n) (forEach body n lo s) := by
  intro n
  induction n with
  | zero =>
    intro lo s hP _
    exact hP
  | succ n ih =>
    intro lo s hP hbody
    have hrest := ih (lo + 1) (body lo s) (hbody lo s le_rfl (by omega) hP)
      (fun i t h1 h2 => hbody i t (by omega) (by omega))
    rwa [show lo + 1 + n = lo + (n + 1) by omega] at hrest

end AosKernel.Lib.Loop
