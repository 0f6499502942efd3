import Mathlib.Tactic

/-!
# Programs that change a state and may fail

A `Fallible` program runs on a state and gives a result or a failure; the state at the failure is
kept, as a program in C that returns an error keeps what it has done so far. The rules `ends_bind`,
`ends_pure` and so on compute what has to hold before a program from what has to hold after it
(`Ends`), `Ends.mono` weakens it, and `Ends.forM` is the rule for a list of steps with an invariant.
-/

namespace AosKernel.Lib

/-- A program on a state `σ` with a result or a failure. -/
abbrev Fallible (σ α : Type) := OptionT (StateM σ) α

namespace Fallible

variable {σ α β : Type}

/-- The run of a program from a state. -/
def exec (x : Fallible σ α) (s : σ) : Option α × σ := x s

/-- One step, given by what it does to the state. -/
def step (f : σ → Option α × σ) : Fallible σ α := f

/-- A value, or a failure without an effect. -/
def ofOption (o : Option α) : Fallible σ α := step fun s => (o, s)

/-- A program whose failure is a result. -/
def attempt (x : Fallible σ α) : Fallible σ (Option α) :=
  step fun s => (some (x.exec s).1, (x.exec s).2)

lemma exec_bind (x : Fallible σ α) (f : α → Fallible σ β) (s : σ) :
    (x >>= f).exec s = match x.exec s with
      | (some a, t) => (f a).exec t
      | (none, t) => (none, t) := by
  unfold exec
  simp only [bind, OptionT.bind, OptionT.mk, StateT.bind]
  rcases x s with ⟨_ | a, t⟩ <;> rfl

/-- The run ends with a result for which `Q` holds, or fails in a state for which `E` holds. -/
def Ends (x : Fallible σ α) (s : σ) (Q : α → σ → Prop) (E : σ → Prop) : Prop :=
  match x.exec s with
  | (some a, t) => Q a t
  | (none, t) => E t

section Ends

variable {Q : α → σ → Prop} {E : σ → Prop} {s : σ} {x : Fallible σ α}

lemma Ends.of_exec_some {a : α} {t : σ} (h : Ends x s Q E) (hx : x.exec s = (some a, t)) :
    Q a t := by
  rwa [Ends, hx] at h

lemma Ends.of_exec_none {t : σ} (h : Ends x s Q E) (hx : x.exec s = (none, t)) : E t := by
  rwa [Ends, hx] at h

lemma ends_iff : Ends x s Q E ↔
    (∀ a t, x.exec s = (some a, t) → Q a t) ∧ ∀ t, x.exec s = (none, t) → E t := by
  unfold Ends
  rcases x.exec s with ⟨_ | a, t⟩ <;> simp

theorem Ends.mono {Q' : α → σ → Prop} {E' : σ → Prop} (h : Ends x s Q E)
    (hQ : ∀ a t, Q a t → Q' a t) (hE : ∀ t, E t → E' t) : Ends x s Q' E' := by
  rw [ends_iff] at h ⊢
  exact ⟨fun a t hx => hQ a t (h.1 a t hx), fun t hx => hE t (h.2 t hx)⟩

@[simp] theorem ends_pure {a : α} : Ends (pure a : Fallible σ α) s Q E ↔ Q a s := Iff.rfl

@[simp] theorem ends_bind {x : Fallible σ β} {f : β → Fallible σ α} :
    Ends (x >>= f) s Q E ↔ Ends x s (fun b t => Ends (f b) t Q E) E := by
  unfold Ends
  rw [exec_bind]
  rcases x.exec s with ⟨_ | b, t⟩ <;> rfl

@[simp] lemma ends_ite {c : Prop} [Decidable c] {y : Fallible σ α} :
    Ends (if c then x else y) s Q E ↔ if c then Ends x s Q E else Ends y s Q E := by
  split <;> rfl

lemma ends_ofOption {o : Option α} :
    Ends (ofOption o : Fallible σ α) s Q E ↔ (∀ a, o = some a → Q a s) ∧ (o = none → E s) := by
  cases o with
  | none | some => simp [Ends, ofOption, step, exec]

lemma ends_step_some {f : σ → α} {g : σ → σ} :
    Ends (step fun s => (some (f s), g s)) s Q E ↔ Q (f s) (g s) := Iff.rfl

lemma ends_attempt {Q : Option α → σ → Prop} :
    Ends x.attempt s Q E ↔ Ends x s (fun a t => Q (some a) t) fun t => Q none t := by
  have hrun : x.attempt.exec s = (some (x.exec s).1, (x.exec s).2) := rfl
  unfold Ends
  rw [hrun]
  rcases x.exec s with ⟨_ | a, t⟩ <;> rfl

/-- A list of steps that keep an invariant. -/
theorem Ends.forM {f : β → Fallible σ PUnit} {l : List β} {I : σ → Prop}
    (hf : ∀ b ∈ l, ∀ t, I t → Ends (f b) t (fun _ => I) E) (h : I s) :
    Ends (l.forM f) s (fun _ => I) E := by
  induction l generalizing s with
  | nil => exact h
  | cons b l ih =>
    show Ends (f b >>= fun _ => l.forM f) s _ _
    rw [ends_bind]
    exact (hf b (by simp) s h).mono (fun _ t ht => ih (fun c hc => hf c (by simp [hc])) ht)
      fun _ ht => ht

end Ends

end Fallible

end AosKernel.Lib
