import Mathlib.Data.List.Basic

/-!
# A fallible machine and the machine it stands for

The code of a machine may fail on an input, and what it is for can be told by a step that never
fails, together with the inputs that are admissible in a state. `Simulation` is what one step of
the two has to do with each other. For a sequence of inputs it follows that the code gets to its
end exactly when one input after the other is admissible, and that its state is then related to
what the abstract steps lead to.

Where the abstract machine has a choice, a step of it is a relation. `Runs` is a run with its
labels, and each run of the code is one of the abstract machine if each step is (`Runs.simulate`).
-/

namespace LemolaOs

universe u v w

/-- The inputs are admissible one after another. -/
def Admissible {τ : Type u} {ι : Type v} (ok : τ → ι → Prop) (spec : τ → ι → τ) :
    τ → List ι → Prop
  | _, [] => True
  | t, i :: inputs => ok t i ∧ Admissible ok spec (spec t i) inputs

/-- On related states the code takes exactly the admissible inputs, and stays related. -/
structure Simulation {σ τ : Type u} {ι : Type v} {ε : Type w} (R : σ → τ → Prop)
    (step : σ → ι → Except ε σ) (ok : τ → ι → Prop) (spec : τ → ι → τ) : Prop where
  returns : ∀ s t i, R s t → ok t i → ∃ s', step s i = .ok s' ∧ R s' (spec t i)
  onlyIf : ∀ s t i s', R s t → step s i = .ok s' → ok t i

variable {σ τ : Type u} {ι : Type v} {ε : Type w} {R : σ → τ → Prop} {step : σ → ι → Except ε σ}
  {ok : τ → ι → Prop} {spec : τ → ι → τ} {s s' : σ} {t : τ}

theorem Admissible.append {first second : List ι} :
    Admissible ok spec t (first ++ second) ↔
      Admissible ok spec t first ∧ Admissible ok spec (first.foldl spec t) second := by
  induction first generalizing t with
  | nil => simp [Admissible]
  | cons i first ih =>
      rw [List.cons_append, Admissible, Admissible, ih, List.foldl_cons, and_assoc]

namespace Simulation

theorem step_rel {i : ι} (sim : Simulation R step ok spec) (h : R s t) (hstep : step s i = .ok s') :
    ok t i ∧ R s' (spec t i) := by
  have hok := sim.onlyIf s t i s' h hstep
  obtain ⟨s₁, hs₁, hrel⟩ := sim.returns s t i h hok
  rw [hstep, Except.ok.injEq] at hs₁
  exact ⟨hok, hs₁ ▸ hrel⟩

/-- A run that got to its end. -/
theorem run_rel {inputs : List ι} (sim : Simulation R step ok spec) (h : R s t)
    (hrun : inputs.foldlM step s = .ok s') :
    Admissible ok spec t inputs ∧ R s' (inputs.foldl spec t) := by
  induction inputs generalizing s t with
  | nil =>
      cases hrun
      exact ⟨trivial, h⟩
  | cons i inputs ih =>
      rw [List.foldlM_cons] at hrun
      cases hstep : step s i with
      | error e =>
          rw [hstep] at hrun
          cases hrun
      | ok s₁ =>
          rw [hstep] at hrun
          obtain ⟨hok, hrel⟩ := sim.step_rel h hstep
          obtain ⟨hrest, hend⟩ := ih hrel hrun
          exact ⟨⟨hok, hrest⟩, hend⟩

/-- Admissible inputs are taken to the end. -/
theorem run_returns {inputs : List ι} (sim : Simulation R step ok spec) (h : R s t)
    (hinputs : Admissible ok spec t inputs) :
    ∃ s', inputs.foldlM step s = .ok s' ∧ R s' (inputs.foldl spec t) := by
  induction inputs generalizing s t with
  | nil => exact ⟨s, rfl, h⟩
  | cons i inputs ih =>
      obtain ⟨s₁, hstep, hrel⟩ := sim.returns s t i h hinputs.1
      obtain ⟨s₂, hrun, hend⟩ := ih hrel hinputs.2
      refine ⟨s₂, ?_, hend⟩
      rw [List.foldlM_cons, hstep]
      exact hrun

end Simulation

/-- One labelled step after the other. -/
inductive Runs (step : σ → ι → σ → Prop) : σ → List ι → σ → Prop where
  | nil (s : σ) : Runs step s [] s
  | cons {s t u : σ} {i : ι} {labels : List ι} (h : step s i t) (rest : Runs step t labels u) :
      Runs step s (i :: labels) u

/-- The abstract machine follows, label by label. -/
theorem Runs.simulate {step : σ → ι → σ → Prop} {spec : τ → ι → τ → Prop} {labels : List ι}
    (hstep : ∀ s t i s', R s t → step s i s' → ∃ t', spec t i t' ∧ R s' t')
    (hrun : Runs step s labels s') (h : R s t) : ∃ t', Runs spec t labels t' ∧ R s' t' := by
  induction hrun generalizing t with
  | nil s => exact ⟨t, .nil t, h⟩
  | cons hs _ ih =>
      obtain ⟨t₁, ht, hrel⟩ := hstep _ _ _ _ h hs
      obtain ⟨t', hrest, hend⟩ := ih hrel
      exact ⟨t', .cons ht hrest, hend⟩

end LemolaOs
