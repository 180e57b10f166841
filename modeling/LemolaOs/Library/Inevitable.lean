import LemolaOs.Library.Transition

/-!
# What every run comes to

`Inevitable S P s` says of a system that no run from `s` can avoid `P`: as long as `P` does not
hold some step is possible, and after finitely many steps, whichever they are, it does hold. The
rule for it asks for an invariant and a number that every step makes smaller.
-/

namespace LemolaOs.System

universe u v

variable {σ : Type u} {ι : Type v} {S : System σ ι} {P I : σ → Prop}

/-- Every run from here comes to `P`, and none gets stuck before. -/
inductive Inevitable (S : System σ ι) (P : σ → Prop) : σ → Prop where
  | now {s : σ} (h : P s) : Inevitable S P s
  | later {s : σ} (possible : ∃ i t, S.step s i t)
      (next : ∀ i t, S.step s i t → Inevitable S P t) : Inevitable S P s

/-- The induction is on a bound of the measure. -/
theorem Inevitable.of_measure (μ : σ → Nat) (possible : ∀ s, I s → ¬ P s → ∃ i t, S.step s i t)
    (next : ∀ s i t, I s → ¬ P s → S.step s i t → P t ∨ I t ∧ μ t < μ s) :
    ∀ s, I s → Inevitable S P s := by
  have hbound : ∀ n s, I s → μ s < n → Inevitable S P s := by
    intro n
    induction n with
    | zero => exact fun s _ hlt => absurd hlt (Nat.not_lt_zero _)
    | succ n ih =>
        intro s hs hlt
        by_cases hP : P s
        · exact .now hP
        · refine .later (possible s hs hP) fun i t hstep => ?_
          obtain hdone | ⟨ht, hless⟩ := next s i t hs hP hstep
          · exact .now hdone
          · exact ih t ht (by omega)
  exact fun s hs => hbound _ s hs (Nat.lt_succ_self _)

end LemolaOs.System
