import Mathlib.Logic.Relation

/-!
# Labelled transition systems and their reachable states

A system has a set of initial states and a labelled step relation. The label
says who moved: a call of the kernel, a write of the host controller, a poll of
a future. Safety results are stated about `Reachable` states, so they hold after
every finite history and every interleaving of the labels.

`guard` keeps only the steps whose label is admissible in the state it leaves.
A property proved of the guarded system is a property of exactly those runs of
the original system all of whose steps meet the condition.
-/

namespace LemolaOs

universe u v

/-- Initial states and labelled steps. Determinism is not assumed. -/
structure System (σ : Type u) (ι : Type v) where
  init : σ → Prop
  step : σ → ι → σ → Prop

namespace System

variable {σ : Type u} {ι : Type v} {S : System σ ι} {s t : σ}

/-- The states met by some finite run from an initial state. -/
inductive Reachable (S : System σ ι) : σ → Prop where
  | init {s : σ} (h : S.init s) : Reachable S s
  | step {s t : σ} {i : ι} (hs : Reachable S s) (h : S.step s i t) : Reachable S t

/-- A property that holds initially and is kept by every step from a reachable
state holds in every reachable state. -/
theorem Reachable.invariant {I : σ → Prop} (hs : S.Reachable s)
    (base : ∀ s, S.init s → I s)
    (keep : ∀ s i t, S.Reachable s → I s → S.step s i t → I t) : I s := by
  induction hs with
  | init h => exact base _ h
  | step hr h ih => exact keep _ _ _ hr ih h

/-- Keep only the steps that are admissible in the state they leave. -/
def guard (S : System σ ι) (ok : σ → ι → Prop) : System σ ι where
  init := S.init
  step s i t := ok s i ∧ S.step s i t

theorem Reachable.of_guard {ok : σ → ι → Prop} (hs : (S.guard ok).Reachable s) :
    S.Reachable s := by
  induction hs with
  | init h => exact .init h
  | step _ h ih => exact .step ih h.2

end System

end LemolaOs
