import Mathlib.Data.List.ProdSigma
import Mathlib.Tactic

/-!
# Loops in a fallible computation

A nested loop is one loop over the pairs of indices (`foldlM_foldlM`). Two kinds of rounds are
packaged once for the whole loop: rounds that count how many of the elements satisfy a
predicate (`foldlM_countP`), and rounds each of which visits a place of its own in the state
and leaves the other places alone (`foldlM_visit`). A loop that tries again until an attempt
succeeds, a limited number of times, is `retry`; it succeeds if there is a bound on the failures
that are still to come (`retry_returns`).
-/

namespace LemolaOs

universe u v

variable {ε : Type u} {α β : Type v}

/-- A loop of loops is a loop over the pairs, the outer index first. -/
theorem foldlM_foldlM {σ : Type v} (xs : List α) (ys : List β) (f : σ → α → β → Except ε σ)
    (s : σ) :
    xs.foldlM (fun s x => ys.foldlM (fun s y => f s x y) s) s =
      (xs ×ˢ ys).foldlM (fun s p => f s p.1 p.2) s := by
  induction xs generalizing s with
  | nil => rfl
  | cons x xs ih =>
      rw [List.foldlM_cons, List.product_cons, List.foldlM_append, List.foldlM_map]
      simp only [ih]

/-- A loop that counts, as long as the counter is below its bound. -/
theorem foldlM_countP {α : Type} {f : Nat → α → Except ε Nat} {p : α → Bool} {bound : Nat}
    {xs : List α} (hround : ∀ count, count < bound → ∀ x ∈ xs,
      f count x = .ok (count + if p x then 1 else 0))
    {count : Nat} (hbound : count + xs.length ≤ bound) :
    xs.foldlM f count = .ok (count + xs.countP p) := by
  induction xs generalizing count with
  | nil => rfl
  | cons x xs ih =>
      rw [List.length_cons] at hbound
      have hrest : xs.foldlM f (count + if p x then 1 else 0) =
          .ok (count + (if p x then 1 else 0) + xs.countP p) :=
        ih (fun count hcount y hy => hround count hcount y (List.mem_cons_of_mem x hy))
          (by split <;> omega)
      rw [List.foldlM_cons, hround count (by omega) x List.mem_cons_self, List.countP_cons]
      refine hrest.trans ?_
      rw [Nat.add_assoc, Nat.add_comm (if p x then 1 else 0)]

/-- A loop over different places, each round of which changes the value `view s x` at its own
place `x` to `new x` of it and no other value. The invariant is what a round needs to return. -/
theorem foldlM_visit {σ ι γ : Type v} [DecidableEq ι] (Inv : σ → Prop) (view : σ → ι → γ)
    (new : ι → γ → γ) {f : σ → ι → Except ε σ} {places : List ι} (hnodup : places.Nodup)
    (hround : ∀ s, Inv s → ∀ x ∈ places, ∃ s', f s x = .ok s' ∧ Inv s' ∧
      ∀ y, view s' y = if y = x then new x (view s x) else view s y)
    {s : σ} (hs : Inv s) :
    ∃ s', places.foldlM f s = .ok s' ∧ Inv s' ∧
      ∀ y, view s' y = if y ∈ places then new y (view s y) else view s y := by
  induction places generalizing s with
  | nil => exact ⟨s, rfl, hs, fun y => by simp⟩
  | cons x places ih =>
      obtain ⟨hx, hnodup⟩ := List.nodup_cons.mp hnodup
      obtain ⟨s₁, hf, hs₁, hview₁⟩ := hround s hs x List.mem_cons_self
      obtain ⟨s₂, hloop, hs₂, hview₂⟩ := ih hnodup
        (fun s hs y hy => hround s hs y (List.mem_cons_of_mem x hy)) hs₁
      refine ⟨s₂, ?_, hs₂, fun y => ?_⟩
      · rw [List.foldlM_cons, hf]
        exact hloop
      · rw [hview₂, hview₁]
        by_cases heq : y = x
        · subst heq
          simp [hx]
        · simp [heq]

/-- An attempt has a result, or goes on from another state. There are `left` more of them than the
first; then it is given up. -/
def retry {σ : Type v} (giveUp : ε) (attempt : σ → Except ε (Option α × σ)) :
    (left : Nat) → σ → Except ε (α × σ)
  | 0, s => do
      match ← attempt s with
      | (some a, t) => .ok (a, t)
      | (none, _) => .error giveUp
  | left + 1, s => do
      match ← attempt s with
      | (some a, t) => .ok (a, t)
      | (none, t) => retry giveUp attempt left t

/-- Where a failure takes one of the failures that are left, an attempt succeeds. -/
theorem retry_returns {σ : Type v} {giveUp : ε} {attempt : σ → Except ε (Option α × σ)}
    (failures : σ → Nat) (post : α → σ → Prop)
    (hattempt : ∀ s, (∃ t, attempt s = .ok (none, t) ∧ failures t < failures s) ∨
      ∃ a t, attempt s = .ok (some a, t) ∧ post a t)
    {left : Nat} {s : σ} (hleft : failures s ≤ left) :
    ∃ a t, retry giveUp attempt left s = .ok (a, t) ∧ post a t := by
  induction left generalizing s with
  | zero =>
      obtain ⟨t, -, hlt⟩ | ⟨a, t, hs, hpost⟩ := hattempt s
      · omega
      · refine ⟨a, t, ?_, hpost⟩
        rw [retry, hs]
        rfl
  | succ left ih =>
      obtain ⟨t, hs, hlt⟩ | ⟨a, t, hs, hpost⟩ := hattempt s
      · obtain ⟨a, u, hrest, hpost⟩ := ih (s := t) (by omega)
        refine ⟨a, u, ?_, hpost⟩
        rw [retry, hs]
        exact hrest
      · refine ⟨a, t, ?_, hpost⟩
        rw [retry, hs]
        rfl

end LemolaOs
