import Mathlib.Order.Monotone.Basic
import Mathlib.Tactic

/-!
# Loops that may not end

A loop without a bound is modelled with one: `fuel` bounds the rounds, and a run that
needs more of them is `Fueled.out`. More fuel never changes a result, which makes the
runs a monotone family (`Monotone`, for the order in which `out` is below everything).
`Returns` says that some amount of fuel is enough.

A run of several parts returns if its parts do (`returns_bind`).
-/

namespace LemolaOs

universe u

/-- A result, an error, or out of fuel. -/
def Fueled (ε α : Type u) : Type u := Option (Except ε α)

namespace Fueled

variable {ε α β : Type u}

def out : Fueled ε α := none

/-- A computation that needs no fuel. -/
def lift (x : Except ε α) : Fueled ε α := some x

instance : Monad (Fueled ε) where
  pure a := lift (.ok a)
  bind x f :=
    match x with
    | none => none
    | some (.error e) => some (.error e)
    | some (.ok a) => f a

/-- The run with more fuel: it has the result of the other, if that has one. -/
instance : Preorder (Fueled ε α) where
  le x y := ∀ r, x = lift r → y = lift r
  le_refl _ _ h := h
  le_trans _ _ _ hxy hyz r h := hyz r (hxy r h)

@[simp] theorem lift_inj {x y : Except ε α} : lift x = lift y ↔ x = y := Option.some_inj

@[simp] theorem out_ne_lift {x : Except ε α} : out ≠ lift x := nofun

@[simp] theorem lift_error_bind (e : ε) (f : α → Fueled ε β) :
    lift (.error e) >>= f = lift (.error e) := rfl

@[simp] theorem lift_ok_bind (a : α) (f : α → Fueled ε β) : lift (.ok a) >>= f = f a := rfl

theorem out_le (x : Fueled ε α) : out ≤ x := fun _ h => absurd h out_ne_lift

theorem bind_mono {x y : Fueled ε α} {f g : α → Fueled ε β} (hxy : x ≤ y) (hfg : ∀ a, f a ≤ g a) :
    x >>= f ≤ y >>= g := by
  intro r hr
  cases x with
  | none => exact absurd hr out_ne_lift
  | some x =>
      rw [hxy x rfl]
      cases x with
      | error e => exact hr
      | ok a => exact hfg a r hr

end Fueled

open Fueled

variable {ε α β : Type u} {f : Nat → Fueled ε α} {r r' : Except ε α}

/-- Enough fuel gives the result. -/
def Returns (f : Nat → Fueled ε α) (r : Except ε α) : Prop := ∃ fuel, f fuel = lift r

theorem Returns.unique (hf : Monotone f) (h : Returns f r) (h' : Returns f r') : r = r' := by
  obtain ⟨m, hm⟩ := h
  obtain ⟨n, hn⟩ := h'
  have hmax := hf (Nat.le_max_left m n) r hm
  rw [hf (Nat.le_max_right m n) r' hn] at hmax
  exact (lift_inj.mp hmax).symm

@[simp] theorem returns_lift {x : Except ε α} : Returns (fun _ => lift x) r ↔ r = x :=
  ⟨fun ⟨_, h⟩ => (lift_inj.mp h).symm, fun h => ⟨0, congrArg lift h.symm⟩⟩

/-- The fuel of one more round. -/
theorem returns_succ (hf : Monotone f) : Returns (fun fuel => f (fuel + 1)) r ↔ Returns f r :=
  ⟨fun ⟨fuel, h⟩ => ⟨fuel + 1, h⟩, fun ⟨fuel, h⟩ => ⟨fuel, hf (Nat.le_succ fuel) r h⟩⟩

/-- The parts of a run, each with the fuel it needs. -/
theorem returns_bind {g : Nat → α → Fueled ε β} {r : Except ε β} (hf : Monotone f)
    (hg : ∀ a, Monotone fun fuel => g fuel a) :
    Returns (fun fuel => f fuel >>= g fuel) r ↔
      (∃ e, Returns f (.error e) ∧ r = .error e) ∨
      ∃ a, Returns f (.ok a) ∧ Returns (fun fuel => g fuel a) r := by
  constructor
  · rintro ⟨fuel, h⟩
    beta_reduce at h
    cases hx : f fuel with
    | none =>
        rw [hx] at h
        exact absurd h out_ne_lift
    | some x =>
        rw [hx] at h
        cases x with
        | error e => exact .inl ⟨e, ⟨fuel, hx⟩, (lift_inj.mp h).symm⟩
        | ok a => exact .inr ⟨a, ⟨fuel, hx⟩, fuel, h⟩
  · rintro (⟨e, ⟨fuel, h⟩, rfl⟩ | ⟨a, ⟨m, hm⟩, n, hn⟩)
    · refine ⟨fuel, ?_⟩
      beta_reduce
      rw [h, lift_error_bind]
    · refine ⟨max m n, ?_⟩
      beta_reduce
      rw [hf (Nat.le_max_left m n) _ hm, lift_ok_bind]
      exact hg a (Nat.le_max_right m n) _ hn

end LemolaOs
