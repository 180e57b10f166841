import Mathlib.Tactic

/-!
# Rust arithmetic and panics, as the debug build executes them

The kernel is built with the `debug` profile by default, so an arithmetic
overflow, an index out of range, a failed assertion and an explicit `panic!` all
end the computation. `Rust α` is the type of such computations. A pointer or a
`usize` is a natural number below `2 ^ 64`; the checked operations are where the
bound is enforced.
-/

namespace LemolaOs

/-- The ways in which the modelled code panics. -/
inductive Panic where
  | overflow
  | outOfRange
  | assertion
  | message (text : String)
  deriving DecidableEq, Repr

/-- A computation that returns or panics. -/
abbrev Rust := Except Panic

namespace Rust

variable {α β : Type}

theorem bind_eq_ok {x : Rust α} {f : α → Rust β} {b : β} :
    (x >>= f) = .ok b ↔ ∃ a, x = .ok a ∧ f a = .ok b := by
  cases x with
  | error e => simp [bind, Except.bind]
  | ok a => simp [bind, Except.bind]

theorem bind_eq_error {x : Rust α} {f : α → Rust β} {e : Panic} :
    (x >>= f) = .error e ↔ x = .error e ∨ ∃ a, x = .ok a ∧ f a = .error e := by
  cases x with
  | error e => simp [bind, Except.bind]
  | ok a => simp [bind, Except.bind]

@[simp] theorem ok_bind (a : α) (f : α → Rust β) : ((.ok a : Rust α) >>= f) = f a := rfl

/-- A loop whose rounds return and keep the invariant returns and keeps it. -/
theorem foldlM_invariant {Inv : β → Prop} {f : β → α → Rust β}
    (keep : ∀ b x, Inv b → ∃ b', f b x = .ok b' ∧ Inv b') (xs : List α) {b : β} (hb : Inv b) :
    ∃ b', xs.foldlM f b = .ok b' ∧ Inv b' := by
  induction xs generalizing b with
  | nil => exact ⟨b, rfl, hb⟩
  | cons x xs ih =>
      obtain ⟨b₁, hround, hb₁⟩ := keep b x hb
      rw [List.foldlM_cons, hround, ok_bind]
      exact ih hb₁

/-- A loop that collects what its rounds return. -/
theorem forall₂_of_mapM {f : α → Rust β} {xs : List α} {ys : List β} (h : xs.mapM f = .ok ys) :
    List.Forall₂ (fun x y => f x = .ok y) xs ys := by
  induction xs generalizing ys with
  | nil =>
      cases h
      exact .nil
  | cons x xs ih =>
      rw [List.mapM_cons] at h
      obtain ⟨y, hy, h⟩ := bind_eq_ok.mp h
      obtain ⟨rest, hrest, h⟩ := bind_eq_ok.mp h
      cases h
      exact .cons hy (ih hrest)

end Rust

/-- `usize::MAX + 1`. -/
def usizeSize : Nat := 2 ^ 64

/-- `a + b` on `usize`. -/
def usizeAdd (a b : Nat) : Rust Nat :=
  if a + b < usizeSize then .ok (a + b) else .error .overflow

/-- `a - b` on `usize`. -/
def usizeSub (a b : Nat) : Rust Nat :=
  if b ≤ a then .ok (a - b) else .error .overflow

/-- `a * b` on `usize`. -/
def usizeMul (a b : Nat) : Rust Nat :=
  if a * b < usizeSize then .ok (a * b) else .error .overflow

/-- `!a` on `usize`. -/
def usizeNot (a : Nat) : Nat := usizeSize - 1 - a

/-- `a.checked_add(b)`. -/
def checkedAdd (a b : Nat) : Option Nat := if a + b < usizeSize then some (a + b) else none

/-- `assert!(p)`, and `debug_assert!(p)`: the debug build checks both. -/
def debugAssert (p : Bool) : Rust Unit := if p then .ok () else .error .assertion

theorem usizeAdd_eq_ok {a b c : Nat} : usizeAdd a b = .ok c ↔ a + b < usizeSize ∧ c = a + b := by
  unfold usizeAdd
  split <;> simp_all [eq_comm]

theorem usizeSub_eq_ok {a b c : Nat} : usizeSub a b = .ok c ↔ b ≤ a ∧ c = a - b := by
  unfold usizeSub
  split <;> simp_all [eq_comm]

theorem usizeMul_eq_ok {a b c : Nat} : usizeMul a b = .ok c ↔ a * b < usizeSize ∧ c = a * b := by
  unfold usizeMul
  split <;> simp_all [eq_comm]

theorem checkedAdd_eq_some {a b c : Nat} :
    checkedAdd a b = some c ↔ a + b < usizeSize ∧ c = a + b := by
  unfold checkedAdd
  split <;> simp_all [eq_comm]

theorem debugAssert_eq_ok {p : Bool} {u : Unit} : debugAssert p = .ok u ↔ p = true := by
  cases p <;> simp [debugAssert]

end LemolaOs
