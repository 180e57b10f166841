import Mathlib.Data.Nat.Bitwise
import Mathlib.Tactic

/-!
# Numbers in positional notation

`fromStrRadix` reads a natural number below a bound from its digits, the highest first, and gives
up at the first digit that is none and at the first value that reaches the bound. A `+` may stand
in front of the digits, but not alone.

`horner` is the value of the digits. Reading digits that stay below the bound gives their value
(`fromStrRadix_eq_some`), and the bits of a number in base 2 are its digits, the last one first
(`testBit_horner`).
-/

namespace LemolaOs

/-- `char::to_digit`, for a radix of at most 36. -/
def toDigit (radix : Nat) (c : Char) : Option Nat :=
  let digit :=
    if '0' ≤ c ∧ c ≤ '9' then some (c.toNat - '0'.toNat)
    else if 'a' ≤ c ∧ c ≤ 'z' then some (c.toNat - 'a'.toNat + 10)
    else if 'A' ≤ c ∧ c ≤ 'Z' then some (c.toNat - 'A'.toNat + 10)
    else none
  digit.filter (· < radix)

/-- Append one digit to a number. -/
def pushDigit (radix bound : Nat) (value : Nat) (c : Char) : Option Nat := do
  let digit ← toDigit radix c
  if radix * value + digit < bound then some (radix * value + digit) else none

/-- `from_str_radix` of an unsigned integer type with `bound` values. -/
def fromStrRadix (radix bound : Nat) (s : List Char) : Option Nat :=
  match s with
  | [] => none
  | ['+'] => none
  | '+' :: digits => digits.foldlM (pushDigit radix bound) 0
  | digits => digits.foldlM (pushDigit radix bound) 0

/-- The value of digits behind a number. -/
def horner (radix : Nat) (value : Nat) (digits : List Nat) : Nat :=
  digits.foldl (fun value digit => radix * value + digit) value

variable {radix bound value : Nat} {digits : List Nat} {s : List Char}

theorem le_horner (hradix : 0 < radix) (digits : List Nat) (value : Nat) :
    value ≤ horner radix value digits := by
  induction digits generalizing value with
  | nil => exact Nat.le_refl _
  | cons digit digits ih =>
      have hpush : value ≤ radix * value + digit :=
        (Nat.le_mul_of_pos_left value hradix).trans (Nat.le_add_right _ _)
      exact hpush.trans (ih (radix * value + digit))

/-- Digits whose value is below the bound stay below it on the way. -/
theorem foldlM_pushDigit (hradix : 0 < radix) (hs : s.map (toDigit radix) = digits.map some)
    (hbound : horner radix value digits < bound) :
    s.foldlM (pushDigit radix bound) value = some (horner radix value digits) := by
  induction digits generalizing s value with
  | nil =>
      rw [List.map_nil, List.map_eq_nil_iff] at hs
      subst hs
      rfl
  | cons digit digits ih =>
      obtain ⟨c, s, rfl, hc, hs⟩ := List.map_eq_cons_iff.mp hs
      have hpush : radix * value + digit < bound := (le_horner hradix digits _).trans_lt hbound
      rw [List.foldlM_cons, pushDigit, hc]
      simp only [Option.bind_eq_bind, Option.bind_some, if_pos hpush]
      exact ih hs hbound

theorem fromStrRadix_eq_some (hradix : 0 < radix) (hne : s ≠ [])
    (hs : s.map (toDigit radix) = digits.map some) (hbound : horner radix 0 digits < bound) :
    fromStrRadix radix bound s = some (horner radix 0 digits) := by
  have hplus : toDigit radix '+' = none := rfl
  unfold fromStrRadix
  split
  · exact absurd rfl hne
  · cases digits <;> simp [hplus] at hs
  · cases digits <;> simp [hplus] at hs
  · exact foldlM_pushDigit hradix hs hbound

theorem horner_concat (radix value : Nat) (digits : List Nat) (digit : Nat) :
    horner radix value (digits ++ [digit]) = radix * horner radix value digits + digit := by
  rw [horner, List.foldl_append]
  rfl

theorem horner_two_lt (bits : List Bool) : horner 2 0 (bits.map Bool.toNat) < 2 ^ bits.length := by
  induction bits using List.reverseRecOn with
  | nil => exact Nat.one_pos
  | append_singleton bits b ih =>
      have hb := Bool.toNat_le b
      rw [List.map_append, List.map_singleton, horner_concat, List.length_append,
        List.length_singleton, Nat.pow_succ]
      omega

/-- The last digit is the lowest bit. -/
theorem testBit_horner (bits : List Bool) (i : Nat) :
    (horner 2 0 (bits.map Bool.toNat)).testBit i = (bits.reverse[i]?).getD false := by
  induction bits using List.reverseRecOn generalizing i with
  | nil => exact Nat.zero_testBit i
  | append_singleton bits b ih =>
      rw [List.map_append, List.map_singleton, horner_concat, List.reverse_append,
        List.reverse_singleton, List.singleton_append]
      cases i with
      | zero =>
          rw [List.getElem?_cons_zero, Option.getD_some, Nat.testBit_zero]
          cases b <;> simp
      | succ i =>
          have hdiv : (2 * horner 2 0 (bits.map Bool.toNat) + b.toNat) / 2 =
              horner 2 0 (bits.map Bool.toNat) := by
            have hb := Bool.toNat_le b
            omega
          rw [List.getElem?_cons_succ, Nat.testBit_succ, hdiv, ih]

end LemolaOs
