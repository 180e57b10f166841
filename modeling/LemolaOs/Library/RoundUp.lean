import Mathlib.Data.Nat.Bitwise
import Mathlib.Tactic

/-!
# Rounding up to a multiple

`roundUp a v` is the least multiple of `a` that is at least `v`. The mask idiom
`(v + a - 1) & !(a - 1)` computes it for a power of two as long as the sum stays
inside the word; `and_mask_eq` is the bit-level fact behind the idiom.

`Crosses b lo hi` says that a multiple of `b` lies strictly inside `[lo, hi)`. A
range no longer than `b` that starts at a multiple of `b` crosses none, and a
range that ends at or before the next multiple crosses none either.
-/

namespace LemolaOs

/-- The least multiple of `a` at or above `v`. -/
def roundUp (a v : Nat) : Nat := (v + a - 1) / a * a

theorem dvd_roundUp (a v : Nat) : a ∣ roundUp a v := Nat.dvd_mul_left _ _

theorem le_roundUp {a : Nat} (ha : 0 < a) (v : Nat) : v ≤ roundUp a v := by
  have hdiv := Nat.div_add_mod (v + a - 1) a
  have hmod := Nat.mod_lt (v + a - 1) ha
  have hcomm : (v + a - 1) / a * a = a * ((v + a - 1) / a) := Nat.mul_comm _ _
  unfold roundUp
  omega

theorem roundUp_le {a v m : Nat} (ha : 0 < a) (hm : a ∣ m) (hv : v ≤ m) : roundUp a v ≤ m := by
  obtain ⟨q, rfl⟩ := hm
  have hq : (v + a - 1) / a ≤ q := by
    rw [Nat.div_le_iff_le_mul_add_pred ha]
    omega
  calc roundUp a v = a * ((v + a - 1) / a) := Nat.mul_comm _ _
    _ ≤ a * q := Nat.mul_le_mul_left a hq

theorem roundUp_eq_self {a v : Nat} (ha : 0 < a) (hv : a ∣ v) : roundUp a v = v :=
  Nat.le_antisymm (roundUp_le ha hv (Nat.le_refl v)) (le_roundUp ha v)

/-- Two multiples of `a` are apart by at least `a`. -/
theorem roundUp_lt_iff {a v m : Nat} (ha : 0 < a) (hm : a ∣ m) : roundUp a v < m ↔ v + a ≤ m := by
  constructor
  · intro hlt
    have hgap : a ≤ m - roundUp a v := Nat.le_of_dvd (by omega) (Nat.dvd_sub hm (dvd_roundUp a v))
    have hv := le_roundUp ha v
    omega
  · intro hle
    have hdvd : a ∣ m - a := Nat.dvd_sub hm (Nat.dvd_refl a)
    have hround := roundUp_le ha hdvd (v := v) (by omega)
    omega

/-- Clearing the low `k` bits of a `w`-bit number rounds it down to a multiple of
`2 ^ k`. The mask is the complement of `2 ^ k - 1` in the word. -/
theorem and_mask_eq {w k x : Nat} (hk : k ≤ w) (hx : x < 2 ^ w) :
    x &&& (2 ^ w - 1 - (2 ^ k - 1)) = x / 2 ^ k * 2 ^ k := by
  have hsplit : 2 ^ w = 2 ^ k * 2 ^ (w - k) := by rw [← Nat.pow_add]; congr 1; omega
  have hkpos : 0 < 2 ^ k := Nat.two_pow_pos k
  have hmask : 2 ^ w - 1 - (2 ^ k - 1) = 2 ^ k * (2 ^ (w - k) - 1) := by
    rw [Nat.mul_sub, ← hsplit, Nat.mul_one]
    omega
  apply Nat.eq_of_testBit_eq
  intro i
  rw [Nat.testBit_and, hmask, Nat.testBit_two_pow_mul, Nat.testBit_two_pow_sub_one,
    Nat.mul_comm, Nat.testBit_two_pow_mul, Nat.testBit_div_two_pow]
  by_cases hik : k ≤ i
  · have hadd : i - k + k = i := by omega
    by_cases hiw : i < w
    · simp [hik, hadd, show i - k < w - k by omega]
    · have hfalse : x.testBit i = false :=
        Nat.testBit_lt_two_pow (Nat.lt_of_lt_of_le hx (Nat.pow_le_pow_right (by decide) (by omega)))
      simp [hadd, hfalse]
  · simp [hik]

/-- Some multiple of `b` lies strictly inside `[lo, hi)`. -/
def Crosses (b lo hi : Nat) : Prop := ∃ m, b ∣ m ∧ lo < m ∧ m < hi

theorem not_crosses_of_le_roundUp {b lo hi : Nat} (hb : 0 < b) (h : hi ≤ roundUp b lo) :
    ¬ Crosses b lo hi := by
  rintro ⟨m, hm, hlo, hhi⟩
  have hle : roundUp b lo ≤ m := roundUp_le hb hm (Nat.le_of_lt hlo)
  omega

theorem not_crosses_of_dvd {b lo hi : Nat} (hlo : b ∣ lo) (hlen : hi ≤ lo + b) :
    ¬ Crosses b lo hi := by
  rintro ⟨m, hm, hlt, hhi⟩
  have hle : b ≤ m - lo := Nat.le_of_dvd (by omega) (Nat.dvd_sub hm hlo)
  omega

end LemolaOs
