import LemolaOs.Pci.Msi
import LemolaOs.Xhci.Trb

/-!
# The accessors of `bit_field`

`BitField` is what the documentation of the crate says of `get_bit`, `get_bits` and `set_bits`, bit
by bit, for ranges inside the word as all those of the code are. The definitions that stand for
them in the model behave so (`bitField`), and no other functions do (`BitField.eq_getBits`,
`BitField.eq_setBits`). The accessors of the cycle bit are the same ones at bit 0
(`getBit0_eq_getBit`, `setBits_zero_one`).
-/

namespace LemolaOs

open Pci Xhci

/-- `get_bit(i)`, `get_bits(lo..hi)` and `set_bits(lo..hi, value)` as documented. -/
structure BitField (bitOf : Nat → Nat → Bool) (bitsOf : Nat → Nat → Nat → Nat)
    (withBits : Nat → Nat → Nat → Nat → Rust Nat) : Prop where
  bit : ∀ x i, bitOf x i = x.testBit i
  bits : ∀ x lo hi i, (bitsOf x lo hi).testBit i = (decide (lo + i < hi) && x.testBit (lo + i))
  fits : ∀ x lo hi value, lo ≤ hi → value < 2 ^ (hi - lo) →
    ∃ word, withBits x lo hi value = .ok word ∧ ∀ i,
      word.testBit i = if lo ≤ i ∧ i < hi then value.testBit (i - lo) else x.testBit i
  panics : ∀ x lo hi value, lo ≤ hi → 2 ^ (hi - lo) ≤ value →
    withBits x lo hi value = .error .assertion

section Bits

variable {x lo hi value i : Nat}

theorem testBit_getBits :
    (getBits x lo hi).testBit i = (decide (lo + i < hi) && x.testBit (lo + i)) := by
  have hrange : i < hi - lo ↔ lo + i < hi := by omega
  rw [getBits, Nat.testBit_mod_two_pow, Nat.testBit_div_two_pow, Nat.add_comm i lo]
  simp only [hrange]

theorem getBit_eq_testBit : getBit x i = x.testBit i := by
  rw [getBit, getBits, Nat.add_sub_cancel_left, Nat.pow_one, Nat.testBit_eq_decide_div_mod_eq]
  rfl

theorem testBit_setBits (hlo : lo ≤ hi) (hvalue : value < 2 ^ (hi - lo)) :
    (x % 2 ^ lo + value * 2 ^ lo + x / 2 ^ hi * 2 ^ hi).testBit i =
      if lo ≤ i ∧ i < hi then value.testBit (i - lo) else x.testBit i := by
  have hlow : x % 2 ^ lo < 2 ^ lo := Nat.mod_lt _ (Nat.two_pow_pos lo)
  have hmiddle : 2 ^ lo * value + x % 2 ^ lo < 2 ^ hi := by
    calc 2 ^ lo * value + x % 2 ^ lo < 2 ^ lo * (value + 1) := by rw [Nat.mul_add_one]; omega
      _ ≤ 2 ^ lo * 2 ^ (hi - lo) := Nat.mul_le_mul_left _ hvalue
      _ = 2 ^ hi := by rw [← Nat.pow_add, Nat.add_sub_cancel' hlo]
  rw [show x % 2 ^ lo + value * 2 ^ lo + x / 2 ^ hi * 2 ^ hi =
      2 ^ hi * (x / 2 ^ hi) + (2 ^ lo * value + x % 2 ^ lo) by ring,
    Nat.testBit_two_pow_mul_add _ hmiddle, Nat.testBit_two_pow_mul_add _ hlow,
    Nat.testBit_mod_two_pow, Nat.testBit_div_two_pow]
  by_cases hhi : i < hi
  · by_cases hlow : i < lo
    · simp [hhi, hlow, Nat.not_le.mpr hlow]
    · simp [hhi, hlow, Nat.not_lt.mp hlow]
  · simp [hhi, Nat.sub_add_cancel (Nat.not_lt.mp hhi)]

end Bits

theorem bitField : BitField getBit getBits setBits where
  bit _ _ := getBit_eq_testBit
  bits _ _ _ _ := testBit_getBits
  fits _ _ _ _ hlo hvalue := ⟨_, setBits_of_lt hvalue, fun _ => testBit_setBits hlo hvalue⟩
  panics _ _ _ _ _ hvalue := if_neg (Nat.not_lt.mpr hvalue)

namespace BitField

variable {bitOf : Nat → Nat → Bool} {bitsOf : Nat → Nat → Nat → Nat}
  {withBits : Nat → Nat → Nat → Nat → Rust Nat}

theorem eq_getBit (h : BitField bitOf bitsOf withBits) (x i : Nat) : bitOf x i = getBit x i := by
  rw [h.bit, bitField.bit]

theorem eq_getBits (h : BitField bitOf bitsOf withBits) (x lo hi : Nat) :
    bitsOf x lo hi = getBits x lo hi := by
  refine Nat.eq_of_testBit_eq fun i => ?_
  rw [h.bits, bitField.bits]

theorem eq_setBits (h : BitField bitOf bitsOf withBits) {x lo hi value : Nat} (hlo : lo ≤ hi) :
    withBits x lo hi value = setBits x lo hi value := by
  by_cases hvalue : value < 2 ^ (hi - lo)
  · obtain ⟨word, hword, hbits⟩ := h.fits x lo hi value hlo hvalue
    obtain ⟨word', hword', hbits'⟩ := bitField.fits x lo hi value hlo hvalue
    have heq : word = word' := Nat.eq_of_testBit_eq fun i => by rw [hbits, hbits']
    rw [hword, hword', heq]
  · rw [h.panics x lo hi value hlo (Nat.not_lt.mp hvalue),
      bitField.panics x lo hi value hlo (Nat.not_lt.mp hvalue)]

end BitField

section CycleBit

/-- `get_bit(0)` of a word. -/
theorem getBit0_eq_getBit (word : UInt32) : getBit0 word = getBit word.toNat 0 := by
  rw [getBit_eq_testBit, Nat.testBit_zero, getBit0, ← Nat.and_one_is_mod]
  exact Bool.eq_iff_iff.mpr (by simp [← UInt32.toNat_inj])

theorem testBit_setBit0 (word : UInt32) (value : Bool) (i : Nat) :
    (setBit0 word value).toNat.testBit i = if i = 0 then value else word.toNat.testBit i := by
  have hbit (w : UInt32) : w.toNat.testBit i = w.toBitVec.getLsbD i := rfl
  have hone : (1 : UInt32).toBitVec.getLsbD i = decide (i = 0) := by
    rw [show (1 : UInt32).toBitVec = 1#32 from rfl, BitVec.getLsbD_one]
    simp
  have hword : ¬i < 32 → word.toBitVec.getLsbD i = false := fun hi =>
    BitVec.getLsbD_of_ge _ _ (Nat.not_lt.mp hi)
  rw [hbit, hbit, setBit0]
  cases value with
  | false =>
      rw [if_neg Bool.false_ne_true, UInt32.toBitVec_and, UInt32.toBitVec_not, BitVec.getLsbD_and,
        BitVec.getLsbD_not, hone]
      grind
  | true =>
      rw [if_pos rfl, UInt32.toBitVec_or, BitVec.getLsbD_or, hone]
      grind

/-- `set_bit(0, value)` sets the range of one bit. -/
theorem setBits_zero_one (word : UInt32) (value : Bool) :
    setBits word.toNat 0 1 value.toNat = .ok (setBit0 word value).toNat := by
  obtain ⟨bits, hbits, htest⟩ := bitField.fits word.toNat 0 1 value.toNat (by omega)
    (Bool.toNat_lt value)
  have heq : bits = (setBit0 word value).toNat := by
    refine Nat.eq_of_testBit_eq fun i => ?_
    rw [htest, testBit_setBit0]
    cases i with
    | zero => cases value <;> rfl
    | succ i => simp
  rw [hbits, heq]

end CycleBit

end LemolaOs
