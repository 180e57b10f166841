import Mathlib.Data.Nat.Bits
import Mathlib.Tactic

/-!
# Rings whose ownership is signalled by a cycle bit

Entries `0, 1, 2, …` are placed round-robin in `m` slots. Every slot carries one
bit, and the writer complements the bit it stamps at the end of every lap: the
entries of the first lap carry `true`, those of the second `false`, and so on. A
reader that has taken `e` entries looks at slot `e % m` and compares the bit with
the one that belongs to its own lap.

`Published` describes such a memory after the entries of a list have been
written. `Published.bit_eq_iff` is what the protocol is for: while the writer is
at most one lap ahead, the comparison tells whether there is an unread entry.

`Recycling` describes a ring whose slots are written once and then handed back in
place, in any order, by toggling their bit.
-/

namespace LemolaOs

/-- The bit stamped on entry `k`: it starts as `true` and flips with every lap. -/
def lapBit (m k : Nat) : Bool := !(k / m).bodd

/-- How many of the entries `0, …, w - 1` went to slot `i`. -/
def laps (m w i : Nat) : Nat := (w + (m - 1 - i)) / m

section Laps

variable {m w i e : Nat}

theorem laps_zero (hi : i < m) : laps m 0 i = 0 := by
  rw [laps, Nat.zero_add]
  exact Nat.div_eq_of_lt (by omega)

/-- Counted from the start of its own lap: `i` is the slot, `f` the lap, `d` how far
the writer is ahead. -/
theorem laps_add (hi : i < m) (f d : Nat) (hd : d ≤ m) :
    laps m (i + m * f + d) i = if d = 0 then f else f + 1 := by
  have hm : 0 < m := by omega
  split
  · next hzero =>
      have hsplit : i + m * f + d + (m - 1 - i) = (m - 1) + m * f := by omega
      rw [laps, hsplit, Nat.add_mul_div_left _ _ hm, Nat.div_eq_of_lt (by omega), Nat.zero_add]
  · next hpos =>
      have hsplit : i + m * f + d + (m - 1 - i) = (d - 1) + m * (f + 1) := by
        rw [Nat.mul_succ]
        omega
      rw [laps, hsplit, Nat.add_mul_div_left _ _ hm, Nat.div_eq_of_lt (by omega), Nat.zero_add]

theorem laps_succ_self (hm : 0 < m) (w : Nat) : laps m (w + 1) (w % m) = w / m + 1 := by
  have h := laps_add (Nat.mod_lt w hm) (w / m) 1 hm
  rwa [Nat.mod_add_div, if_neg Nat.one_ne_zero] at h

theorem laps_succ_of_ne (hi : i < m) (hne : w % m ≠ i) : laps m (w + 1) i = laps m w i := by
  have hm : 0 < m := by omega
  have hlt := Nat.mod_lt w hm
  have hw := Nat.mod_add_div w m
  have hsplit : ∀ x, x + (w % m + m * (w / m)) = (x + w % m) + m * (w / m) := by intro x; omega
  have hdiv : ∀ x, (w + x) / m = (x + w % m) / m + w / m := by
    intro x
    nth_rewrite 1 [← hw]
    rw [Nat.add_comm, hsplit, Nat.add_mul_div_left _ _ hm]
  rw [laps, laps, Nat.add_assoc, hdiv, hdiv]
  congr 1
  -- both numerators are on the same side of `m`
  obtain hlow | hhigh := Nat.lt_or_gt_of_ne hne
  · rw [Nat.div_eq_of_lt (by omega), Nat.div_eq_of_lt (by omega)]
  · rw [Nat.div_eq_of_lt_le (k := 1) (by omega) (by omega),
      Nat.div_eq_of_lt_le (k := 1) (by omega) (by omega)]

/-- A reader at entry `e` and a writer at most one lap ahead of it: the slot carries the
reader's bit exactly if there is something to read. -/
theorem bodd_laps_eq_lapBit (hm : 0 < m) (hle : e ≤ w) (hw : w ≤ e + m) :
    (laps m w (e % m)).bodd = lapBit m e ↔ e < w := by
  obtain ⟨d, rfl⟩ := Nat.exists_eq_add_of_le hle
  have h := laps_add (Nat.mod_lt e hm) (e / m) d (by omega)
  rw [Nat.mod_add_div] at h
  rw [h, lapBit]
  split
  · simp_all
  · simp_all
    omega

theorem mod_ne_of_near {k : Nat} (hk : k < w) (hw : w < k + m) : k % m ≠ w % m := by
  intro heq
  have hmod : (w - k) % m = 0 := Nat.sub_mod_eq_zero_of_mod_eq heq.symm
  rw [Nat.mod_eq_of_lt (by omega)] at hmod
  omega

/-- After the last slot of a lap the next lap starts. -/
theorem succ_div_mod_of_eq {p : Nat} (hm : 0 < m) (h : p % m + 1 = m) :
    (p + 1) % m = 0 ∧ (p + 1) / m = p / m + 1 := by
  have hp : p + 1 = m * (p / m + 1) := by
    rw [Nat.mul_succ]
    have := Nat.mod_add_div p m
    omega
  rw [hp]
  exact ⟨Nat.mul_mod_right _ _, Nat.mul_div_cancel_left _ hm⟩

/-- After any other slot of a lap the next slot follows. -/
theorem succ_div_mod_of_ne {p : Nat} (hm : 0 < m) (h : p % m + 1 ≠ m) :
    (p + 1) % m = p % m + 1 ∧ (p + 1) / m = p / m := by
  have hlt := Nat.mod_lt p hm
  have hp : p + 1 = p % m + 1 + m * (p / m) := by
    have := Nat.mod_add_div p m
    omega
  constructor
  · nth_rewrite 1 [hp]
    rw [Nat.add_mul_mod_self_left, Nat.mod_eq_of_lt (by omega)]
  · nth_rewrite 1 [hp]
    rw [Nat.add_mul_div_left _ _ hm, Nat.div_eq_of_lt (by omega), Nat.zero_add]

end Laps

/-- The memory `mem` after the entries of `entries` were written round-robin in its
first `m` slots. Entries before `e` may have been overwritten. -/
structure Published {α : Type} (m : Nat) (bit : α → Bool) (mem : Nat → α) (entries : List α)
    (e : Nat) : Prop where
  bits : ∀ i < m, bit (mem i) = (laps m entries.length i).bodd
  held : ∀ k (hk : k < entries.length), e ≤ k → mem (k % m) = entries[k]

namespace Published

variable {α : Type} {m e : Nat} {bit : α → Bool} {mem : Nat → α} {entries : List α}

theorem init (h : ∀ i < m, bit (mem i) = false) : Published m bit mem [] 0 := by
  refine ⟨?_, ?_⟩
  · intro i hi
    rw [h i hi, List.length_nil, laps_zero hi, Nat.bodd_zero]
  · intro k hk
    simp at hk

/-- The reader moves on. -/
theorem advance (h : Published m bit mem entries e) {e' : Nat} (hle : e ≤ e') :
    Published m bit mem entries e' :=
  ⟨h.bits, fun k hk hlo => h.held k hk (by omega)⟩

/-- Slots of other indices are not part of the ring. -/
theorem outside (h : Published m bit mem entries e) {i : Nat} (hi : m ≤ i) (hm : 0 < m) (a : α) :
    Published m bit (Function.update mem i a) entries e := by
  refine ⟨?_, ?_⟩
  · intro j hj
    rw [Function.update_of_ne (by omega)]
    exact h.bits j hj
  · intro k hk hlo
    have hlt := Nat.mod_lt k hm
    rw [Function.update_of_ne (by omega)]
    exact h.held k hk hlo

/-- Preparing the next slot without flipping its bit is not visible. -/
theorem prepare (h : Published m bit mem entries e) (hfree : entries.length < e + m) {a : α}
    (hbit : bit a = bit (mem (entries.length % m))) :
    Published m bit (Function.update mem (entries.length % m) a) entries e := by
  refine ⟨?_, ?_⟩
  · intro i hi
    obtain rfl | hne := eq_or_ne i (entries.length % m)
    · rw [Function.update_self, hbit]
      exact h.bits _ hi
    · rw [Function.update_of_ne hne]
      exact h.bits i hi
  · intro k hk hlo
    rw [Function.update_of_ne (mod_ne_of_near hk (by omega))]
    exact h.held k hk hlo

/-- Writing an entry with the bit of its lap hands it over. -/
theorem publish (h : Published m bit mem entries e) (hfree : entries.length < e + m) {a : α}
    (hm : 0 < m) (hbit : bit a = lapBit m entries.length) :
    Published m bit (Function.update mem (entries.length % m) a) (entries ++ [a]) e := by
  refine ⟨?_, ?_⟩
  · intro i hi
    rw [List.length_append, List.length_singleton]
    obtain rfl | hne := eq_or_ne i (entries.length % m)
    · rw [Function.update_self, hbit, laps_succ_self hm, Nat.bodd_succ, lapBit]
    · rw [Function.update_of_ne hne, laps_succ_of_ne hi hne.symm]
      exact h.bits i hi
  · intro k hk hlo
    rw [List.length_append, List.length_singleton] at hk
    obtain hold | rfl := Nat.lt_succ_iff_lt_or_eq.mp hk
    · rw [Function.update_of_ne (mod_ne_of_near hold (by omega)), List.getElem_append_left hold]
      exact h.held k hold hlo
    · rw [Function.update_self, List.getElem_concat_length rfl]

/-- The reader's comparison is exact. -/
theorem bit_eq_iff (h : Published m bit mem entries e) (hm : 0 < m) (hle : e ≤ entries.length)
    (hahead : entries.length ≤ e + m) :
    bit (mem (e % m)) = lapBit m e ↔ e < entries.length := by
  rw [h.bits _ (Nat.mod_lt e hm)]
  exact bodd_laps_eq_lapBit hm hle hahead

end Published

/-- The bits of a ring whose reader is at slot `dequeue` with cycle state `ccs`. The slots
of `out` have been taken by the reader and not been handed back. -/
structure Recycling (m : Nat) (bit : Nat → Bool) (dequeue : Nat) (ccs : Bool) (out : List Nat) :
    Prop where
  nodup : out.Nodup
  bits : ∀ i < m, bit i = ((ccs ^^ decide (i < dequeue)) ^^ decide (i ∈ out))

namespace Recycling

variable {m dequeue i : Nat} {bit bit' : Nat → Bool} {ccs : Bool} {out out' : List Nat}

theorem init (h : ∀ i < m, bit i = ccs) : Recycling m bit 0 ccs [] := by
  refine ⟨List.nodup_nil, ?_⟩
  intro i hi
  simp [h i hi]

theorem perm (h : Recycling m bit dequeue ccs out) (hperm : out.Perm out') :
    Recycling m bit dequeue ccs out' := by
  refine ⟨hperm.nodup_iff.mp h.nodup, ?_⟩
  intro i hi
  rw [h.bits i hi, decide_eq_decide.mpr hperm.mem_iff]

theorem congr (h : Recycling m bit dequeue ccs out) (hbit : ∀ i < m, bit' i = bit i) :
    Recycling m bit' dequeue ccs out := by
  refine ⟨h.nodup, ?_⟩
  intro i hi
  rw [hbit i hi, h.bits i hi]

/-- A slot carries the bit that the reader expects when it gets there next exactly when
it has been handed back: the bit of this lap ahead of the reader, that of the next lap
behind it. -/
theorem bit_eq_next_iff (h : Recycling m bit dequeue ccs out) (hi : i < m) :
    bit i = (ccs ^^ decide (i < dequeue)) ↔ i ∉ out := by
  rw [h.bits i hi]
  by_cases hout : i ∈ out
  · simp [hout]
  · simp [hout]

/-- The reader's comparison tells whether the slot has been handed back. -/
theorem bit_eq_iff (h : Recycling m bit dequeue ccs out) (hlt : dequeue < m) :
    bit dequeue = ccs ↔ dequeue ∉ out := by
  have hnext := h.bit_eq_next_iff hlt
  rwa [decide_eq_false (Nat.lt_irrefl dequeue), Bool.xor_false] at hnext

/-- The reader takes a slot. -/
theorem take (h : Recycling m bit dequeue ccs out) (hlt : dequeue < m)
    (howned : bit dequeue = ccs) : Recycling m bit (dequeue + 1) ccs (dequeue :: out) := by
  have hfree := (h.bit_eq_iff hlt).mp howned
  refine ⟨List.nodup_cons.mpr ⟨hfree, h.nodup⟩, ?_⟩
  intro i hi
  rw [h.bits i hi]
  obtain rfl | hne := eq_or_ne i dequeue
  · simp [hfree]
  · have hnext : i < dequeue + 1 ↔ i < dequeue := by omega
    simp [hne, hnext]

/-- The reader starts over at the end of a lap. -/
theorem wrap (h : Recycling m bit m ccs out) : Recycling m bit 0 (!ccs) out := by
  refine ⟨h.nodup, ?_⟩
  intro i hi
  rw [h.bits i hi]
  simp [hi]

/-- A slot is handed back by toggling its bit. -/
theorem handBack (h : Recycling m bit dequeue ccs (i :: out)) (hself : bit' i = !bit i)
    (hother : ∀ j < m, j ≠ i → bit' j = bit j) : Recycling m bit' dequeue ccs out := by
  obtain ⟨hfree, hnodup⟩ := List.nodup_cons.mp h.nodup
  refine ⟨hnodup, ?_⟩
  intro j hj
  obtain rfl | hne := eq_or_ne j i
  · rw [hself, h.bits j hj]
    simp [hfree]
  · rw [hother j hj hne, h.bits j hj]
    simp [hne]

end Recycling

end LemolaOs
