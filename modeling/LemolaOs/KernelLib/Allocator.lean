import LemolaOs.Library.RoundUp
import LemolaOs.Rust

/-!
# Address arithmetic of the boundary allocators

`ceil` and `alignAndBoundaryTo` of `kernel-lib/src/allocator.rs`. The address
rule is shared by the bump and the fixed-length allocator: round the first free
address up to the alignment and, when the block would step over a multiple of
`boundary`, move it to that multiple.

`Layout` carries the conditions that `Layout::from_size_align` checks, so a
layout with a bad alignment or an oversized block cannot be built.
-/

namespace LemolaOs.Allocator

/-- `core::alloc::Layout`. The alignment is a power of two and the size rounded
up to it does not exceed `isize::MAX`. -/
structure Layout where
  size : Nat
  align : Nat
  align_pow : align.isPowerOfTwo
  size_le : size + align ≤ 2 ^ 63
  deriving DecidableEq

/-- `start..end` on addresses. -/
structure Range where
  start : Nat
  stop : Nat
  deriving DecidableEq, Repr

/-- The contract on `boundary`: zero, or a power of two that holds the block. -/
def ValidBoundary (layout : Layout) (boundary : Nat) : Prop :=
  boundary = 0 ∨ boundary.isPowerOfTwo ∧ layout.size ≤ boundary ∧ boundary < usizeSize

/-- `ceil(value, alignment)`: `(value + alignment - 1) & !(alignment - 1)`. -/
def ceil (value alignment : Nat) : Rust Nat := do
  let sum ← usizeAdd value alignment
  let top ← usizeSub sum 1
  let low ← usizeSub alignment 1
  return top &&& usizeNot low

/-- The `boundary > 0` block of `align_and_boundary_to`; `none` is `Err(())`. -/
def stepOverBoundary (allocPtr size boundary : Nat) : Rust (Option Nat) := do
  if 0 < boundary then
    let nextBoundary ← ceil allocPtr boundary
    match checkedAdd allocPtr size with
    | none => return none
    | some endPtr =>
      -- if allocated area steps over boundary
      if nextBoundary < endPtr then return some nextBoundary else return some allocPtr
  else
    return some allocPtr

/-- `align_and_boundary_to(from_ptr, layout, boundary)`; `none` is `Err(())`. -/
def alignAndBoundaryTo (fromPtr : Nat) (layout : Layout) (boundary : Nat) :
    Rust (Option Range) := do
  debugAssert (boundary == 0 || decide boundary.isPowerOfTwo)
  debugAssert (boundary == 0 || decide (layout.size ≤ boundary))
  let aligned ← ceil fromPtr layout.align
  match ← stepOverBoundary aligned layout.size boundary with
  | none => return none
  | some allocPtr =>
    match checkedAdd allocPtr layout.size with
    | none => return none
    | some endPtr => return some ⟨allocPtr, endPtr⟩

/-- The mask idiom on a power of two, as long as the sum fits in a word. -/
private theorem mask_eq_roundUp {value k : Nat} (hfit : value + 2 ^ k < usizeSize) :
    (value + 2 ^ k - 1) &&& usizeNot (2 ^ k - 1) = roundUp (2 ^ k) value := by
  have hk : k ≤ 64 := by
    by_contra hlt
    have hbig : 2 ^ 64 ≤ 2 ^ k := Nat.pow_le_pow_right (by decide) (by omega)
    simp only [usizeSize] at hfit
    omega
  exact and_mask_eq (w := 64) hk (by simp only [usizeSize] at hfit; omega)

/-- On a power of two `ceil` is exactly `roundUp`, and it returns whenever
`value + alignment` fits in a word. -/
theorem ceil_eq_ok {value alignment c : Nat} (ha : alignment.isPowerOfTwo) :
    ceil value alignment = .ok c ↔
      value + alignment < usizeSize ∧ c = roundUp alignment value := by
  obtain ⟨k, rfl⟩ := ha
  have hpos : 0 < 2 ^ k := Nat.two_pow_pos k
  simp only [ceil, Rust.bind_eq_ok, usizeAdd_eq_ok, usizeSub_eq_ok, pure, Except.pure,
    Except.ok.injEq]
  constructor
  · rintro ⟨sum, ⟨hfit, rfl⟩, top, ⟨_, rfl⟩, low, ⟨_, rfl⟩, rfl⟩
    exact ⟨hfit, mask_eq_roundUp hfit⟩
  · rintro ⟨hfit, rfl⟩
    exact ⟨_, ⟨hfit, rfl⟩, _, ⟨by omega, rfl⟩, _, ⟨by omega, rfl⟩, mask_eq_roundUp hfit⟩

/-- A power of two divides every larger one. -/
theorem pow_dvd_of_le {a b : Nat} (ha : a.isPowerOfTwo) (hb : b.isPowerOfTwo)
    (hle : a ≤ b) : a ∣ b := by
  obtain ⟨i, rfl⟩ := ha
  obtain ⟨j, rfl⟩ := hb
  exact Nat.pow_dvd_pow 2 ((Nat.pow_le_pow_iff_right (by decide)).mp hle)

/-- Moving an aligned block to the next boundary multiple keeps it aligned: either
the boundary is coarser than the alignment, or the block already sat on it. -/
theorem dvd_roundUp_boundary {a b p : Nat} (ha : a.isPowerOfTwo) (hb : b.isPowerOfTwo)
    (hp : a ∣ p) : a ∣ roundUp b p := by
  rcases Nat.le_total a b with hle | hle
  · exact Nat.dvd_trans (pow_dvd_of_le ha hb hle) (dvd_roundUp b p)
  · rw [roundUp_eq_self (Nat.pos_of_isPowerOfTwo hb)
      (Nat.dvd_trans (pow_dvd_of_le hb ha hle) hp)]
    exact hp

/-- What the boundary block returns: the candidate itself or the next multiple,
and in both cases a start from which the block crosses no multiple. -/
theorem stepOverBoundary_spec {p size boundary q : Nat}
    (hb : boundary = 0 ∨ boundary.isPowerOfTwo ∧ size ≤ boundary)
    (h : stepOverBoundary p size boundary = .ok (some q)) :
    p ≤ q ∧ (q = p ∨ q = roundUp boundary p) ∧
      (0 < boundary → ¬ Crosses boundary q (q + size)) := by
  rcases hb with rfl | ⟨hpow, hsize⟩
  · simp only [stepOverBoundary, Nat.lt_irrefl, if_false, pure, Except.pure, Except.ok.injEq,
      Option.some.injEq] at h
    subst h
    exact ⟨Nat.le_refl _, .inl rfl, fun h => absurd h (Nat.lt_irrefl 0)⟩
  · have hpos := Nat.pos_of_isPowerOfTwo hpow
    simp only [stepOverBoundary, if_pos hpos, Rust.bind_eq_ok, ceil_eq_ok hpow] at h
    obtain ⟨next, ⟨_, rfl⟩, h⟩ := h
    cases hadd : checkedAdd p size with
    | none => simp [hadd, pure, Except.pure] at h
    | some endPtr =>
        obtain ⟨_, rfl⟩ := checkedAdd_eq_some.mp hadd
        simp only [hadd] at h
        split at h
        · simp only [pure, Except.pure, Except.ok.injEq, Option.some.injEq] at h
          subst h
          exact ⟨le_roundUp hpos p, .inr rfl, fun _ =>
            not_crosses_of_dvd (dvd_roundUp boundary p) (by omega)⟩
        · rename_i hlt
          simp only [pure, Except.pure, Except.ok.injEq, Option.some.injEq] at h
          subst h
          exact ⟨Nat.le_refl _, .inl rfl, fun _ =>
            not_crosses_of_le_roundUp hpos (Nat.le_of_not_lt hlt)⟩

/-- Every range that `align_and_boundary_to` returns starts at or above the given
address, is aligned, has the layout's size and crosses no boundary multiple. -/
theorem alignAndBoundaryTo_spec {fromPtr boundary : Nat} {layout : Layout} {r : Range}
    (h : alignAndBoundaryTo fromPtr layout boundary = .ok (some r)) :
    fromPtr ≤ r.start ∧ r.stop = r.start + layout.size ∧ layout.align ∣ r.start ∧
      (0 < boundary → ¬ Crosses boundary r.start r.stop) := by
  simp only [alignAndBoundaryTo, Rust.bind_eq_ok, debugAssert_eq_ok, Bool.or_eq_true,
    beq_iff_eq, decide_eq_true_eq, ceil_eq_ok layout.align_pow] at h
  obtain ⟨_, hpow, _, hsize, aligned, ⟨_, rfl⟩, placed, hplaced, h⟩ := h
  cases placed with
  | none => simp [pure, Except.pure] at h
  | some q =>
      have hb : boundary = 0 ∨ boundary.isPowerOfTwo ∧ layout.size ≤ boundary := by
        rcases hpow with hzero | hpow
        · exact .inl hzero
        · exact hsize.imp_right fun hs => ⟨hpow, hs⟩
      obtain ⟨hle, hcase, hcross⟩ := stepOverBoundary_spec hb hplaced
      cases hadd : checkedAdd q layout.size with
      | none => simp [hadd, pure, Except.pure] at h
      | some endPtr =>
          obtain ⟨_, rfl⟩ := checkedAdd_eq_some.mp hadd
          simp only [hadd, pure, Except.pure, Except.ok.injEq, Option.some.injEq] at h
          subst h
          have hfrom := le_roundUp (Nat.pos_of_isPowerOfTwo layout.align_pow) fromPtr
          refine ⟨Nat.le_trans hfrom hle, rfl, ?_, hcross⟩
          rcases hcase with rfl | rfl
          · exact dvd_roundUp _ _
          · rcases hb with rfl | ⟨hpow, _⟩
            · simp [roundUp]
            · exact dvd_roundUp_boundary layout.align_pow hpow (dvd_roundUp _ _)

end LemolaOs.Allocator
