import LemolaOs.KernelLib.Allocator
import Mathlib.Order.Bounds.Basic

/-!
# Where the address rule puts a block

`Admissible` says which addresses a request may start at, with no reference to
how the code searches for one. `leastStart` is the first admissible address at or
above a pointer. As long as the two sums that `ceil` forms before it masks stay
inside a word, `align_and_boundary_to` finds exactly that address, and it answers
`Err(())` exactly when the block would end above `usize::MAX`.

The sums are not checked: `staysInWord_iff` says for which inputs they fit. On the
last page of the word they do not, even where nothing is left to round up.
-/

namespace LemolaOs.Allocator

/-- A block of this layout may start at `p`: the start is aligned and no multiple
of the boundary lies inside the block. -/
def Admissible (layout : Layout) (boundary p : Nat) : Prop :=
  layout.align ∣ p ∧ (0 < boundary → ¬ Crosses boundary p (p + layout.size))

/-- Move a block at `p` to the next multiple of the boundary if it steps over it. -/
def pastBoundary (p size boundary : Nat) : Nat :=
  if 0 < boundary ∧ roundUp boundary p < p + size then roundUp boundary p else p

/-- The first admissible address at or above `fromPtr`. -/
def leastStart (fromPtr : Nat) (layout : Layout) (boundary : Nat) : Nat :=
  pastBoundary (roundUp layout.align fromPtr) layout.size boundary

/-- Both calls of `ceil` form a sum below `2 ^ 64`. -/
structure StaysInWord (fromPtr : Nat) (layout : Layout) (boundary : Nat) : Prop where
  align : fromPtr + layout.align < usizeSize
  boundary : 0 < boundary → roundUp layout.align fromPtr + boundary < usizeSize

section leastStart

variable {fromPtr boundary : Nat} {layout : Layout}

theorem align_pos (layout : Layout) : 0 < layout.align :=
  Nat.pos_of_isPowerOfTwo layout.align_pow

theorem aligned_le_leastStart :
    roundUp layout.align fromPtr ≤ leastStart fromPtr layout boundary := by
  unfold leastStart pastBoundary
  split
  · rename_i h
    exact le_roundUp h.1 _
  · exact Nat.le_refl _

theorem admissible_leastStart (valid : ValidBoundary layout boundary) :
    Admissible layout boundary (leastStart fromPtr layout boundary) := by
  have haligned := dvd_roundUp layout.align fromPtr
  unfold leastStart pastBoundary
  split
  · rename_i h
    rcases valid with rfl | ⟨hpow, hsize, _⟩
    · exact absurd h.1 (Nat.lt_irrefl 0)
    · refine ⟨dvd_roundUp_boundary layout.align_pow hpow haligned, fun _ => ?_⟩
      exact not_crosses_of_dvd (dvd_roundUp _ _) (by omega)
  · rename_i h
    refine ⟨haligned, fun hpos => ?_⟩
    refine not_crosses_of_le_roundUp hpos (Nat.le_of_not_lt fun hlt => h ⟨hpos, hlt⟩)

/-- Every admissible address is an aligned one, and an admissible address below
the next boundary multiple leaves room for the whole block before it. -/
theorem leastStart_le {p : Nat} (hfrom : fromPtr ≤ p) (hp : Admissible layout boundary p) :
    leastStart fromPtr layout boundary ≤ p := by
  have haligned : roundUp layout.align fromPtr ≤ p := roundUp_le (align_pos layout) hp.1 hfrom
  unfold leastStart pastBoundary
  split
  · rename_i h
    by_contra hlt
    exact hp.2 h.1 ⟨_, dvd_roundUp _ _, Nat.lt_of_not_le hlt, by omega⟩
  · exact haligned

theorem leastStart_isLeast (valid : ValidBoundary layout boundary) :
    IsLeast {p | fromPtr ≤ p ∧ Admissible layout boundary p}
      (leastStart fromPtr layout boundary) := by
  refine ⟨⟨?_, admissible_leastStart valid⟩, fun p hp => leastStart_le hp.1 hp.2⟩
  exact Nat.le_trans (le_roundUp (align_pos layout) fromPtr) aligned_le_leastStart

end leastStart

section alignAndBoundaryTo

variable {fromPtr boundary : Nat} {layout : Layout}

/-- The boundary block, when its sum fits: `Err(())` if the block does not end in
the word at the candidate, otherwise the candidate or the next multiple. -/
theorem stepOverBoundary_eq {p size : Nat} (hb : boundary = 0 ∨ boundary.isPowerOfTwo)
    (hfit : 0 < boundary → p + boundary < usizeSize) :
    stepOverBoundary p size boundary = .ok
      (if 0 < boundary ∧ usizeSize ≤ p + size then none
      else some (pastBoundary p size boundary)) := by
  rcases hb with rfl | hpow
  · simp [stepOverBoundary, pastBoundary, pure, Except.pure]
  · have hpos := Nat.pos_of_isPowerOfTwo hpow
    have hceil : ceil p boundary = .ok (roundUp boundary p) :=
      (ceil_eq_ok hpow).mpr ⟨hfit hpos, rfl⟩
    simp only [stepOverBoundary, pastBoundary, hceil, Rust.ok_bind, hpos, true_and, if_true]
    by_cases hadd : p + size < usizeSize
    · rw [checkedAdd_eq_some.mpr ⟨hadd, rfl⟩, if_neg (Nat.not_le.mpr hadd)]
      by_cases hover : roundUp boundary p < p + size
      · simp only [if_pos hover, pure, Except.pure]
      · simp only [if_neg hover, pure, Except.pure]
    · have hnone : checkedAdd p size = none := if_neg hadd
      rw [hnone, if_pos (Nat.not_lt.mp hadd)]
      rfl

/-- The whole rule, when its sums fit. -/
theorem alignAndBoundaryTo_eq (valid : ValidBoundary layout boundary)
    (hfit : StaysInWord fromPtr layout boundary) :
    alignAndBoundaryTo fromPtr layout boundary = .ok
      (if leastStart fromPtr layout boundary + layout.size < usizeSize then
        some ⟨leastStart fromPtr layout boundary, leastStart fromPtr layout boundary + layout.size⟩
      else none) := by
  have hpow : boundary = 0 ∨ boundary.isPowerOfTwo := valid.imp_right And.left
  have hsize : boundary = 0 ∨ layout.size ≤ boundary := valid.imp_right fun h => h.2.1
  have hceil : ceil fromPtr layout.align = .ok (roundUp layout.align fromPtr) :=
    (ceil_eq_ok layout.align_pow).mpr ⟨hfit.align, rfl⟩
  have hfirst : debugAssert (boundary == 0 || decide boundary.isPowerOfTwo) = .ok () :=
    debugAssert_eq_ok.mpr (by simpa using hpow)
  have hsecond : debugAssert (boundary == 0 || decide (layout.size ≤ boundary)) = .ok () :=
    debugAssert_eq_ok.mpr (by simpa using hsize)
  have hle := @aligned_le_leastStart fromPtr boundary layout
  simp only [alignAndBoundaryTo, hfirst, hsecond, hceil, Rust.ok_bind,
    stepOverBoundary_eq hpow hfit.boundary]
  by_cases hover : 0 < boundary ∧ usizeSize ≤ roundUp layout.align fromPtr + layout.size
  · -- the candidate already ends outside the word, and the block only moves up
    rw [if_pos hover, if_neg (by omega)]
    rfl
  · rw [if_neg hover]
    rw [← leastStart]
    dsimp only
    by_cases hadd : leastStart fromPtr layout boundary + layout.size < usizeSize
    · rw [checkedAdd_eq_some.mpr ⟨hadd, rfl⟩, if_pos hadd]
      rfl
    · have hnone : checkedAdd (leastStart fromPtr layout boundary) layout.size = none := if_neg hadd
      rw [hnone, if_neg hadd]
      rfl

/-- A call that returns has a boundary that passes the two assertions, and both
its sums fit. -/
theorem staysInWord_of_eq_ok {r : Option Range}
    (h : alignAndBoundaryTo fromPtr layout boundary = .ok r) :
    (boundary = 0 ∨ boundary.isPowerOfTwo ∧ layout.size ≤ boundary) ∧
      StaysInWord fromPtr layout boundary := by
  simp only [alignAndBoundaryTo, Rust.bind_eq_ok, debugAssert_eq_ok, Bool.or_eq_true,
    beq_iff_eq, decide_eq_true_eq, ceil_eq_ok layout.align_pow] at h
  obtain ⟨_, hpow, _, hsize, aligned, ⟨halign, rfl⟩, placed, hplaced, _⟩ := h
  refine ⟨?_, halign, ?_⟩
  · rcases hpow with hzero | hpow
    · exact .inl hzero
    · exact hsize.imp_right fun hs => ⟨hpow, hs⟩
  · intro hpos
    have hpow : boundary.isPowerOfTwo := hpow.resolve_left (by omega)
    simp only [stepOverBoundary, if_pos hpos, Rust.bind_eq_ok, ceil_eq_ok hpow] at hplaced
    obtain ⟨next, ⟨hsum, _⟩, _⟩ := hplaced
    exact hsum

end alignAndBoundaryTo

/-- A power of two divides what a larger one leaves of the word. -/
theorem dvd_usizeSize_sub {a b : Nat} (ha : a.isPowerOfTwo) (hb : b.isPowerOfTwo) (hle : a ≤ b)
    (hlt : b < usizeSize) : a ∣ usizeSize - b := by
  have hword : usizeSize.isPowerOfTwo := ⟨64, rfl⟩
  exact Nat.dvd_sub (pow_dvd_of_le ha hword (by omega)) (pow_dvd_of_le ha hb hle)

/-- The second sum of `ceil`, in terms of the inputs alone. A boundary below the
alignment adds nothing to what the first sum asks for; otherwise the rounded
pointer and `2 ^ 64 - boundary` are both multiples of the alignment, so the sum
fits exactly when there is a whole alignment step between them. -/
theorem staysInWord_iff {fromPtr boundary : Nat} {layout : Layout}
    (valid : ValidBoundary layout boundary) :
    StaysInWord fromPtr layout boundary ↔
      fromPtr + layout.align < usizeSize ∧
        (layout.align ≤ boundary → fromPtr + layout.align + boundary ≤ usizeSize) := by
  have hpos := align_pos layout
  have hpow : 0 < boundary → boundary.isPowerOfTwo ∧ boundary < usizeSize := by
    intro hb
    rcases valid with rfl | ⟨hpow, _, hlt⟩
    · exact absurd hb (Nat.lt_irrefl 0)
    · exact ⟨hpow, hlt⟩
  constructor
  · intro h
    refine ⟨h.align, fun hle => ?_⟩
    obtain ⟨hpow, hlt⟩ := hpow (by omega)
    have hdvd := dvd_usizeSize_sub layout.align_pow hpow hle hlt
    have hsum := h.boundary (by omega)
    have hgap := (roundUp_lt_iff hpos hdvd).mp (Nat.lt_sub_of_add_lt hsum)
    omega
  · rintro ⟨halign, h⟩
    refine ⟨halign, fun hb => ?_⟩
    obtain ⟨hpow, hlt⟩ := hpow hb
    rcases Nat.lt_or_ge boundary layout.align with hsmall | hle
    · -- the last multiple of the alignment below `2 ^ 64` leaves room for the boundary
      have hdvd := dvd_usizeSize_sub layout.align_pow layout.align_pow (Nat.le_refl _) (by omega)
      have hround := roundUp_le hpos hdvd (v := fromPtr) (by omega)
      omega
    · have hdvd := dvd_usizeSize_sub layout.align_pow hpow hle hlt
      have hsum := h hle
      have hround := (roundUp_lt_iff (v := fromPtr) hpos hdvd).mpr (by omega)
      omega

/-- No address that placing the block computes exceeds `usize::MAX`: not the pointer
rounded up to the alignment, not that rounded up to the boundary, not the end of the
block at the first admissible address. -/
structure PlacedInWord (fromPtr : Nat) (layout : Layout) (boundary : Nat) : Prop where
  aligned : roundUp layout.align fromPtr < usizeSize
  nextBoundary : 0 < boundary → roundUp boundary (roundUp layout.align fromPtr) < usizeSize
  block : leastStart fromPtr layout boundary + layout.size < usizeSize

/-- The call returns the range that begins at the smallest address at or above
`from_ptr` that is aligned and from which the block has no boundary multiple inside. -/
def ReturnsLeast (fromPtr : Nat) (layout : Layout) (boundary : Nat) : Prop :=
  ∃ s, IsLeast {p | fromPtr ≤ p ∧ Admissible layout boundary p} s ∧
    alignAndBoundaryTo fromPtr layout boundary = .ok (some ⟨s, s + layout.size⟩)

theorem StaysInWord.returnsLeast {fromPtr boundary : Nat} {layout : Layout}
    (valid : ValidBoundary layout boundary) (hfit : StaysInWord fromPtr layout boundary)
    (hend : leastStart fromPtr layout boundary + layout.size < usizeSize) :
    ReturnsLeast fromPtr layout boundary := by
  refine ⟨leastStart fromPtr layout boundary, leastStart_isLeast valid, ?_⟩
  rw [alignAndBoundaryTo_eq valid hfit, if_pos hend]

/-- `align_and_boundary_to` returns the least admissible start exactly when the
unchecked sums of `ceil` fit. `ceil` adds the whole alignment before it takes one off,
so a pointer in the last page of the word overflows although it rounds to itself. -/
theorem returnsLeast_iff (fromPtr : Nat) (layout : Layout) (boundary : Nat)
    (valid : ValidBoundary layout boundary) (hrounds : PlacedInWord fromPtr layout boundary) :
    ReturnsLeast fromPtr layout boundary ↔
      fromPtr + layout.align < usizeSize ∧
        (layout.align ≤ boundary → fromPtr + layout.align + boundary ≤ usizeSize) := by
  rw [← staysInWord_iff valid]
  constructor
  · rintro ⟨s, _, hret⟩
    exact (staysInWord_of_eq_ok hret).2
  · intro hfit
    exact hfit.returnsLeast valid hrounds.block

/-- 0x100 bytes at 0x2000, the request of `align_and_boundary_to_test`. -/
def testLayout : Layout := ⟨0x100, 0x2000, ⟨13, rfl⟩, by decide⟩

theorem returnsLeast_iff_testLayout :
    ReturnsLeast 0x1111 testLayout 0x400 ↔
      0x1111 + testLayout.align < usizeSize ∧
        (testLayout.align ≤ 0x400 → 0x1111 + testLayout.align + 0x400 ≤ usizeSize) :=
  returnsLeast_iff 0x1111 testLayout 0x400 (.inr ⟨⟨10, rfl⟩, by decide, by decide⟩)
    ⟨by decide, by decide, by decide⟩

example : alignAndBoundaryTo 0x1111 testLayout 0x400 = .ok (some ⟨0x2000, 0x2100⟩) := by decide

/-- A 16-byte block on a page of its own. -/
def pageLayout : Layout := ⟨0x10, 0x1000, ⟨12, rfl⟩, by decide⟩

/-- The last page of the word is aligned and has room for the block, so no address
leaves the word, but the first sum of `ceil` does. -/
theorem not_returnsLeast_last_page :
    PlacedInWord 0xfffffffffffff000 pageLayout 0 ∧
      ¬ ReturnsLeast 0xfffffffffffff000 pageLayout 0 := by
  refine ⟨⟨by decide, by decide, by decide⟩, ?_⟩
  rintro ⟨s, _, hret⟩
  have hover : alignAndBoundaryTo 0xfffffffffffff000 pageLayout 0 = .error .overflow := by rfl
  rw [hover] at hret
  cases hret

/-- Exhaustion of the address space is reported: the call returns, never below
`from_ptr`, and answers `Err(())` exactly when every admissible range at or above
`from_ptr` ends above `usize::MAX`. -/
structure ReportsExhaustion (fromPtr : Nat) (layout : Layout) (boundary : Nat) : Prop where
  returns : ∃ r, alignAndBoundaryTo fromPtr layout boundary = .ok r
  above : ∀ r, alignAndBoundaryTo fromPtr layout boundary = .ok (some r) → fromPtr ≤ r.start
  err_iff : alignAndBoundaryTo fromPtr layout boundary = .ok none ↔
    ∀ s, fromPtr ≤ s → Admissible layout boundary s → usizeSize ≤ s + layout.size

/-- When the sums fit, `Err(())` says that the least admissible block ends outside
the word, and then so does every other one. -/
theorem StaysInWord.reportsExhaustion {fromPtr boundary : Nat} {layout : Layout}
    (valid : ValidBoundary layout boundary) (hfit : StaysInWord fromPtr layout boundary) :
    ReportsExhaustion fromPtr layout boundary := by
  have heq := alignAndBoundaryTo_eq valid hfit
  obtain ⟨⟨hfrom, hadm⟩, hleast⟩ := @leastStart_isLeast fromPtr _ _ valid
  refine ⟨⟨_, heq⟩, fun r hr => (alignAndBoundaryTo_spec hr).1, ?_⟩
  rw [heq]
  constructor
  · intro hnone s hs hsadm
    have hle := hleast ⟨hs, hsadm⟩
    by_contra hlt
    rw [if_pos (by omega)] at hnone
    simp at hnone
  · intro hall
    have hend := hall _ hfrom hadm
    rw [if_neg (Nat.not_lt.mpr hend)]

/-- Exhaustion is reported exactly when the unchecked sums of `ceil` fit: the
pointer plus the alignment stays below `2 ^ 64` and, for a boundary at least as
coarse as the alignment, the three together do not exceed it. -/
theorem reportsExhaustion_iff (fromPtr : Nat) (layout : Layout) (boundary : Nat)
    (valid : ValidBoundary layout boundary) :
    ReportsExhaustion fromPtr layout boundary ↔
      fromPtr + layout.align < usizeSize ∧
        (layout.align ≤ boundary → fromPtr + layout.align + boundary ≤ usizeSize) := by
  rw [← staysInWord_iff valid]
  constructor
  · intro h
    obtain ⟨r, hr⟩ := h.returns
    exact (staysInWord_of_eq_ok hr).2
  · intro hfit
    exact hfit.reportsExhaustion valid

theorem reportsExhaustion_iff_pageLayout :
    ReportsExhaustion 0x100001 pageLayout 0 ↔
      0x100001 + pageLayout.align < usizeSize ∧
        (pageLayout.align ≤ 0 → 0x100001 + pageLayout.align + 0 ≤ usizeSize) :=
  reportsExhaustion_iff 0x100001 pageLayout 0 (.inl rfl)

/-- One byte into the last page the first sum already overflows, although no
aligned block follows and `Err(())` is due. -/
theorem not_reportsExhaustion_last_page :
    ¬ ReportsExhaustion 0xfffffffffffff001 pageLayout 0 := by
  intro h
  obtain ⟨r, hr⟩ := h.returns
  have hover : alignAndBoundaryTo 0xfffffffffffff001 pageLayout 0 = .error .overflow := by rfl
  rw [hover] at hr
  cases hr

end LemolaOs.Allocator
