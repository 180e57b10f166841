import LemolaOs.KernelLib.FixedLengthAllocator

/-!
# When an allocation fails

The two allocators compare the end of a block with the end of the heap by `>=`, so
they turn down the request that exactly fills the rest of the heap. Apart from that
they fail when no block fits: `BumpAllocator.alloc_eq` and
`FixedLengthAllocator.exists_alloc_iff` say when a call succeeds in terms of the
first admissible address alone, and `fails_only_when_full_iff` compares that with
the requests that fit.

Sums that are not checked can overflow as well, those of `ceil` and the counter of
the bump allocator. `BumpAllocator.NoOverflow` says when they do not.
-/

namespace LemolaOs.Allocator

/-- Some admissible block at or above `next` ends at or before `heapEnd`. -/
def FitsBefore (next heapEnd : Nat) (layout : Layout) (boundary : Nat) : Prop :=
  ∃ s, next ≤ s ∧ Admissible layout boundary s ∧ s + layout.size ≤ heapEnd

/-- The sums that `ceil` forms on the way to a block at or above `next` stay below `2 ^ 64`. -/
structure RoundsInWord (next : Nat) (layout : Layout) (boundary : Nat) : Prop where
  align : next + layout.align < usizeSize
  boundary : layout.align ≤ boundary → next + layout.align + boundary ≤ usizeSize

section placement

variable {next heapEnd boundary : Nat} {layout : Layout}

/-- If a block fits at all, then the one at the first admissible address does. -/
theorem fitsBefore_iff (valid : ValidBoundary layout boundary) :
    FitsBefore next heapEnd layout boundary ↔
      leastStart next layout boundary + layout.size ≤ heapEnd := by
  obtain ⟨⟨hfrom, hadm⟩, hleast⟩ := @leastStart_isLeast next _ _ valid
  constructor
  · rintro ⟨s, hs, hsadm, hend⟩
    have hle : leastStart next layout boundary ≤ s := hleast ⟨hs, hsadm⟩
    omega
  · intro hend
    exact ⟨_, hfrom, hadm, hend⟩

theorem roundsInWord_iff (valid : ValidBoundary layout boundary) :
    RoundsInWord next layout boundary ↔ StaysInWord next layout boundary := by
  rw [staysInWord_iff valid]
  exact ⟨fun h => ⟨h.align, h.boundary⟩, fun h => ⟨h.1, h.2⟩⟩

theorem le_leastStart : next ≤ leastStart next layout boundary :=
  Nat.le_trans (le_roundUp (align_pos layout) next) aligned_le_leastStart

/-- Rounding moves no pointer but zero to zero. -/
theorem leastStart_eq_zero_iff : leastStart next layout boundary = 0 ↔ next = 0 := by
  constructor
  · intro h
    have hle := @le_leastStart next boundary layout
    omega
  · rintro rfl
    have halign : roundUp layout.align 0 = 0 := roundUp_eq_self (align_pos layout) (Nat.dvd_zero _)
    simp only [leastStart, pastBoundary, halign]
    split
    · rename_i h
      exact roundUp_eq_self h.1 (Nat.dvd_zero _)
    · rfl

end placement

namespace BumpAllocator

variable {a : BumpAllocator} {layout : Layout} {boundary : Nat}

/-- Neither the sums of `ceil` nor, on success, the counter leaves the word. -/
structure NoOverflow (a : BumpAllocator) (layout : Layout) (boundary : Nat) : Prop where
  rounds : RoundsInWord a.next layout boundary
  counts : leastStart a.next layout boundary + layout.size < a.heapEnd →
    a.nAllocations + 1 < usizeSize

/-- A call without overflow hands out the first admissible block if that ends before
`heap_end`, and a null pointer if not. -/
theorem alloc_eq (valid : ValidBoundary layout boundary) (hend : a.heapEnd < usizeSize)
    (h : a.NoOverflow layout boundary) :
    a.alloc layout boundary = .ok
      (if leastStart a.next layout boundary + layout.size < a.heapEnd then
        (leastStart a.next layout boundary,
          { a with next := leastStart a.next layout boundary + layout.size,
                   nAllocations := a.nAllocations + 1 })
      else (0, a)) := by
  have hplace := alignAndBoundaryTo_eq valid ((roundsInWord_iff valid).mp h.rounds)
  simp only [alloc, hplace, Rust.ok_bind]
  by_cases hroom : leastStart a.next layout boundary + layout.size < a.heapEnd
  · have hcount : usizeAdd a.nAllocations 1 = .ok (a.nAllocations + 1) :=
      usizeAdd_eq_ok.mpr ⟨h.counts hroom, rfl⟩
    rw [if_pos (by omega : leastStart a.next layout boundary + layout.size < usizeSize),
      if_pos hroom]
    dsimp only
    rw [if_neg (Nat.not_le.mpr hroom), hcount]
    rfl
  · rw [if_neg hroom]
    by_cases hword : leastStart a.next layout boundary + layout.size < usizeSize
    · rw [if_pos hword]
      exact if_pos (Nat.le_of_not_lt hroom)
    · rw [if_neg hword]
      rfl

theorem noOverflow_of_eq_ok {r : Nat × BumpAllocator} (valid : ValidBoundary layout boundary)
    (hend : a.heapEnd < usizeSize) (h : a.alloc layout boundary = .ok r) :
    a.NoOverflow layout boundary := by
  simp only [alloc, Rust.bind_eq_ok] at h
  obtain ⟨found, hfound, h⟩ := h
  have hword := (staysInWord_of_eq_ok hfound).2
  refine ⟨(roundsInWord_iff valid).mpr hword, ?_⟩
  intro hroom
  rw [alignAndBoundaryTo_eq valid hword, if_pos (by omega)] at hfound
  obtain rfl := Except.ok.inj hfound
  dsimp only at h
  rw [if_neg (Nat.not_le.mpr hroom)] at h
  simp only [Rust.bind_eq_ok, usizeAdd_eq_ok] at h
  obtain ⟨_, ⟨hcount, _⟩, _⟩ := h
  exact hcount

/-- The call returns, with a null pointer if and only if no block fits. -/
def NullIffFull (a : BumpAllocator) (heapEnd : Nat) (layout : Layout) (boundary : Nat) : Prop :=
  ∃ ptr a', a.alloc layout boundary = .ok (ptr, a') ∧
    (ptr = 0 ↔ ¬ FitsBefore a.next heapEnd layout boundary)

theorem nullIffFull_iff (valid : ValidBoundary layout boundary) (hend : a.heapEnd < usizeSize) :
    a.NullIffFull a.heapEnd layout boundary ↔
      a.NoOverflow layout boundary ∧
        leastStart a.next layout boundary + layout.size ≠ a.heapEnd ∧
        (leastStart a.next layout boundary + layout.size < a.heapEnd → 0 < a.next) := by
  have hzero := @leastStart_eq_zero_iff a.next boundary layout
  simp only [NullIffFull, fitsBefore_iff valid]
  constructor
  · rintro ⟨ptr, a', halloc, hnull⟩
    have hno := noOverflow_of_eq_ok valid hend halloc
    rw [alloc_eq valid hend hno, Except.ok.injEq] at halloc
    refine ⟨hno, ?_, ?_⟩
    · intro hexact
      rw [if_neg (by omega)] at halloc
      cases halloc
      omega
    · intro hroom
      rw [if_pos hroom] at halloc
      cases halloc
      omega
  · rintro ⟨hno, hexact, hpos⟩
    rw [alloc_eq valid hend hno]
    by_cases hroom : leastStart a.next layout boundary + layout.size < a.heapEnd
    · rw [if_pos hroom]
      have hnext := hpos hroom
      exact ⟨_, _, rfl, by omega⟩
    · rw [if_neg hroom]
      exact ⟨_, _, rfl, by omega⟩

end BumpAllocator

/-- What no call changes, whatever the callers do. -/
structure Heap.Bounded (lo hi : Nat) (s : Heap) : Prop where
  heapStart : s.allocator.heapStart = lo
  heapEnd : s.allocator.heapEnd = hi
  lo_le_next : lo ≤ s.allocator.next

theorem Heap.Bounded.of_reachable {lo hi : Nat} {s : Heap} (hs : (system lo hi).Reachable s) :
    s.Bounded lo hi := by
  refine hs.invariant ?_ ?_
  · rintro s rfl
    exact ⟨rfl, rfl, Nat.le_refl _⟩
  · intro s op t _ inv h
    cases h with
    | alloc _ h =>
        obtain ⟨_, rfl⟩ | ⟨r, hr, _, _, rfl⟩ := BumpAllocator.alloc_cases h
        · exact ⟨inv.heapStart, inv.heapEnd, inv.lo_le_next⟩
        · obtain ⟨hfrom, hstop, _⟩ := alignAndBoundaryTo_spec hr
          have hlo := inv.lo_le_next
          exact ⟨inv.heapStart, inv.heapEnd, by simp only [hold]; omega⟩
    | dealloc _ h =>
        obtain ⟨_, rfl⟩ := BumpAllocator.dealloc_eq_ok.mp h
        refine ⟨inv.heapStart, inv.heapEnd, ?_⟩
        have hstart := inv.heapStart
        have hlo := inv.lo_le_next
        dsimp only
        split <;> omega

namespace FixedLengthAllocator

variable {size : Nat} {f : FixedLengthAllocator size} {layout : Layout} {boundary : Nat}

inductive Step : FixedLengthAllocator size → Heap.Op → FixedLengthAllocator size → Prop where
  | alloc {f f' : FixedLengthAllocator size} {layout : Layout} {boundary ptr : Nat}
      (h : f.alloc layout boundary = .ok (ptr, f')) : Step f (.alloc layout boundary) f'
  | dealloc {f : FixedLengthAllocator size} (b : Block) :
      Step f (.dealloc b) (f.dealloc b.ptr b.layout)

/-- Every history of calls on one allocator at `heap`. -/
def system (heap : Nat) : System (FixedLengthAllocator size) Heap.Op where
  init f := f = new heap
  step := Step

/-- The block that was found, if it ends before the end of the heap. -/
theorem exists_alloc_of_some {r : Range} (hend : f.heap + size < usizeSize)
    (hplace : alignAndBoundaryTo (f.heap + f.next) layout boundary = .ok (some r)) :
    (∃ r', f.alloc layout boundary = .ok r') ↔ r.stop < f.heap + size := by
  obtain ⟨hfrom, hstop, _⟩ := alignAndBoundaryTo_spec hplace
  have hheapEnd : f.heapEnd = .ok (f.heap + size) := usizeAdd_eq_ok.mpr ⟨hend, rfl⟩
  have hsub : usizeSub r.stop f.heap = .ok (r.stop - f.heap) := usizeSub_eq_ok.mpr ⟨by omega, rfl⟩
  rw [alloc_of_ok hplace]
  simp only [heapRange, hheapEnd, Rust.ok_bind]
  by_cases hroom : r.stop < f.heap + size
  · rw [if_neg (Nat.not_le.mpr hroom)]
    simp only [pure, Except.pure, Rust.ok_bind, hsub]
    exact ⟨fun _ => hroom, fun _ => ⟨_, rfl⟩⟩
  · rw [if_pos (Nat.le_of_not_lt hroom)]
    constructor
    · rintro ⟨_, hok⟩
      cases hok
    · exact fun h => absurd h hroom

/-- A call succeeds if nothing overflows and the first admissible block ends before the
end of the heap. -/
theorem exists_alloc_iff (valid : ValidBoundary layout boundary)
    (hend : f.heap + size < usizeSize) :
    (∃ r, f.alloc layout boundary = .ok r) ↔
      RoundsInWord (f.heap + f.next) layout boundary ∧
        leastStart (f.heap + f.next) layout boundary + layout.size < f.heap + size := by
  rw [roundsInWord_iff valid]
  constructor
  · rintro ⟨r, halloc⟩
    have hfound : ∃ found, alignAndBoundaryTo (f.heap + f.next) layout boundary = .ok found := by
      simp only [alloc, Rust.bind_eq_ok] at halloc
      obtain ⟨_, _, found, hfound, _⟩ := halloc
      exact ⟨found, hfound⟩
    obtain ⟨found, hfound⟩ := hfound
    have hword := (staysInWord_of_eq_ok hfound).2
    refine ⟨hword, ?_⟩
    have heq := alignAndBoundaryTo_eq valid hword
    split at heq
    · exact (exists_alloc_of_some hend heq).mp ⟨r, halloc⟩
    · rw [alloc_of_ok heq] at halloc
      cases halloc
  · rintro ⟨hword, hroom⟩
    have heq := alignAndBoundaryTo_eq valid hword
    rw [if_pos (by omega)] at heq
    exact (exists_alloc_of_some hend heq).mpr hroom

/-- The call panics if and only if no block fits. -/
def PanicsIffFull (f : FixedLengthAllocator size) (layout : Layout) (boundary : Nat) : Prop :=
  (∃ e, f.alloc layout boundary = .error e) ↔
    ¬ FitsBefore (f.heap + f.next) (f.heap + size) layout boundary

theorem panicsIffFull_iff (valid : ValidBoundary layout boundary)
    (hend : f.heap + size < usizeSize) :
    f.PanicsIffFull layout boundary ↔
      (leastStart (f.heap + f.next) layout boundary + layout.size ≤ f.heap + size →
        RoundsInWord (f.heap + f.next) layout boundary ∧
        leastStart (f.heap + f.next) layout boundary + layout.size ≠ f.heap + size) := by
  have hpanic : (∃ e, f.alloc layout boundary = .error e) ↔
      ¬ ∃ r, f.alloc layout boundary = .ok r := by
    cases f.alloc layout boundary with
    | error e => simp
    | ok r => simp
  simp only [PanicsIffFull, hpanic, exists_alloc_iff valid hend, fitsBefore_iff valid]
  constructor
  · intro h hfits
    have hcall := not_iff_not.mp h
    obtain ⟨hrounds, hroom⟩ := hcall.mpr hfits
    exact ⟨hrounds, Nat.ne_of_lt hroom⟩
  · intro h
    rw [not_iff_not]
    constructor
    · rintro ⟨_, hroom⟩
      exact Nat.le_of_lt hroom
    · intro hfits
      obtain ⟨hrounds, hexact⟩ := h hfits
      exact ⟨hrounds, by omega⟩

theorem heap_alloc {f' : FixedLengthAllocator size} {ptr : Nat}
    (h : f.alloc layout boundary = .ok (ptr, f')) : f'.heap = f.heap := by
  simp only [alloc, Rust.bind_eq_ok] at h
  obtain ⟨_, _, found, _, h⟩ := h
  cases found with
  | none => cases h
  | some r =>
      simp only [Rust.bind_eq_ok] at h
      obtain ⟨_, _, h⟩ := h
      split at h
      · cases h
      · simp only [Rust.bind_eq_ok] at h
        obtain ⟨_, _, _, _, h⟩ := h
        cases h
        rfl

theorem heap_of_reachable {heap : Nat} (hf : (system heap).Reachable f) : f.heap = heap := by
  refine hf.invariant (I := fun f => f.heap = heap) ?_ ?_
  · rintro f rfl
    rfl
  · intro f op f' _ inv h
    cases h with
    | dealloc b => exact inv
    | alloc h => exact (heap_alloc h).trans inv

end FixedLengthAllocator

/-- Where the first admissible block does not end exactly at the end of the heap, and no sum
overflows, an allocation fails only when it does not fit. This is so in every state that calls
lead to. -/
theorem fails_only_when_full_iff (layout : Layout) (boundary : Nat)
    (valid : ValidBoundary layout boundary) :
    (∀ heapStart heapEnd s, heapEnd < usizeSize → (Heap.system heapStart heapEnd).Reachable s →
      (s.allocator.NullIffFull heapEnd layout boundary ↔
        s.allocator.NoOverflow layout boundary ∧
          leastStart s.allocator.next layout boundary + layout.size ≠ heapEnd ∧
          (leastStart s.allocator.next layout boundary + layout.size < heapEnd →
            0 < s.allocator.next))) ∧
    (∀ size heap, ∀ f : FixedLengthAllocator size, heap + size < usizeSize →
      (FixedLengthAllocator.system heap).Reachable f →
      (f.PanicsIffFull layout boundary ↔
        (leastStart (heap + f.next) layout boundary + layout.size ≤ heap + size →
          RoundsInWord (heap + f.next) layout boundary ∧
          leastStart (heap + f.next) layout boundary + layout.size ≠ heap + size))) := by
  refine ⟨?_, ?_⟩
  · intro heapStart heapEnd s hend hs
    obtain rfl := (Heap.Bounded.of_reachable hs).heapEnd
    exact BumpAllocator.nullIffFull_iff valid hend
  · intro size heap f hend hf
    obtain rfl := FixedLengthAllocator.heap_of_reachable hf
    exact FixedLengthAllocator.panicsIffFull_iff valid hend

theorem fails_only_when_full_iff_ringLayout :
    (Heap.fresh 0x1010 0x2000).NullIffFull 0x2000 Heap.ringLayout 0x400 ∧
      (FixedLengthAllocator.new 0x1010 : FixedLengthAllocator 0x1000).PanicsIffFull
        Heap.ringLayout 0x400 := by
  obtain ⟨hbump, hfixed⟩ := fails_only_when_full_iff Heap.ringLayout 0x400
    (.inr ⟨⟨10, rfl⟩, by decide, by decide⟩)
  refine ⟨(hbump 0x1010 0x2000 ⟨_, []⟩ (by decide) (.init rfl)).mpr ?_,
    (hfixed 0x1000 0x1010 _ (by decide) (.init rfl)).mpr ?_⟩
  · exact ⟨⟨⟨by decide, by decide⟩, by decide⟩, by decide, by decide⟩
  · exact fun _ => ⟨⟨by decide, by decide⟩, by decide⟩

/-- A heap of 64 bytes has no room for a block of 64 bytes. -/
theorem exact_fit_turned_down :
    ¬ (Heap.fresh 0x1000 0x1040).NullIffFull 0x1040 Heap.ringLayout 0 ∧
      ¬ (FixedLengthAllocator.new 0x1000 : FixedLengthAllocator 0x40).PanicsIffFull
        Heap.ringLayout 0 := by
  have hfits : FitsBefore 0x1000 0x1040 Heap.ringLayout 0 :=
    ⟨0x1000, Nat.le_refl _, ⟨by decide, fun h => absurd h (Nat.lt_irrefl 0)⟩, by decide⟩
  refine ⟨?_, ?_⟩
  · rintro ⟨ptr, a, halloc, hnull⟩
    have hreturns : (Heap.fresh 0x1000 0x1040).alloc Heap.ringLayout 0 =
        .ok (0, Heap.fresh 0x1000 0x1040) := by decide
    rw [hreturns] at halloc
    cases halloc
    exact hnull.mp rfl hfits
  · intro h
    have hpanics : (FixedLengthAllocator.new 0x1000 : FixedLengthAllocator 0x40).alloc
        Heap.ringLayout 0 = .error (.message "[ALLOCATOR] Out of memory") := by decide
    exact h.mp ⟨_, hpanics⟩ hfits

end LemolaOs.Allocator
