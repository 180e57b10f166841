import LemolaOs.KernelLib.Allocator
import LemolaOs.Library.Transition

/-!
# The bump allocator over whole runs

`BumpAllocator` of `kernel-lib/src/allocator/bump_allocator.rs`. Memory is
recycled only when the allocation counter returns to zero, so the safety of every
block rests on that counter staying in step with the blocks the callers hold.

`Heap` pairs the allocator with those blocks. Its steps are an `alloc` call with
any layout and valid boundary, and a `dealloc` of a block that is live; a call
that panics ends the run. `Heap.Inv` is the invariant: live blocks are stacked
below `next` in the order in which they were handed out.
-/

namespace LemolaOs.Allocator

/-- The allocator state behind the mutex. -/
structure BumpAllocator where
  heapStart : Nat
  heapEnd : Nat
  next : Nat
  nAllocations : Nat
  deriving DecidableEq, Repr

namespace BumpAllocator

def new : BumpAllocator := ⟨0, 0, 0, 0⟩

/-- `init` leaves `n_allocations` as it is. -/
def init (a : BumpAllocator) (heapStart heapEnd : Nat) : BumpAllocator :=
  { a with heapStart := heapStart, heapEnd := heapEnd, next := heapStart }

/-- `BoundaryAlloc::alloc`. The null pointer is `0`. -/
def alloc (a : BumpAllocator) (layout : Layout) (boundary : Nat) : Rust (Nat × BumpAllocator) := do
  match ← alignAndBoundaryTo a.next layout boundary with
  | none => return (0, a)
  | some allocStart =>
    if allocStart.stop ≥ a.heapEnd then
      return (0, a)
    let nAllocations ← usizeAdd a.nAllocations 1
    return (allocStart.start, { a with next := allocStart.stop, nAllocations := nAllocations })

/-- `BoundaryAlloc::dealloc` ignores the pointer and the layout. -/
def dealloc (a : BumpAllocator) (_ptr : Nat) (_layout : Layout) : Rust BumpAllocator := do
  let nAllocations ← usizeSub a.nAllocations 1
  if nAllocations = 0 then
    return { a with nAllocations := nAllocations, next := a.heapStart }
  return { a with nAllocations := nAllocations }

/-- The two ways in which `alloc` returns: a null pointer with the allocator as it
was, or the range of `align_and_boundary_to` when it ends before `heap_end`. -/
theorem alloc_cases {a a' : BumpAllocator} {layout : Layout} {boundary ptr : Nat}
    (h : a.alloc layout boundary = .ok (ptr, a')) :
    (ptr = 0 ∧ a' = a) ∨
      ∃ r, alignAndBoundaryTo a.next layout boundary = .ok (some r) ∧ r.stop < a.heapEnd ∧
        ptr = r.start ∧
        a' = { a with next := r.stop, nAllocations := a.nAllocations + 1 } := by
  simp only [alloc, Rust.bind_eq_ok] at h
  obtain ⟨found, hfound, h⟩ := h
  cases found with
  | none =>
      simp only [pure, Except.pure, Except.ok.injEq, Prod.mk.injEq] at h
      exact .inl ⟨h.1.symm, h.2.symm⟩
  | some r =>
      dsimp only at h
      split at h
      · simp only [pure, Except.pure, Except.ok.injEq, Prod.mk.injEq] at h
        exact .inl ⟨h.1.symm, h.2.symm⟩
      · rename_i hfit
        simp only [Rust.bind_eq_ok, usizeAdd_eq_ok, pure, Except.pure, Except.ok.injEq,
          Prod.mk.injEq] at h
        obtain ⟨_, ⟨_, rfl⟩, rfl, rfl⟩ := h
        exact .inr ⟨r, hfound, Nat.lt_of_not_ge hfit, rfl, rfl⟩

/-- `dealloc` returns exactly when the counter is positive, and it resets `next`
when the counter reaches zero. -/
theorem dealloc_eq_ok {a a' : BumpAllocator} {ptr : Nat} {layout : Layout} :
    a.dealloc ptr layout = .ok a' ↔
      0 < a.nAllocations ∧
        a' = { a with nAllocations := a.nAllocations - 1,
                      next := if a.nAllocations = 1 then a.heapStart else a.next } := by
  simp only [dealloc, Rust.bind_eq_ok, usizeSub_eq_ok]
  constructor
  · rintro ⟨_, ⟨hpos, rfl⟩, h⟩
    refine ⟨hpos, ?_⟩
    split at h
    · rename_i hzero
      simp only [pure, Except.pure, Except.ok.injEq] at h
      rw [← h, if_pos (by omega)]
    · rename_i hzero
      simp only [pure, Except.pure, Except.ok.injEq] at h
      rw [← h, if_neg (by omega)]
  · rintro ⟨hpos, rfl⟩
    refine ⟨_, ⟨hpos, rfl⟩, ?_⟩
    by_cases hone : a.nAllocations = 1
    · simp [hone, pure, Except.pure]
    · have hne : a.nAllocations - 1 ≠ 0 := by omega
      simp [hone, hne, pure, Except.pure]

end BumpAllocator

/-- A block handed out by the allocator, with the request it answers. -/
structure Block where
  ptr : Nat
  layout : Layout
  boundary : Nat
  deriving DecidableEq

/-- One past the last byte of the block. -/
def Block.stop (b : Block) : Nat := b.ptr + b.layout.size

/-- The block is where its request asked for, inside `[lo, hi)`. -/
structure Block.Placed (b : Block) (lo hi : Nat) : Prop where
  lo_le : lo ≤ b.ptr
  lt_hi : b.ptr < hi
  stop_le : b.stop ≤ hi
  aligned : b.layout.align ∣ b.ptr
  within : 0 < b.boundary → ¬ Crosses b.boundary b.ptr b.stop

/-- The allocator and the blocks currently live, newest first. -/
structure Heap where
  allocator : BumpAllocator
  live : List Block

namespace Heap

/-- The allocator right after `new` and `init`. -/
def fresh (heapStart heapEnd : Nat) : BumpAllocator := BumpAllocator.new.init heapStart heapEnd

inductive Op where
  | alloc (layout : Layout) (boundary : Nat)
  | dealloc (block : Block)

/-- A caller that receives a null pointer holds no new block. -/
def hold (s : Heap) (a : BumpAllocator) (b : Block) : Heap :=
  ⟨a, if b.ptr = 0 then s.live else b :: s.live⟩

theorem hold_of_ne_zero (s : Heap) (a : BumpAllocator) {b : Block} (h : b.ptr ≠ 0) :
    s.hold a b = ⟨a, b :: s.live⟩ := by
  simp only [hold, if_neg h]

inductive Step : Heap → Op → Heap → Prop where
  | alloc {s : Heap} {layout : Layout} {boundary ptr : Nat} {a : BumpAllocator}
      (valid : ValidBoundary layout boundary)
      (h : s.allocator.alloc layout boundary = .ok (ptr, a)) :
      Step s (.alloc layout boundary) (s.hold a ⟨ptr, layout, boundary⟩)
  | dealloc {s : Heap} {b : Block} {a : BumpAllocator} (live : b ∈ s.live)
      (h : s.allocator.dealloc b.ptr b.layout = .ok a) :
      Step s (.dealloc b) ⟨a, s.live.erase b⟩

/-- Every history of calls on one initialised allocator. -/
def system (heapStart heapEnd : Nat) : System Heap Op where
  init s := s = ⟨fresh heapStart heapEnd, []⟩
  step := Step

/-- The counter counts the live blocks, the live blocks are stacked below `next`,
and `next` is back at the start when there are none. -/
structure Inv (lo hi : Nat) (s : Heap) : Prop where
  heapStart : s.allocator.heapStart = lo
  heapEnd : s.allocator.heapEnd = hi
  lo_le_next : lo ≤ s.allocator.next
  count : s.allocator.nAllocations = s.live.length
  placed : ∀ b ∈ s.live, b.Placed lo hi
  below : ∀ b ∈ s.live, b.stop ≤ s.allocator.next
  stacked : s.live.Pairwise fun newer older => older.stop ≤ newer.ptr
  reset : s.live = [] → s.allocator.next = lo

theorem Inv.init (lo hi : Nat) : Inv lo hi ⟨fresh lo hi, []⟩ where
  heapStart := rfl
  heapEnd := rfl
  lo_le_next := Nat.le_refl _
  count := rfl
  placed := by simp
  below := by simp
  stacked := .nil
  reset _ := rfl

theorem Inv.alloc {lo hi : Nat} {s : Heap} {layout : Layout} {boundary ptr : Nat}
    {a : BumpAllocator} (hlo : 0 < lo) (inv : Inv lo hi s)
    (h : s.allocator.alloc layout boundary = .ok (ptr, a)) :
    Inv lo hi (s.hold a ⟨ptr, layout, boundary⟩) := by
  obtain ⟨rfl, rfl⟩ | ⟨r, hr, hstop, rfl, rfl⟩ := BumpAllocator.alloc_cases h
  · simpa [hold] using inv
  · obtain ⟨hfrom, hend, halign, hcross⟩ := alignAndBoundaryTo_spec hr
    have hnext := inv.lo_le_next
    have hptr : r.start ≠ 0 := by omega
    rw [hold_of_ne_zero s _ hptr]
    -- the new block starts at or above the old `next`, hence above every live block
    have hnew : Block.Placed ⟨r.start, layout, boundary⟩ lo hi := by
      refine ⟨by dsimp only; omega, ?_, ?_, halign, ?_⟩
      · rw [inv.heapEnd] at hstop
        dsimp only
        omega
      · rw [inv.heapEnd] at hstop
        simp only [Block.stop]
        omega
      · intro hpos
        simpa only [Block.stop, ← hend] using hcross hpos
    refine ⟨inv.heapStart, inv.heapEnd, by dsimp only; omega, ?_, ?_, ?_, ?_, by simp⟩
    · simp [inv.count]
    · intro b hb
      rcases List.mem_cons.mp hb with rfl | hb
      · exact hnew
      · exact inv.placed b hb
    · intro b hb
      rcases List.mem_cons.mp hb with rfl | hb
      · simp only [Block.stop]
        omega
      · have := inv.below b hb
        dsimp only
        omega
    · refine List.pairwise_cons.mpr ⟨?_, inv.stacked⟩
      intro b hb
      have := inv.below b hb
      dsimp only
      omega

theorem Inv.dealloc {lo hi : Nat} {s : Heap} {b : Block} {a : BumpAllocator}
    (inv : Inv lo hi s) (live : b ∈ s.live)
    (h : s.allocator.dealloc b.ptr b.layout = .ok a) :
    Inv lo hi ⟨a, s.live.erase b⟩ := by
  obtain ⟨hpos, rfl⟩ := BumpAllocator.dealloc_eq_ok.mp h
  have hcount := inv.count
  have hstart := inv.heapStart
  have hnext := inv.lo_le_next
  have hlen : (s.live.erase b).length = s.live.length - 1 := List.length_erase_of_mem live
  refine ⟨inv.heapStart, inv.heapEnd, ?_, ?_, ?_, ?_, ?_, ?_⟩
  · dsimp only
    split <;> omega
  · dsimp only
    omega
  · intro c hc
    exact inv.placed c (List.mem_of_mem_erase hc)
  · intro c hc
    have hne : 0 < (s.live.erase b).length := List.length_pos_of_mem hc
    have := inv.below c (List.mem_of_mem_erase hc)
    dsimp only
    rw [if_neg (by omega)]
    exact this
  · exact inv.stacked.sublist List.erase_sublist
  · intro hnil
    dsimp only at hnil ⊢
    rw [hnil, List.length_nil] at hlen
    rw [if_pos (by have := List.length_pos_of_mem live; omega)]
    exact hstart

theorem Inv.of_reachable {lo hi : Nat} (hlo : 0 < lo) {s : Heap}
    (hs : (system lo hi).Reachable s) : Inv lo hi s := by
  refine hs.invariant ?_ ?_
  · rintro s rfl
    exact Inv.init lo hi
  · intro s op t _ inv h
    cases h with
    | alloc _ h => exact inv.alloc hlo h
    | dealloc live h => exact inv.dealloc live h

/-- With no live block the whole allocator state is the one right after `init`. -/
theorem Inv.eq_fresh {lo hi : Nat} {s : Heap} (inv : Inv lo hi s) (h : s.live = []) :
    s.allocator = fresh lo hi := by
  have hcount := inv.count
  have hnext := inv.reset h
  have hstart := inv.heapStart
  have hend := inv.heapEnd
  obtain ⟨⟨a, b, c, d⟩, live⟩ := s
  subst h
  simp_all [fresh, BumpAllocator.new, BumpAllocator.init]

/-- What the callers rely on at a point of a run. -/
structure Safe (heapStart heapEnd : Nat) (s : Heap) : Prop where
  /-- The counter is the number of live blocks. -/
  count : s.allocator.nAllocations = s.live.length
  /-- Giving a live block back does not underflow the counter. -/
  noUnderflow : ∀ b ∈ s.live, ∃ a, s.allocator.dealloc b.ptr b.layout = .ok a
  placed : ∀ b ∈ s.live, b.Placed heapStart heapEnd
  disjoint : s.live.Pairwise fun b c => b.stop ≤ c.ptr ∨ c.stop ≤ b.ptr
  nullUnchanged : ∀ layout boundary a, ValidBoundary layout boundary →
    s.allocator.alloc layout boundary = .ok (0, a) →
      a.next = s.allocator.next ∧ a.nAllocations = s.allocator.nAllocations
  emptyFresh : s.live = [] → s.allocator = fresh heapStart heapEnd

/-- Every point of every run is safe: the counter stays in step with the live
blocks, these are inside the heap, aligned, inside one boundary window and
pairwise disjoint, and an allocator with no live block is as after `init`. -/
theorem reachable_safe (heapStart heapEnd : Nat) (hstart : 0 < heapStart)
    (_hle : heapStart ≤ heapEnd) (_hend : heapEnd < 2 ^ 63) (s : Heap)
    (hs : (system heapStart heapEnd).Reachable s) : s.Safe heapStart heapEnd := by
  have inv := Inv.of_reachable hstart hs
  refine ⟨inv.count, ?_, inv.placed, inv.stacked.imp fun h => .inr h, ?_, inv.eq_fresh⟩
  · intro b hb
    have hpos := List.length_pos_of_mem hb
    exact ⟨_, BumpAllocator.dealloc_eq_ok.mpr ⟨by rw [inv.count]; exact hpos, rfl⟩⟩
  · intro layout boundary a _ h
    obtain ⟨_, rfl⟩ | ⟨r, hr, _, hptr, _⟩ := BumpAllocator.alloc_cases h
    · exact ⟨rfl, rfl⟩
    · -- a successful range starts at or above `heap_start`, so it is never null
      have hfrom := (alignAndBoundaryTo_spec hr).1
      have hnext := inv.lo_le_next
      omega

/-- A 64-byte block at 64-byte alignment, as the rings of the controller ask for. -/
def ringLayout : Layout := ⟨64, 64, ⟨6, rfl⟩, by decide⟩

theorem reachable_safe_ringLayout :
    (⟨⟨0x1010, 0x2000, 0x1080, 1⟩, [⟨0x1040, ringLayout, 0x400⟩]⟩ : Heap).Safe 0x1010 0x2000 := by
  have halloc : Step ⟨fresh 0x1010 0x2000, []⟩ (.alloc ringLayout 0x400)
      ⟨⟨0x1010, 0x2000, 0x1080, 1⟩, [⟨0x1040, ringLayout, 0x400⟩]⟩ :=
    @Step.alloc _ _ _ 0x1040 _ (.inr ⟨⟨10, rfl⟩, by decide, by decide⟩) (by rfl)
  exact reachable_safe 0x1010 0x2000 (by decide) (by decide) (by decide) _
    (.step (.init rfl) halloc)

end Heap

end LemolaOs.Allocator
