import LemolaOs.KernelLib.BumpAllocator
import LemolaOs.KernelLib.Placement

/-!
# The fixed-length allocator, beside the bump allocator

`FixedLengthAllocator<SIZE>` of `kernel-lib/src/allocator/fixed_length_allocator.rs`
keeps its heap inside itself and counts offsets from the start of that array; a
request it cannot serve is a panic. The bump allocator keeps an absolute pointer
and answers a null pointer instead.

`Paired` relates the two when they manage the same addresses. `Agrees` runs one
list of requests through both and compares every answer; `agrees_iff` says for
which lists they agree from the first request on.
-/

namespace LemolaOs.Allocator

/-- `FixedLengthAllocatorInner<SIZE>`. The array itself is only taken the address
of, so `heap` is that address. -/
structure FixedLengthAllocator (size : Nat) where
  heap : Nat
  /-- Index of the next available byte. -/
  next : Nat
  deriving DecidableEq, Repr

namespace FixedLengthAllocator

variable {size : Nat}

/-- `new`, placed at `heap`. -/
def new (heap : Nat) : FixedLengthAllocator size := ⟨heap, 0⟩

/-- The end of the heap, which is not included in the heap. -/
def heapEnd (a : FixedLengthAllocator size) : Rust Nat := usizeAdd a.heap size

def heapRange (a : FixedLengthAllocator size) : Rust Range := do
  return ⟨a.heap, ← a.heapEnd⟩

/-- `BoundaryAlloc::alloc`. Nothing is assigned before any of its panics. -/
def alloc (a : FixedLengthAllocator size) (layout : Layout) (boundary : Nat) :
    Rust (Nat × FixedLengthAllocator size) := do
  debugAssert (boundary == 0 || decide boundary.isPowerOfTwo)
  let start := a.next
  let currentPtr := a.heap + start
  match ← alignAndBoundaryTo currentPtr layout boundary with
  | none => throw (.message "[ALLOCATOR] Failed to allocate")
  | some allocRange =>
    if allocRange.stop ≥ (← a.heapEnd) then
      throw (.message "[ALLOCATOR] Out of memory")
    else
      let next ← usizeSub allocRange.stop (← a.heapRange).start
      return (allocRange.start, { a with next := next })

/-- `BoundaryAlloc::dealloc` does nothing. -/
def dealloc (a : FixedLengthAllocator size) (_ptr : Nat) (_layout : Layout) :
    FixedLengthAllocator size := a

end FixedLengthAllocator

/-- The arguments of one `alloc` call. -/
structure Request where
  layout : Layout
  boundary : Nat
  deriving DecidableEq

/-- Run the requests through both allocators and compare the answers: a null
pointer on one side is a panic on the other, and an address is the same address.
A panic of the fixed-length allocator leaves it as it was, so the comparison goes
on; it ends where the bump allocator itself panics and the other does not. -/
def Agrees {size : Nat} (f : FixedLengthAllocator size) (b : BumpAllocator) :
    List Request → Prop
  | [] => True
  | r :: rest =>
    match b.alloc r.layout r.boundary, f.alloc r.layout r.boundary with
    | .ok (ptr, b'), .ok (addr, f') => ptr ≠ 0 ∧ addr = ptr ∧ Agrees f' b' rest
    | .ok (ptr, b'), .error _ => ptr = 0 ∧ Agrees f b' rest
    | .error _, .ok _ => True
    | .error _, .error _ => False

/-- What one call must meet at the first free address `next`: the contract on the
boundary and, when that is at least as coarse as the alignment, room below `2 ^ 64`
for rounding up to it. -/
structure Request.Fits (r : Request) (next : Nat) : Prop where
  valid : ValidBoundary r.layout r.boundary
  room : r.layout.align ≤ r.boundary → next + r.layout.align + r.boundary ≤ usizeSize

/-- Every call of the list fits in the state in which it is made. -/
def CallsFit (b : BumpAllocator) : List Request → Prop
  | [] => True
  | r :: rest =>
    r.Fits b.next ∧
      match b.alloc r.layout r.boundary with
      | .ok (_, b') => CallsFit b' rest
      | .error _ => True

/-- Below `2 ^ 63` a call fits exactly when the address rule returns. -/
theorem Request.fits_iff {r : Request} {next : Nat} (hnext : next < 2 ^ 63) :
    r.Fits next ↔ ∃ found, alignAndBoundaryTo next r.layout r.boundary = .ok found := by
  have hsum : next + r.layout.align < usizeSize := by
    have := r.layout.size_le
    simp only [usizeSize]
    omega
  constructor
  · intro h
    exact ⟨_, alignAndBoundaryTo_eq h.valid ((staysInWord_iff h.valid).mpr ⟨hsum, h.room⟩)⟩
  · rintro ⟨found, hfound⟩
    obtain ⟨hboundary, hword⟩ := staysInWord_of_eq_ok hfound
    have hvalid : ValidBoundary r.layout r.boundary := by
      refine hboundary.imp_right fun h => ⟨h.1, h.2, ?_⟩
      have := hword.boundary (Nat.pos_of_isPowerOfTwo h.1)
      omega
    exact ⟨hvalid, ((staysInWord_iff hvalid).mp hword).2⟩

/-- The two allocators manage the same addresses and have handed out the same. -/
structure Paired {size : Nat} (f : FixedLengthAllocator size) (b : BumpAllocator) : Prop where
  heapEnd : b.heapEnd = f.heap + size
  next : b.next = f.heap + f.next
  heap_pos : 0 < f.heap
  end_lt : f.heap + size < 2 ^ 63
  next_le : f.next ≤ size

section answers

variable {size : Nat} {f : FixedLengthAllocator size} {b : BumpAllocator} {layout : Layout}
  {boundary : Nat}

theorem Paired.next_lt (h : Paired f b) : b.next < 2 ^ 63 := by
  have h1 := h.next
  have h2 := h.end_lt
  have h3 := h.next_le
  omega

/-- A panic of the address rule is a panic of both. -/
theorem Paired.alloc_of_error (h : Paired f b) {e : Panic}
    (hplace : alignAndBoundaryTo b.next layout boundary = .error e) :
    b.alloc layout boundary = .error e ∧ ∃ e', f.alloc layout boundary = .error e' := by
  refine ⟨by simp only [BumpAllocator.alloc, hplace]; rfl, ?_⟩
  rw [h.next] at hplace
  by_cases hassert : (boundary == 0 || decide boundary.isPowerOfTwo) = true
  · refine ⟨e, ?_⟩
    simp only [FixedLengthAllocator.alloc, debugAssert, hassert, if_true, Rust.ok_bind, hplace]
    rfl
  · refine ⟨.assertion, ?_⟩
    simp only [FixedLengthAllocator.alloc, debugAssert, hassert]
    rfl

/-- The assertion in front of the fixed-length allocator's call asks for no more
than the address rule does. -/
theorem FixedLengthAllocator.alloc_of_ok {found : Option Range}
    (hplace : alignAndBoundaryTo (f.heap + f.next) layout boundary = .ok found) :
    f.alloc layout boundary =
      match found with
      | none => .error (.message "[ALLOCATOR] Failed to allocate")
      | some r => do
        if r.stop ≥ (← f.heapEnd) then
          throw (.message "[ALLOCATOR] Out of memory")
        else
          let next ← usizeSub r.stop (← f.heapRange).start
          return (r.start, { f with next := next }) := by
  have hboundary : boundary = 0 ∨ boundary.isPowerOfTwo :=
    (staysInWord_of_eq_ok hplace).1.imp_right And.left
  have hassert : debugAssert (boundary == 0 || decide boundary.isPowerOfTwo) = .ok () :=
    debugAssert_eq_ok.mpr (by simpa using hboundary)
  simp only [FixedLengthAllocator.alloc, hassert, Rust.ok_bind, hplace]
  cases found with
  | none => rfl
  | some r => rfl

/-- Where no block is found, or it does not end before the heap does, the bump
allocator answers null and the other panics. -/
theorem Paired.alloc_of_none (h : Paired f b) {found : Option Range}
    (hplace : alignAndBoundaryTo b.next layout boundary = .ok found)
    (hfull : ∀ r, found = some r → b.heapEnd ≤ r.stop) :
    b.alloc layout boundary = .ok (0, b) ∧ ∃ e, f.alloc layout boundary = .error e := by
  have hend : f.heapEnd = .ok (f.heap + size) := by
    have := h.end_lt
    exact usizeAdd_eq_ok.mpr ⟨by simp only [usizeSize]; omega, rfl⟩
  have hfixed := FixedLengthAllocator.alloc_of_ok (h.next ▸ hplace)
  simp only [BumpAllocator.alloc, hplace, Rust.ok_bind]
  cases found with
  | none => exact ⟨rfl, _, hfixed⟩
  | some r =>
      have hstop := hfull r rfl
      refine ⟨if_pos hstop, .message "[ALLOCATOR] Out of memory", ?_⟩
      rw [hfixed]
      simp only [hend, Rust.ok_bind]
      rw [if_pos (h.heapEnd ▸ hstop)]
      rfl

/-- Where a block is found both hand out its start, unless the bump allocator's
counter is full, and they are paired again. -/
theorem Paired.alloc_of_some (h : Paired f b) {r : Range}
    (hplace : alignAndBoundaryTo b.next layout boundary = .ok (some r))
    (hroom : r.stop < b.heapEnd) :
    ∃ f', f.alloc layout boundary = .ok (r.start, f') ∧ r.start ≠ 0 ∧
      ((∃ e, b.alloc layout boundary = .error e) ∨
        ∃ b', b.alloc layout boundary = .ok (r.start, b') ∧ Paired f' b') := by
  obtain ⟨hfrom, hstop, _⟩ := alignAndBoundaryTo_spec hplace
  have hheapEnd := h.heapEnd
  have hnext := h.next
  have hpos := h.heap_pos
  have hend : f.heapEnd = .ok (f.heap + size) := by
    have := h.end_lt
    exact usizeAdd_eq_ok.mpr ⟨by simp only [usizeSize]; omega, rfl⟩
  have hsub : usizeSub r.stop f.heap = .ok (r.stop - f.heap) :=
    usizeSub_eq_ok.mpr ⟨by omega, rfl⟩
  refine ⟨⟨f.heap, r.stop - f.heap⟩, ?_, by omega, ?_⟩
  · rw [FixedLengthAllocator.alloc_of_ok (h.next ▸ hplace)]
    simp only [FixedLengthAllocator.heapRange, hend, Rust.ok_bind]
    rw [if_neg (by omega)]
    simp only [pure, Except.pure, Rust.ok_bind, hsub]
  · simp only [BumpAllocator.alloc, hplace, Rust.ok_bind]
    rw [if_neg (Nat.not_le.mpr hroom)]
    cases hcount : usizeAdd b.nAllocations 1 with
    | error e => exact .inl ⟨e, rfl⟩
    | ok n =>
        refine .inr ⟨_, rfl, h.heapEnd, ?_, h.heap_pos, h.end_lt, ?_⟩
        · dsimp only
          omega
        · dsimp only
          omega

end answers

/-- Paired allocators agree on a list exactly when every call of it fits. -/
theorem Paired.agrees_iff {size : Nat} {f : FixedLengthAllocator size} {b : BumpAllocator}
    (h : Paired f b) (requests : List Request) : Agrees f b requests ↔ CallsFit b requests := by
  induction requests generalizing f b with
  | nil => exact Iff.rfl
  | cons r rest ih =>
      simp only [Agrees, CallsFit, Request.fits_iff h.next_lt]
      cases hplace : alignAndBoundaryTo b.next r.layout r.boundary with
      | error e =>
          obtain ⟨hbump, e', hfixed⟩ := h.alloc_of_error hplace
          simp [hbump, hfixed]
      | ok found =>
          by_cases hfull : ∀ r, found = some r → b.heapEnd ≤ r.stop
          · obtain ⟨hbump, e, hfixed⟩ := h.alloc_of_none hplace hfull
            simp [hbump, hfixed, ih h]
          · push Not at hfull
            obtain ⟨range, rfl, hroom⟩ := hfull
            obtain ⟨f', hfixed, hne, hcases⟩ := h.alloc_of_some hplace hroom
            rcases hcases with ⟨e, hbump⟩ | ⟨b', hbump, hpaired⟩
            · simp [hbump, hfixed]
            · simp [hbump, hfixed, hne, ih hpaired]

/-- Over every finite list of requests, a fixed-length allocator whose array is at
`base` and a bump allocator initialised with the same addresses agree, call by
call and past every request that neither can serve, exactly when every call keeps
the contract on its boundary and leaves the rounding to that boundary in range. -/
theorem agrees_iff_callsFit (base size : Nat) (hbase : 0 < base) (hend : base + size < 2 ^ 63)
    (requests : List Request) :
    Agrees (FixedLengthAllocator.new base : FixedLengthAllocator size)
        (BumpAllocator.new.init base (base + size)) requests ↔
      CallsFit (BumpAllocator.new.init base (base + size)) requests :=
  Paired.agrees_iff ⟨rfl, rfl, hbase, hend, Nat.zero_le _⟩ requests

theorem agrees_iff_callsFit_rings :
    Agrees (FixedLengthAllocator.new 0x1010 : FixedLengthAllocator 0x1000)
        (BumpAllocator.new.init 0x1010 0x2010) [⟨Heap.ringLayout, 0x400⟩, ⟨pageLayout, 0⟩] ↔
      CallsFit (BumpAllocator.new.init 0x1010 0x2010) [⟨Heap.ringLayout, 0x400⟩, ⟨pageLayout, 0⟩] :=
  agrees_iff_callsFit 0x1010 0x1000 (by decide) (by decide) _

/-- An empty block at the coarsest alignment. -/
def halfWordLayout : Layout := ⟨0, 2 ^ 63, ⟨63, rfl⟩, by decide⟩

/-- Rounding to the coarsest alignment and then to the coarsest boundary overflows
the word, so the bump allocator panics where it owes a null pointer. -/
theorem not_agrees_halfWordLayout :
    ¬ Agrees (FixedLengthAllocator.new 0x1000 : FixedLengthAllocator 0x1000)
        (BumpAllocator.new.init 0x1000 0x2000) [⟨halfWordLayout, 2 ^ 63⟩] := by
  have hbump : (BumpAllocator.new.init 0x1000 0x2000).alloc halfWordLayout (2 ^ 63) =
      .error .overflow := by decide
  have hfixed : (FixedLengthAllocator.new 0x1000 : FixedLengthAllocator 0x1000).alloc
      halfWordLayout (2 ^ 63) = .error .overflow := by decide
  simp only [Agrees, hbump, hfixed, not_false_eq_true]

end LemolaOs.Allocator
