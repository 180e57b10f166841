import LemolaOs.KernelLib.Exhaustion

/-!
# Arrays from a boundary allocator

`alloc_array_with_boundary` of `kernel-lib/src/allocator.rs` over any `BoundaryAlloc`.
The byte size is the product of the length and the element size, and it is formed before
`Layout::from_size_align` looks at it. A length that is out of all proportion is therefore
not turned down: the product overflows first.

`arrayOrErr_iff` says when a call on the bump allocator ends as its signature promises.
-/

namespace LemolaOs.Allocator

/-- The trait `BoundaryAlloc`. -/
class BoundaryAlloc (A : Type) where
  alloc : A → Layout → (boundary : Nat) → Rust (Nat × A)

instance : BoundaryAlloc BumpAllocator := ⟨BumpAllocator.alloc⟩

instance {size : Nat} : BoundaryAlloc (FixedLengthAllocator size) := ⟨FixedLengthAllocator.alloc⟩

/-- `Layout::from_size_align(size, align).ok()`. -/
def Layout.fromSizeAlign (size align : Nat) : Option Layout :=
  if h : align.isPowerOfTwo ∧ size + align ≤ 2 ^ 63 then some ⟨size, align, h.1, h.2⟩ else none

/-- A boxed slice: the address of its first element and how many there are. -/
structure BoxedSlice where
  ptr : Nat
  len : Nat
  deriving DecidableEq, Repr

section functions

variable {A : Type} [BoundaryAlloc A]

def allocWithBoundaryRaw (allocator : A) (layout : Layout) (boundary : Nat) : Rust (Nat × A) :=
  BoundaryAlloc.alloc allocator layout boundary

/-- `alloc_array_with_boundary::<T>` for a `T` of `sizeOf` bytes; `none` is
`Err(AllocationError {})`. -/
def allocArrayWithBoundary (allocator : A) (sizeOf len alignment boundary : Nat) :
    Rust (Option BoxedSlice × A) := do
  let size ← usizeMul len sizeOf
  match Layout.fromSizeAlign size alignment with
  | none => return (none, allocator)
  | some layout =>
    let (arrayPointer, allocator) ← allocWithBoundaryRaw allocator layout boundary
    if arrayPointer = 0 then
      return (none, allocator)
    return (some ⟨arrayPointer, len⟩, allocator)

end functions

/-- The bytes of the slice are in a block that lies in the heap `[lo, hi)` and that the call
which led from `a` to `a'` has reserved. -/
structure BoxedSlice.Reserved (slice : BoxedSlice) (sizeOf alignment lo hi : Nat)
    (a a' : BumpAllocator) : Prop where
  lo_le : lo ≤ slice.ptr
  end_le : slice.ptr + slice.len * sizeOf ≤ hi
  aligned : alignment ∣ slice.ptr
  after : a.next ≤ slice.ptr
  before : slice.ptr + slice.len * sizeOf ≤ a'.next

/-- The call returns `Err` or a slice of `len` elements in a block of its own, and it returns
`Err` if the byte size exceeds `usize::MAX`. -/
def ArrayOrErr (a : BumpAllocator) (lo hi sizeOf len alignment boundary : Nat) : Prop :=
  ∃ answer a', allocArrayWithBoundary a sizeOf len alignment boundary = .ok (answer, a') ∧
    (∀ slice, answer = some slice →
      slice.len = len ∧ slice.Reserved sizeOf alignment lo hi a a') ∧
    (usizeSize ≤ len * sizeOf → answer = none)

section bump

variable {a : BumpAllocator} {sizeOf len alignment boundary : Nat}

theorem Layout.fromSizeAlign_eq_some {size align : Nat} {layout : Layout} :
    Layout.fromSizeAlign size align = some layout ↔ layout.size = size ∧ layout.align = align := by
  unfold fromSizeAlign
  obtain ⟨size', align', hpow, hle⟩ := layout
  constructor
  · intro h
    split at h
    · cases h
      exact ⟨rfl, rfl⟩
    · cases h
  · rintro ⟨rfl, rfl⟩
    rw [dif_pos ⟨hpow, hle⟩]

/-- What the call does with a byte size that is a `usize`. -/
theorem allocArrayWithBoundary_eq (hsize : len * sizeOf < usizeSize) :
    allocArrayWithBoundary a sizeOf len alignment boundary =
      match Layout.fromSizeAlign (len * sizeOf) alignment with
      | none => .ok (none, a)
      | some layout => do
        let (arrayPointer, a) ← a.alloc layout boundary
        if arrayPointer = 0 then return (none, a)
        return (some ⟨arrayPointer, len⟩, a) := by
  have hmul : usizeMul len sizeOf = .ok (len * sizeOf) := usizeMul_eq_ok.mpr ⟨hsize, rfl⟩
  rw [allocArrayWithBoundary, hmul, Rust.ok_bind]
  rfl

/-- A byte size above `usize::MAX` panics. -/
theorem not_arrayOrErr_of_overflow {lo hi : Nat} (hsize : usizeSize ≤ len * sizeOf) :
    ¬ ArrayOrErr a lo hi sizeOf len alignment boundary := by
  rintro ⟨answer, a', hcall, _⟩
  simp only [allocArrayWithBoundary, Rust.bind_eq_ok, usizeMul_eq_ok] at hcall
  obtain ⟨_, ⟨hlt, _⟩, _⟩ := hcall
  omega

/-- The block that `alloc` hands out without an overflow is the slice. -/
theorem reserved_of_alloc {layout : Layout} {lo : Nat} {ptr : Nat} {a' : BumpAllocator}
    (hsize : layout.size = len * sizeOf) (hlo : lo ≤ a.next)
    (halloc : a.alloc layout boundary = .ok (ptr, a')) (hptr : ptr ≠ 0) :
    BoxedSlice.Reserved ⟨ptr, len⟩ sizeOf layout.align lo a.heapEnd a a' := by
  obtain ⟨rfl, _⟩ | ⟨r, hr, hroom, rfl, rfl⟩ := BumpAllocator.alloc_cases halloc
  · exact absurd rfl hptr
  · obtain ⟨hfrom, hstop, halign, _⟩ := alignAndBoundaryTo_spec hr
    refine ⟨by dsimp only; omega, by dsimp only; omega, halign, hfrom, ?_⟩
    dsimp only
    omega

end bump

/-- In every state that calls on an initialised bump allocator lead to, an array request ends
as promised if and only if its byte size is a `usize` and, where that is a valid layout, the
allocator's own sums do not overflow. -/
theorem arrayOrErr_iff (heapStart heapEnd : Nat) (hend : heapEnd < usizeSize) (s : Heap)
    (hs : (Heap.system heapStart heapEnd).Reachable s) (sizeOf len alignment boundary : Nat)
    (hboundary : boundary = 0 ∨
      boundary.isPowerOfTwo ∧ len * sizeOf ≤ boundary ∧ boundary < usizeSize) :
    ArrayOrErr s.allocator heapStart heapEnd sizeOf len alignment boundary ↔
      len * sizeOf < usizeSize ∧
        ∀ layout : Layout, layout.size = len * sizeOf → layout.align = alignment →
          s.allocator.NoOverflow layout boundary := by
  have bounded := Heap.Bounded.of_reachable hs
  obtain rfl := bounded.heapEnd
  have hvalid : ∀ layout : Layout, layout.size = len * sizeOf → ValidBoundary layout boundary := by
    intro layout hsize
    rw [ValidBoundary, hsize]
    exact hboundary
  constructor
  · intro h
    have hword : len * sizeOf < usizeSize :=
      Nat.lt_of_not_le fun hle => not_arrayOrErr_of_overflow hle h
    refine ⟨hword, ?_⟩
    intro layout hsize halign
    obtain ⟨answer, a', hcall, _⟩ := h
    rw [allocArrayWithBoundary_eq hword,
      Layout.fromSizeAlign_eq_some.mpr ⟨hsize, halign⟩] at hcall
    obtain ⟨r, halloc, _⟩ := Rust.bind_eq_ok.mp hcall
    exact BumpAllocator.noOverflow_of_eq_ok (hvalid layout hsize) hend halloc
  · rintro ⟨hword, hno⟩
    rw [ArrayOrErr, allocArrayWithBoundary_eq hword]
    cases hlayout : Layout.fromSizeAlign (len * sizeOf) alignment with
    | none => exact ⟨none, s.allocator, rfl, by simp, fun _ => rfl⟩
    | some layout =>
        obtain ⟨hsize, rfl⟩ := Layout.fromSizeAlign_eq_some.mp hlayout
        obtain ⟨⟨ptr, a'⟩, halloc⟩ : ∃ answer, s.allocator.alloc layout boundary = .ok answer :=
          ⟨_, BumpAllocator.alloc_eq (hvalid layout hsize) hend (hno layout hsize rfl)⟩
        simp only [halloc, Rust.ok_bind]
        by_cases hptr : ptr = 0
        · rw [if_pos hptr]
          exact ⟨none, a', rfl, by simp, fun _ => rfl⟩
        · rw [if_neg hptr]
          refine ⟨some ⟨ptr, len⟩, a', rfl, ?_, fun hle => absurd hword (by omega)⟩
          rintro slice ⟨rfl⟩
          exact ⟨rfl, reserved_of_alloc hsize bounded.lo_le_next halloc hptr⟩

/-- A ring of 16 TRBs of 16 bytes each. -/
theorem arrayOrErr_iff_ring :
    ArrayOrErr (Heap.fresh 0x1010 0x2000) 0x1010 0x2000 16 16 64 0x1000 := by
  refine (arrayOrErr_iff 0x1010 0x2000 (by decide) ⟨_, []⟩ (.init rfl) 16 16 64 0x1000
    (.inr ⟨⟨12, rfl⟩, by decide, by decide⟩)).mpr ⟨by decide, ?_⟩
  intro layout _ halign
  refine ⟨⟨?_, ?_⟩, fun _ => by decide⟩
  · rw [halign]
    decide
  · rw [halign]
    decide

/-- Two to the power of 61 elements of 8 bytes are not an error but a panic. -/
theorem huge_array_not_err :
    ¬ ArrayOrErr (Heap.fresh 0x1010 0x2000) 0x1010 0x2000 8 (2 ^ 61) 64 0 :=
  not_arrayOrErr_of_overflow (by decide)

end LemolaOs.Allocator
