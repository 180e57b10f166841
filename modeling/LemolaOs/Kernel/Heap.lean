import LemolaOs.Bootloader.MemoryMap
import LemolaOs.KernelLib.BumpAllocator
import LemolaOs.Library.LastMax

/-!
# The heap of the kernel

`kernel_main2` of `kernel/src/main.rs`, from the memory map to the call of `init_allocator`. The
heap is one of the regions that the firmware no longer needs: the largest, and of several that are
as large the last. The allocator gets that region. What comes on the heap first is the vector into
which the map is collected next; it grows as the standard library sees fit, and its blocks are
blocks like all others.

The iterator is the one behind the header that the bootloader has written. Of a descriptor the
kernel reads its type, its start and its pages, and the rest of it stays a parameter.

`kernelMain2_eq_ok_iff` says when the kernel gets there and with what allocator. From then on every
history of calls is a run of `Heap.Step`, and `Sound` is what such a run keeps, wherever the region
starts: at address 0 the first block is the null pointer, which nobody holds, and the counter stays
ahead of the blocks.
-/

namespace LemolaOs.Kernel

open Common Allocator Bootloader

/-- The types of `uefi_raw` that the kernel names, and all others. -/
inductive MemoryType where
  | conventional
  | bootServicesCode
  | bootServicesData
  | other
  deriving DecidableEq

/-- What the kernel reads of a `MemoryDescriptor`. -/
structure DescriptorFields where
  ty : MemoryType
  physStart : UInt64
  pageCount : UInt64

namespace DescriptorFields

/-- The pattern of `if let`. -/
def usable (desc : DescriptorFields) : Bool :=
  match desc.ty with
  | .conventional | .bootServicesCode | .bootServicesData => true
  | .other => false

def size (desc : DescriptorFields) : Nat := desc.pageCount.toNat * 4096

/-- The addresses that the descriptor is about. -/
def region (desc : DescriptorFields) : Range :=
  ⟨desc.physStart.toNat, desc.physStart.toNat + desc.size⟩

/-- `desc.phys_start + desc.page_count * 4096`, where `u64` is as wide as `usize`. -/
def stop (desc : DescriptorFields) : Rust Nat := do
  usizeAdd desc.physStart.toNat (← usizeMul desc.pageCount.toNat 4096)

/-- The region ends below `2 ^ 64`. -/
def Fits (desc : DescriptorFields) : Prop := desc.region.stop < usizeSize

instance (desc : DescriptorFields) : Decidable desc.Fits :=
  inferInstanceAs (Decidable (_ < _))

theorem stop_eq_ok {desc : DescriptorFields} {stop : Nat} :
    desc.stop = .ok stop ↔ desc.Fits ∧ stop = desc.region.stop := by
  simp only [DescriptorFields.stop, Rust.bind_eq_ok, usizeMul_eq_ok, usizeAdd_eq_ok, Fits, region,
    size]
  constructor
  · rintro ⟨_, ⟨-, rfl⟩, hfit, rfl⟩
    exact ⟨hfit, rfl⟩
  · rintro ⟨hfit, rfl⟩
    exact ⟨_, ⟨by omega, rfl⟩, hfit, rfl⟩

end DescriptorFields

section Boot

variable {MemoryDescriptor : Type} (fields : MemoryDescriptor → DescriptorFields)
  (descriptor : DataType MemoryDescriptor)

/-- The closure of `filter_map`. -/
def heapRange (desc : MemoryDescriptor) : Rust (Option Range) := do
  if (fields desc).usable then
    return some ⟨(fields desc).physStart.toNat, ← (fields desc).stop⟩
  else
    return none

/-- One round of `max_by_key` over what `filter_map` yields. -/
def maxRound (best : Option (Nat × Range)) (desc : MemoryDescriptor) :
    Rust (Option (Nat × Range)) := do
  match ← heapRange fields desc with
  | none => return best
  | some range => return keepLast best (← usizeSub range.stop range.start, range)

/-- `filter_map`, `max_by_key` and `expect`. -/
def chooseHeap (mem : Memory 64) (memoryMapIter : MemMapIter) : Rust Range := do
  match ← memoryMapIter.foldM descriptor mem (maxRound fields) none with
  | none => throw (.message "no conventional memory region found")
  | some (_, heap) => return heap

/-- `kernel_main2` from the memory map to `init_allocator`, with the global allocator behind it.
`entry` is `arg.memory_map_entry`. -/
def kernelMain2 (mem : Memory 64) (entry : BitVec 64) : Rust BumpAllocator :=
  if entry = 0 then throw (.message "called `Option::unwrap()` on a `None` value")
  else do
    let memoryMapIter := MemMapEntry.intoIter mem entry
    let heap ← chooseHeap fields descriptor mem memoryMapIter
    return BumpAllocator.new.init heap.start heap.stop

variable {fields descriptor} {descriptors : List MemoryDescriptor} {mem : Memory 64}
  {entry : BitVec 64} {allocator : BumpAllocator}

/-- The regions among which the heap is chosen. -/
def candidates (fields : MemoryDescriptor → DescriptorFields)
    (descriptors : List MemoryDescriptor) : List Range :=
  (descriptors.filter fun desc => (fields desc).usable).map fun desc => (fields desc).region

/-- `range.end - range.start`. -/
def rangeSize (range : Range) : Nat := range.stop - range.start

theorem heapRange_eq_ok {desc : MemoryDescriptor} {range : Option Range} :
    heapRange fields desc = .ok range ↔
      ((fields desc).usable = true → (fields desc).Fits) ∧
        range = if (fields desc).usable = true then some (fields desc).region else none := by
  rw [heapRange]
  split
  next husable =>
    rw [Rust.bind_eq_ok]
    simp only [DescriptorFields.stop_eq_ok]
    constructor
    · rintro ⟨_, ⟨hfit, rfl⟩, hrange⟩
      exact ⟨fun _ => hfit, (Except.ok.inj hrange).symm⟩
    · rintro ⟨hfit, rfl⟩
      exact ⟨_, ⟨hfit husable, rfl⟩, rfl⟩
  next husable =>
    exact ⟨fun h => ⟨fun h' => absurd h' husable, (Except.ok.inj h).symm⟩,
      fun h => congrArg Except.ok h.2.symm⟩

theorem maxRound_eq_ok {best best' : Option (Nat × Range)} {desc : MemoryDescriptor} :
    maxRound fields best desc = .ok best' ↔
      ((fields desc).usable = true → (fields desc).Fits) ∧
        best' = if (fields desc).usable = true then
          keepLast best (rangeSize (fields desc).region, (fields desc).region) else best := by
  have hsub : usizeSub (fields desc).region.stop (fields desc).region.start =
      .ok (rangeSize (fields desc).region) :=
    usizeSub_eq_ok.mpr ⟨Nat.le_add_right _ _, rfl⟩
  simp only [maxRound, Rust.bind_eq_ok, heapRange_eq_ok, and_assoc, exists_and_left]
  refine and_congr_right fun _ => ?_
  rw [exists_eq_left]
  by_cases husable : (fields desc).usable = true
  · rw [if_pos husable, if_pos husable]
    dsimp only
    rw [hsub]
    exact ⟨fun h => (Except.ok.inj h).symm, fun h => congrArg Except.ok h.symm⟩
  · rw [if_neg husable, if_neg husable]
    exact ⟨fun h => (Except.ok.inj h).symm, fun h => congrArg Except.ok h.symm⟩

/-- The whole scan. -/
theorem foldlM_maxRound {best best' : Option (Nat × Range)} :
    descriptors.foldlM (maxRound fields) best = .ok best' ↔
      (∀ desc ∈ descriptors, (fields desc).usable = true → (fields desc).Fits) ∧
        best' = (candidates fields descriptors).foldl
          (fun best range => keepLast best (rangeSize range, range)) best := by
  induction descriptors generalizing best with
  | nil => exact ⟨fun h => ⟨by simp, (Except.ok.inj h).symm⟩, fun h => congrArg Except.ok h.2.symm⟩
  | cons desc descriptors ih =>
      rw [List.foldlM_cons, Rust.bind_eq_ok]
      simp only [maxRound_eq_ok, ih, List.forall_mem_cons]
      by_cases husable : (fields desc).usable = true
      · simp only [husable, candidates, List.filter_cons, if_true, List.map_cons, List.foldl_cons]
        exact ⟨fun ⟨_, ⟨hfit, hkeep⟩, hfits, hbest⟩ => ⟨⟨hfit, hfits⟩, hkeep ▸ hbest⟩,
          fun ⟨⟨hfit, hfits⟩, hbest⟩ => ⟨_, ⟨hfit, rfl⟩, hfits, hbest⟩⟩
      · simp only [husable, candidates, List.filter_cons, Bool.false_eq_true, if_false,
          false_imp_iff, true_and]
        exact ⟨fun ⟨_, hkeep, hfits, hbest⟩ => ⟨hfits, hkeep ▸ hbest⟩,
          fun ⟨hfits, hbest⟩ => ⟨_, rfl, hfits, hbest⟩⟩

/-- The descriptor of the heap: no usable region before it is larger, and every one behind it is
smaller. -/
structure IsHeap (fields : MemoryDescriptor → DescriptorFields)
    (descriptors front : List MemoryDescriptor) (desc : MemoryDescriptor)
    (back : List MemoryDescriptor) : Prop where
  eq_append : descriptors = front ++ desc :: back
  usable : (fields desc).usable = true
  size_le : ∀ other ∈ front, (fields other).usable = true →
    (fields other).size ≤ (fields desc).size
  size_lt : ∀ other ∈ back, (fields other).usable = true →
    (fields other).size < (fields desc).size

@[simp] theorem rangeSize_region (desc : DescriptorFields) : rangeSize desc.region = desc.size :=
  Nat.add_sub_cancel_left _ _

theorem mem_candidates {range : Range} :
    range ∈ candidates fields descriptors ↔
      ∃ desc ∈ descriptors, (fields desc).usable = true ∧ (fields desc).region = range := by
  simp only [candidates, List.mem_map, List.mem_filter, and_assoc]

theorem lastMax_candidates_iff {heap : Range} :
    lastMax rangeSize (candidates fields descriptors) = some heap ↔
      ∃ front desc back, IsHeap fields descriptors front desc back ∧
        heap = (fields desc).region := by
  rw [lastMax_eq_some_iff]
  constructor
  · rintro ⟨front, back, hmax⟩
    obtain ⟨before, behind, hfilter, rfl, hbehind⟩ := List.map_eq_append_iff.mp hmax.eq_append
    obtain ⟨desc, rest, rfl, rfl, rfl⟩ := List.map_eq_cons_iff.mp hbehind
    obtain ⟨front, mid, rfl, rfl, hmid⟩ := List.filter_eq_append_iff.mp hfilter
    obtain ⟨skipped, back, rfl, hskipped, husable, rfl⟩ := List.filter_eq_cons_iff.mp hmid
    refine ⟨front ++ skipped, desc, back, ⟨by simp, husable, ?_, ?_⟩, rfl⟩
    · intro other hother hused
      obtain hother | hother := List.mem_append.mp hother
      · simpa using hmax.le_key _ (mem_candidates.mpr ⟨other, hother, hused, rfl⟩)
      · exact absurd hused (hskipped other hother)
    · intro other hother hused
      simpa using hmax.key_lt _ (mem_candidates.mpr ⟨other, hother, hused, rfl⟩)
  · rintro ⟨front, desc, back, hheap, rfl⟩
    refine ⟨candidates fields front, candidates fields back, ?_, ?_, ?_⟩
    · rw [hheap.eq_append, candidates, List.filter_append, List.filter_cons, if_pos hheap.usable,
        List.map_append, List.map_cons]
      rfl
    · intro range hrange
      obtain ⟨other, hother, hused, rfl⟩ := mem_candidates.mp hrange
      simpa using hheap.size_le other hother hused
    · intro range hrange
      obtain ⟨other, hother, hused, rfl⟩ := mem_candidates.mp hrange
      simpa using hheap.size_lt other hother hused

theorem IsHeap.desc_mem {front back : List MemoryDescriptor} {desc : MemoryDescriptor}
    (h : IsHeap fields descriptors front desc back) : desc ∈ descriptors := by
  rw [h.eq_append]
  simp

theorem IsHeap.size_le_of_mem {front back : List MemoryDescriptor} {desc : MemoryDescriptor}
    (h : IsHeap fields descriptors front desc back) :
    ∀ other ∈ descriptors, (fields other).usable = true →
      (fields other).size ≤ (fields desc).size := by
  intro other hother hused
  rw [h.eq_append, List.mem_append, List.mem_cons] at hother
  obtain hother | rfl | hother := hother
  · exact h.size_le other hother hused
  · exact le_rfl
  · exact (h.size_lt other hother hused).le

/-- One usable region is enough. -/
theorem exists_isHeap {desc : MemoryDescriptor} (hdesc : desc ∈ descriptors)
    (husable : (fields desc).usable = true) :
    ∃ front desc back, IsHeap fields descriptors front desc back := by
  cases hlast : lastMax rangeSize (candidates fields descriptors) with
  | none =>
      have hmem := mem_candidates.mpr ⟨desc, hdesc, husable, rfl⟩
      rw [lastMax_eq_none_iff.mp hlast] at hmem
      exact absurd hmem List.not_mem_nil
  | some heap =>
      obtain ⟨front, desc, back, hheap, -⟩ := lastMax_candidates_iff.mp hlast
      exact ⟨front, desc, back, hheap⟩

theorem chooseHeap_eq_ok {it : MemMapIter} {heap : Range}
    (h : MemMapIter.Behind descriptor mem descriptors it 0) :
    chooseHeap fields descriptor mem it = .ok heap ↔
      (∀ desc ∈ descriptors, (fields desc).usable = true → (fields desc).Fits) ∧
        lastMax rangeSize (candidates fields descriptors) = some heap := by
  rw [chooseHeap, MemMapIter.foldM_spec _ _ h, List.drop_zero, Rust.bind_eq_ok, lastMax]
  simp only [foldlM_maxRound, and_assoc, exists_and_left]
  refine and_congr_right fun _ => ?_
  rw [exists_eq_left]
  generalize (candidates fields descriptors).foldl _ none = best
  cases best with
  | none =>
      refine iff_of_false ?_ ?_
      · intro h
        cases h
      · intro h
        cases h
  | some best =>
      exact ⟨fun h => congrArg some (Except.ok.inj h),
        fun h => congrArg Except.ok (Option.some.inj h)⟩

/-- The kernel gets to the call exactly if there is a map, every usable region in the map ends below
`2 ^ 64` and there is one. The allocator is on the last of the largest usable regions. -/
theorem kernelMain2_eq_ok_iff {writer reader : DataType MemoryDescriptor} (h : writer.ReadBy reader)
    (fields : MemoryDescriptor → DescriptorFields) (mem : Memory 64) (entry : BitVec 64)
    (descriptors : List MemoryDescriptor)
    (hroom : MemMapEntry.layout.size + descriptors.length * writer.size ≤ 2 ^ 64) :
    kernelMain2 fields reader (handOver writer mem entry descriptors) entry = .ok allocator ↔
      entry ≠ 0 ∧ (∀ desc ∈ descriptors, (fields desc).usable = true → (fields desc).Fits) ∧
        ∃ front desc back, IsHeap fields descriptors front desc back ∧
          allocator = Heap.fresh (fields desc).region.start (fields desc).region.stop := by
  have hbehind : MemMapIter.Behind reader (handOver writer mem entry descriptors) descriptors
      (MemMapEntry.intoIter (handOver writer mem entry descriptors) entry) 0 :=
    MemMapIter.behind_intoIter h mem entry hroom
  rw [kernelMain2]
  by_cases hentry : entry = 0
  · rw [if_pos hentry]
    exact iff_of_false nofun fun hok => hok.1 hentry
  rw [if_neg hentry]
  simp only [Rust.bind_eq_ok, chooseHeap_eq_ok hbehind, lastMax_candidates_iff]
  constructor
  · rintro ⟨_, ⟨hfits, front, desc, back, hheap, rfl⟩, hret⟩
    cases hret
    exact ⟨hentry, hfits, front, desc, back, hheap, rfl⟩
  · rintro ⟨-, hfits, front, desc, back, hheap, rfl⟩
    exact ⟨_, ⟨hfits, front, desc, back, hheap, rfl⟩, rfl⟩

end Boot

section Runs

variable {lo hi ptr : Nat} {s : Heap} {layout : Layout} {boundary : Nat} {a : BumpAllocator}
  {b : Block}

/-- What every run keeps on a heap that may start at address 0. The counter may be ahead of the
live blocks, by the blocks that were null pointers. -/
structure Sound (lo hi : Nat) (s : Heap) : Prop where
  heapStart : s.allocator.heapStart = lo
  heapEnd : s.allocator.heapEnd = hi
  lo_le_next : lo ≤ s.allocator.next
  count : s.live.length ≤ s.allocator.nAllocations
  placed : ∀ b ∈ s.live, b.Placed lo hi
  below : ∀ b ∈ s.live, b.stop ≤ s.allocator.next
  stacked : s.live.Pairwise fun newer older => older.stop ≤ newer.ptr

theorem Sound.init (lo hi : Nat) : Sound lo hi ⟨Heap.fresh lo hi, []⟩ where
  heapStart := rfl
  heapEnd := rfl
  lo_le_next := Nat.le_refl _
  count := Nat.zero_le _
  placed := by simp
  below := by simp
  stacked := .nil

theorem Sound.alloc (h : Sound lo hi s)
    (halloc : s.allocator.alloc layout boundary = .ok (ptr, a)) :
    Sound lo hi (s.hold a ⟨ptr, layout, boundary⟩) := by
  obtain ⟨rfl, rfl⟩ | ⟨r, hr, hstop, rfl, rfl⟩ := BumpAllocator.alloc_cases halloc
  · simpa [Heap.hold] using h
  obtain ⟨hfrom, hend, halign, hcross⟩ := alignAndBoundaryTo_spec hr
  have hnext := h.lo_le_next
  have hcount := h.count
  have hbelow : ∀ b ∈ s.live, b.stop ≤ r.start := fun b hb => (h.below b hb).trans hfrom
  rw [h.heapEnd] at hstop
  by_cases hnull : r.start = 0
  · -- the null pointer is not held, and the counter counts it
    rw [Heap.hold, if_pos hnull]
    exact ⟨h.heapStart, h.heapEnd, by dsimp only; omega, by dsimp only; omega, h.placed,
      fun b hb => (hbelow b hb).trans (by dsimp only; omega), h.stacked⟩
  · rw [Heap.hold_of_ne_zero s _ hnull]
    have hnew : Block.Placed ⟨r.start, layout, boundary⟩ lo hi := by
      refine ⟨by dsimp only; omega, by dsimp only; omega, ?_, halign, fun hpos => ?_⟩
      · simp only [Block.stop]
        omega
      · simpa only [Block.stop, ← hend] using hcross hpos
    refine ⟨h.heapStart, h.heapEnd, by dsimp only; omega, ?_, ?_, ?_, ?_⟩
    · simpa using hcount
    · exact List.forall_mem_cons.mpr ⟨hnew, h.placed⟩
    · refine List.forall_mem_cons.mpr ⟨?_, fun b hb => (hbelow b hb).trans (by dsimp only; omega)⟩
      simp only [Block.stop]
      omega
    · exact List.pairwise_cons.mpr ⟨hbelow, h.stacked⟩

theorem Sound.dealloc (h : Sound lo hi s) (live : b ∈ s.live)
    (hdealloc : s.allocator.dealloc b.ptr b.layout = .ok a) : Sound lo hi ⟨a, s.live.erase b⟩ := by
  obtain ⟨hpos, rfl⟩ := BumpAllocator.dealloc_eq_ok.mp hdealloc
  have hcount := h.count
  have hnext := h.lo_le_next
  have hlength : (s.live.erase b).length = s.live.length - 1 := List.length_erase_of_mem live
  refine ⟨h.heapStart, h.heapEnd, ?_, ?_, fun c hc => h.placed c (List.mem_of_mem_erase hc),
    fun c hc => ?_, h.stacked.sublist List.erase_sublist⟩
  · dsimp only
    split
    next => exact h.heapStart.ge
    next => exact hnext
  · dsimp only
    omega
  · -- a block that stays keeps the counter from reaching zero
    have hleft : 0 < (s.live.erase b).length := List.length_pos_of_mem hc
    dsimp only
    rw [if_neg (by omega)]
    exact h.below c (List.mem_of_mem_erase hc)

theorem Sound.of_reachable (hs : (Heap.system lo hi).Reachable s) : Sound lo hi s := by
  refine hs.invariant ?_ ?_
  · rintro s rfl
    exact .init lo hi
  · intro s op t _ h hstep
    cases hstep with
    | alloc _ halloc => exact h.alloc halloc
    | dealloc live hdealloc => exact h.dealloc live hdealloc

/-- Two ranges without a common address. -/
def Apart (r r' : Range) : Prop := r.stop ≤ r'.start ∨ r'.stop ≤ r.start

/-- The addresses of a block. -/
def blockRange (b : Block) : Range := ⟨b.ptr, b.stop⟩

/-- Every history of calls on the allocator that `kernel_main2` has set up. -/
def runs (allocator : BumpAllocator) : System Heap Heap.Op where
  init s := s = ⟨allocator, []⟩
  step := Heap.Step

/-- What the callers of the allocator rely on, and the rest of the machine. -/
structure Secluded {MemoryDescriptor : Type} (fields : MemoryDescriptor → DescriptorFields)
    (descriptors : List MemoryDescriptor) (desc : MemoryDescriptor) (s : Heap) : Prop where
  /-- The live blocks lie in the region of the descriptor, as they were asked for. -/
  placed : ∀ b ∈ s.live, b.Placed (fields desc).region.start (fields desc).region.stop
  /-- No two live blocks share an address. -/
  disjoint : s.live.Pairwise fun b c => Apart (blockRange b) (blockRange c)
  /-- No live block shares an address with a region from which that of the descriptor is apart. -/
  apart : ∀ b ∈ s.live, ∀ other ∈ descriptors, Apart (fields desc).region (fields other).region →
    Apart (blockRange b) (fields other).region
  /-- Each live block can be given back. -/
  noUnderflow : ∀ b ∈ s.live, ∃ a, s.allocator.dealloc b.ptr b.layout = .ok a

theorem Secluded.of_sound {MemoryDescriptor : Type} {fields : MemoryDescriptor → DescriptorFields}
    {descriptors : List MemoryDescriptor} {desc : MemoryDescriptor}
    (h : Sound (fields desc).region.start (fields desc).region.stop s) :
    Secluded fields descriptors desc s where
  placed := h.placed
  disjoint := h.stacked.imp fun hle => .inr hle
  apart b hb other _ hapart := by
    have hplaced := h.placed b hb
    exact hapart.imp (fun hle => hplaced.stop_le.trans hle) fun hle => hle.trans hplaced.lo_le
  noUnderflow b hb :=
    ⟨_, BumpAllocator.dealloc_eq_ok.mpr ⟨(List.length_pos_of_mem hb).trans_le h.count, rfl⟩⟩

/-- From the memory map to the blocks. The kernel calls `init_allocator` exactly if there is a map,
every usable region in the map ends below `2 ^ 64` and there is one. Whatever is allocated and freed
from then on, the vector of the map first, stays in one region: one that the map says is usable, and
as large as any. -/
theorem kernelMain2_secludes {MemoryDescriptor : Type} {writer reader : DataType MemoryDescriptor}
    (h : writer.ReadBy reader) (fields : MemoryDescriptor → DescriptorFields) (mem : Memory 64)
    (entry : BitVec 64) (descriptors : List MemoryDescriptor)
    (hroom : MemMapEntry.layout.size + descriptors.length * writer.size ≤ 2 ^ 64) :
    ((∃ allocator, kernelMain2 fields reader (handOver writer mem entry descriptors) entry =
        .ok allocator) ↔
      entry ≠ 0 ∧ (∀ desc ∈ descriptors, (fields desc).usable = true → (fields desc).Fits) ∧
        ∃ desc ∈ descriptors, (fields desc).usable = true) ∧
      ∀ allocator, kernelMain2 fields reader (handOver writer mem entry descriptors) entry =
          .ok allocator →
        ∃ desc ∈ descriptors, (fields desc).usable = true ∧
          (∀ other ∈ descriptors, (fields other).usable = true →
            (fields other).size ≤ (fields desc).size) ∧
          ∀ s, (runs allocator).Reachable s → Secluded fields descriptors desc s := by
  refine ⟨⟨?_, ?_⟩, fun allocator hmain => ?_⟩
  · rintro ⟨allocator, hmain⟩
    obtain ⟨hentry, hfits, front, desc, back, hheap, -⟩ :=
      (kernelMain2_eq_ok_iff h fields mem entry descriptors hroom).mp hmain
    exact ⟨hentry, hfits, desc, hheap.desc_mem, hheap.usable⟩
  · rintro ⟨hentry, hfits, desc, hdesc, husable⟩
    obtain ⟨front, desc, back, hheap⟩ := exists_isHeap hdesc husable
    exact ⟨_, (kernelMain2_eq_ok_iff h fields mem entry descriptors hroom).mpr
      ⟨hentry, hfits, front, desc, back, hheap, rfl⟩⟩
  · obtain ⟨-, -, front, desc, back, hheap, rfl⟩ :=
      (kernelMain2_eq_ok_iff h fields mem entry descriptors hroom).mp hmain
    exact ⟨desc, hheap.desc_mem, hheap.usable, hheap.size_le_of_mem, fun s hs =>
      .of_sound (.of_reachable hs)⟩

/-- The type, the start and the pages of `EFI_MEMORY_DESCRIPTOR`. -/
def uefiFields (desc : UInt32 × UInt64 × UInt64 × UInt64 × UInt64) : DescriptorFields where
  ty := match desc.1 with
    | 3 => .bootServicesCode
    | 4 => .bootServicesData
    | 7 => .conventional
    | _ => .other
  physStart := desc.2.1
  pageCount := desc.2.2.2.1

theorem fits_twoRegions : ∀ desc ∈ twoRegions, (uefiFields desc).Fits := by
  rw [twoRegions, List.forall_mem_cons, List.forall_mem_singleton]
  exact ⟨by decide, by decide⟩

theorem kernelMain2_secludes_twoRegions :
    ∃ allocator, kernelMain2 uefiFields uefiDescriptor
      (handOver uefiDescriptor (fun _ => 0) 0x3000 twoRegions) 0x3000 = .ok allocator :=
  (kernelMain2_secludes (.refl uefiDescriptor) uefiFields (fun _ => 0) 0x3000 twoRegions
    twoRegions_room).1.mpr ⟨by decide, fun desc hdesc _ => fits_twoRegions desc hdesc,
      (7, 0x1000, 0, 0x9f, 0xf), by decide, rfl⟩

end Runs

end LemolaOs.Kernel
