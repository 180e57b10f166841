import LemolaOs.Common.MemMap

/-!
# The memory map goes to the kernel

`main` of `bootloader/src/main.rs` writes the memory map into a buffer before it jumps into the
kernel, and `kernel_main2` gets the address of that buffer and makes an iterator of it. The loop
in `main` is the one of `MemMapEntry::new_inplace`, written out.

The two programs take their `MemoryDescriptor` from two crates, so the layout of the writer and
that of the reader are two parameters, which `DataType.ReadBy` relates.
-/

namespace LemolaOs.Bootloader

open Common

variable {MemoryDescriptor : Type}

/-- The part of `main` behind `exit_boot_services`: `memMapBuf` is the address of `mem_map_buf`,
and `memoryMap` the iterator over the descriptors. -/
def handOver (descriptor : DataType MemoryDescriptor) (mem : Memory 64) (memMapBuf : BitVec 64)
    (memoryMap : List MemoryDescriptor) : Memory 64 :=
  let size := memoryMap.length
  let header := memMapBuf
  let mem := MemMapEntry.layout.store mem header ⟨.ofNat size⟩
  let descHead := MemMapEntry.layout.add header 1
  descriptor.storeArray mem descHead memoryMap

theorem handOver_eq_newInplace (descriptor : DataType MemoryDescriptor) (mem : Memory 64)
    (memMapBuf : BitVec 64) (memoryMap : List MemoryDescriptor) :
    handOver descriptor mem memMapBuf memoryMap =
      MemMapEntry.newInplace descriptor mem memMapBuf (.ofNat memoryMap.length) memoryMap := rfl

/-- The reader gets exactly the descriptors, in order, and then `None` forever, and knows how many
are left when `taken` of them have been taken. -/
structure HandedOver (descriptor : DataType MemoryDescriptor) (mem : Memory 64) (entry : BitVec 64)
    (descriptors : List MemoryDescriptor) (taken : Nat) : Prop where
  yields : ∀ further,
    ((MemMapEntry.intoIter mem entry).nextCalls descriptor mem (descriptors.length + further)).map
      Prod.fst = .ok (descriptors.map some ++ List.replicate further none)
  len : (MemMapEntry.intoIter mem entry).lenAfter descriptor mem taken =
    .ok (descriptors.length - taken)

section Kernel

variable {writer reader : DataType MemoryDescriptor} {mem : Memory 64} {entry : BitVec 64}
  {descriptors : List MemoryDescriptor} {taken : Nat}

theorem handedOver_newInplace_iff (h : writer.ReadBy reader)
    (hroom : MemMapEntry.layout.size + descriptors.length * writer.size ≤ 2 ^ 64)
    (htaken : taken ≤ descriptors.length) :
    HandedOver reader
        (MemMapEntry.newInplace writer mem entry (.ofNat descriptors.length) descriptors)
        entry descriptors taken ↔ taken = 0 := by
  have hbehind := MemMapIter.behind_intoIter h mem entry hroom
  constructor
  · intro hhanded
    have hlen := (MemMapIter.lenAfter_spec hbehind taken).symm.trans hhanded.len
    injection hlen with hlen
    omega
  · rintro rfl
    exact ⟨MemMapIter.nextCalls_through hbehind, MemMapIter.lenAfter_spec hbehind 0⟩

/-- Both programs' ways of writing hand the descriptors over, and the count that the reader can
ask for is right before the first descriptor is taken, and at no later place. -/
theorem handedOver_iff (h : writer.ReadBy reader) (mem : Memory 64) (entry : BitVec 64)
    (descriptors : List MemoryDescriptor)
    (hroom : MemMapEntry.layout.size + descriptors.length * writer.size ≤ 2 ^ 64)
    (taken : Nat) (htaken : taken ≤ descriptors.length) :
    (HandedOver reader
        (MemMapEntry.newInplace writer mem entry (.ofNat descriptors.length) descriptors)
        entry descriptors taken ↔ taken = 0) ∧
      (HandedOver reader (handOver writer mem entry descriptors) entry descriptors taken ↔
        taken = 0) := by
  rw [handOver_eq_newInplace]
  exact ⟨handedOver_newInplace_iff h hroom htaken, handedOver_newInplace_iff h hroom htaken⟩

/-- `EFI_MEMORY_DESCRIPTOR`: the type of the memory, where it starts physically and virtually, its
pages and its attributes. -/
def uefiDescriptor : DataType (UInt32 × UInt64 × UInt64 × UInt64 × UInt64) :=
  (DataType.u32.padded 4).prod (.prod .u64 (.prod .u64 (.prod .u64 .u64)))

/-- Boot services code in the first page, and conventional memory behind it. -/
def twoRegions : List (UInt32 × UInt64 × UInt64 × UInt64 × UInt64) :=
  [(3, 0, 0, 1, 0xf), (7, 0x1000, 0, 0x9f, 0xf)]

theorem twoRegions_room :
    MemMapEntry.layout.size + twoRegions.length * uefiDescriptor.size ≤ 2 ^ 64 := by decide

theorem handedOver_iff_twoRegions :
    HandedOver uefiDescriptor (handOver uefiDescriptor (fun _ => 0) 0x3000 twoRegions) 0x3000
        twoRegions 0 ∧
      ¬ HandedOver uefiDescriptor (handOver uefiDescriptor (fun _ => 0) 0x3000 twoRegions) 0x3000
        twoRegions 2 := by
  have hiff := handedOver_iff (.refl uefiDescriptor) (fun _ => 0) 0x3000 twoRegions twoRegions_room
  refine ⟨(hiff 0 (Nat.zero_le _)).2.mpr rfl, fun hhanded => ?_⟩
  exact absurd ((hiff 2 le_rfl).2.mp hhanded) (by decide)

/-- One of two descriptors is left, and `len` says two. -/
theorem len_not_remaining :
    ¬ ∀ taken ≤ twoRegions.length,
      HandedOver uefiDescriptor (handOver uefiDescriptor (fun _ => 0) 0x3000 twoRegions) 0x3000
        twoRegions taken := by
  intro hall
  have hlen := (hall 1 (by decide)).len
  rw [handOver_eq_newInplace,
    MemMapIter.lenAfter_spec (MemMapIter.behind_intoIter (.refl _) _ _ twoRegions_room)] at hlen
  exact absurd hlen (by decide)

end Kernel

end LemolaOs.Bootloader
