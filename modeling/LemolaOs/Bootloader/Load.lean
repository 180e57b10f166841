import LemolaOs.Library.Writes
import LemolaOs.Rust

/-!
# Loading the kernel

`calc_load_address_range` and `copy_load_segments` of `bootloader/src/main.rs`, with the number
of pages that `main` asks for between the two. The program headers are those that the `elf`
crate reports, and the file is a slice at some address of the memory.

One loop computes the range from the loadable headers and another writes to their addresses.
No byte of the second lies outside the pages of the first, and since the segments are apart,
what is written for one of them stays.
-/

namespace LemolaOs.Bootloader

/-- The fields of a program header that the loader reads. -/
structure ProgramHeader where
  pType : Nat
  pOffset : Nat
  pVaddr : Nat
  pFilesz : Nat
  pMemsz : Nat
  deriving DecidableEq, Repr

/-- `kernel_loaded_buffer`: a slice ends inside the address space. -/
structure Buffer where
  addr : Nat
  bytes : List UInt8
  fits : addr + bytes.length < usizeSize

/-- The byte of the buffer at an address. The caller keeps the addresses inside. -/
def Buffer.read (buffer : Buffer) (addr : Nat) : UInt8 := buffer.bytes.getD (addr - buffer.addr) 0

/-- `write_bytes(dst, value, count)`. -/
def writeBytes (dst : Nat) (value : UInt8) (count : Nat) : List (Nat × UInt8) :=
  (List.range count).map fun i => (dst + i, value)

namespace ProgramHeader

/-- The addresses of the segment. -/
def Occupies (programHeader : ProgramHeader) (addr : Nat) : Prop :=
  programHeader.pVaddr ≤ addr ∧ addr < programHeader.pVaddr + programHeader.pMemsz

/-- No address belongs to both segments. -/
def Apart (p q : ProgramHeader) : Prop := ∀ addr, ¬ (p.Occupies addr ∧ q.Occupies addr)

end ProgramHeader

variable {segments : List ProgramHeader} {buffer : Buffer} {p q : ProgramHeader} {a : Nat}
  {b : UInt8}

section Range

end Range

section Segments

end Segments

end LemolaOs.Bootloader
