import LemolaOs.Library.RoundUp
import LemolaOs.Library.Writes
import LemolaOs.Pci.Register
import LemolaOs.Rust

/-!
# The MSI capability of a PCI function

`MessageControl`, `MsiCapability`, `write_msi_capability` and the edits that
`configure_msi` makes, of `kernel/src/pci.rs`. The capability has four layouts: its
address register is one or two dwords wide, and the mask and pending registers are
there or not. Reader and writer work out the offsets separately.

`MsiCapability.registers` is the layout as a table of offsets and words. The writer
writes that table (`writeMsiCapability_eq`), and the reader recovers from it every
capability that has nothing outside its layout (`new_of_registers`).
-/

namespace LemolaOs.Pci

/-- `get_bits(lo..hi)` of `bit_field`. -/
def getBits (x lo hi : Nat) : Nat := x / 2 ^ lo % 2 ^ (hi - lo)

/-- `get_bit(i)`. -/
def getBit (x i : Nat) : Bool := getBits x i (i + 1) == 1

/-- `set_bits(lo..hi, value)`; a value that does not fit into the range panics. -/
def setBits (x lo hi value : Nat) : Rust Nat :=
  if value < 2 ^ (hi - lo) then .ok (x % 2 ^ lo + value * 2 ^ lo + x / 2 ^ hi * 2 ^ hi)
  else .error .assertion

/-- `a + n` on `u8`. -/
def u8Add (a : UInt8) (n : Nat) : Rust UInt8 :=
  if a.toNat + n < 256 then .ok (a + .ofNat n) else .error .overflow

/-- `MessageControl(u16)`. -/
structure MessageControl where
  raw : UInt16
  deriving DecidableEq

namespace MessageControl

def perVectorMasking (control : MessageControl) : Bool := getBit control.raw.toNat 8

def address64BitCapable (control : MessageControl) : Bool := getBit control.raw.toNat 7

def multipleMessageCapable (control : MessageControl) : UInt16 :=
  .ofNat (getBits control.raw.toNat 1 4)

def multipleMessageEnable (control : MessageControl) : UInt16 :=
  .ofNat (getBits control.raw.toNat 4 7)

def setMultipleMessageEnable (control : MessageControl) (value : UInt16) : Rust MessageControl := do
  return ⟨.ofNat (← setBits control.raw.toNat 4 7 value.toNat)⟩

def enable (control : MessageControl) : Bool := getBit control.raw.toNat 0

/-- `set_bit(0, value)`. -/
def setEnable (control : MessageControl) (value : Bool) : Rust MessageControl := do
  return ⟨.ofNat (← setBits control.raw.toNat 0 1 value.toNat)⟩

end MessageControl

/-- `MsiCapability([u32; 6])`. -/
structure MsiCapability where
  word0 : UInt32
  word1 : UInt32
  word2 : UInt32
  word3 : UInt32
  word4 : UInt32
  word5 : UInt32
  deriving DecidableEq

namespace MsiCapability

def header (cap : MsiCapability) : UInt32 := cap.word0

def messageControl (cap : MsiCapability) : MessageControl :=
  ⟨.ofNat (getBits cap.word0.toNat 16 32)⟩

def setMessageControl (cap : MsiCapability) (control : MessageControl) : Rust MsiCapability := do
  return { cap with word0 := .ofNat (← setBits cap.word0.toNat 16 32 control.raw.toNat) }

def nextPointer (cap : MsiCapability) : UInt8 := .ofNat (getBits cap.word0.toNat 8 16)

def setNextPointer (cap : MsiCapability) (value : UInt8) : Rust MsiCapability := do
  return { cap with word0 := .ofNat (← setBits cap.word0.toNat 8 16 value.toNat) }

def capabilityId (cap : MsiCapability) : UInt8 := .ofNat (getBits cap.word0.toNat 0 8)

def setCapabilityId (cap : MsiCapability) (value : UInt8) : Rust MsiCapability := do
  return { cap with word0 := .ofNat (← setBits cap.word0.toNat 0 8 value.toNat) }

/-- `u << 32 | l`. -/
def messageAddress (cap : MsiCapability) : UInt64 :=
  cap.word2.toUInt64 <<< 32 ||| cap.word1.toUInt64

def setMessageAddress (cap : MsiCapability) (address : UInt64) : MsiCapability :=
  { cap with word1 := address.toUInt32, word2 := (address >>> 32).toUInt32 }

def messageData (cap : MsiCapability) : UInt16 := .ofNat (getBits cap.word3.toNat 0 16)

def setMessageData (cap : MsiCapability) (data : UInt16) : Rust MsiCapability := do
  return { cap with word3 := .ofNat (← setBits cap.word3.toNat 0 16 data.toNat) }

def maskBits (cap : MsiCapability) : UInt32 := cap.word4

def setMaskBits (cap : MsiCapability) (maskBits : UInt32) : MsiCapability :=
  { cap with word4 := maskBits }

def pendingBits (cap : MsiCapability) : UInt32 := cap.word5

def setPendingBits (cap : MsiCapability) (pendingBits : UInt32) : MsiCapability :=
  { cap with word5 := pendingBits }

end MsiCapability

/-- The place in the configuration space that the hardware takes from an address. -/
def PciConfigAddress.location (address : PciConfigAddress) : UInt8 × UInt8 × UInt8 × UInt8 :=
  ((address.raw >>> 16).toUInt8, (address.raw >>> 11).toUInt8 &&& 0b11111,
    (address.raw >>> 8).toUInt8 &&& 0b111, address.raw.toUInt8 &&& 0b11111100)

/-- The dword at a place. -/
def ConfigSpace.at (space : ConfigSpace) (place : UInt8 × UInt8 × UInt8 × UInt8) : UInt32 :=
  space place.1 place.2.1 place.2.2.1 place.2.2.2

/-- `write_data`: the dword at the place of the address is replaced. -/
def writeData (space : ConfigSpace) (address : PciConfigAddress) (value : UInt32) : ConfigSpace :=
  fun bus device function register =>
    if (bus, device, function, register) = address.location then value
    else space bus device function register

namespace PciDevice

def readConfigurationSpace (device : PciDevice) (space : ConfigSpace) (addr : UInt8) : UInt32 :=
  readData space (.new device.bus device.device device.function addr)

def writeConfReg (device : PciDevice) (space : ConfigSpace) (regAddr : UInt8) (value : UInt32) :
    ConfigSpace :=
  writeData space (.new device.bus device.device device.function regAddr) value

end PciDevice

/-- `MsiCapability::new`. -/
def MsiCapability.new (space : ConfigSpace) (device : PciDevice) (capAddr : UInt8) :
    Rust MsiCapability := do
  let cap : MsiCapability := ⟨0, 0, 0, 0, 0, 0⟩
  -- cap + 0x0
  let header := device.readConfigurationSpace space capAddr
  let messageControl : MessageControl := ⟨.ofNat (getBits header.toNat 16 32)⟩
  let cap ← cap.setMessageControl messageControl
  let cap ← cap.setNextPointer (.ofNat (getBits header.toNat 8 16))
  let cap ← cap.setCapabilityId (.ofNat (getBits header.toNat 0 8))
  -- cap + 0x4
  let messageAddressLower :=
    (device.readConfigurationSpace space (← u8Add capAddr 4)).toUInt64
  let msgDataAddr ← u8Add capAddr 8
  let (messageAddress, msgDataAddr) ←
    if cap.messageControl.address64BitCapable then do
      let messageAddressUpper :=
        (device.readConfigurationSpace space (← u8Add capAddr 8)).toUInt64
      let msgDataAddr ← u8Add capAddr 12
      pure (messageAddressUpper <<< 32 ||| messageAddressLower, msgDataAddr)
    else pure (messageAddressLower, msgDataAddr)
  let cap := cap.setMessageAddress messageAddress
  let messageData := (getBits (device.readConfigurationSpace space msgDataAddr).toNat 0 16)
  let cap ← cap.setMessageData (.ofNat messageData)
  if cap.messageControl.perVectorMasking then do
    let maskBits := device.readConfigurationSpace space (← u8Add msgDataAddr 4)
    let pendingBits := device.readConfigurationSpace space (← u8Add msgDataAddr 8)
    return (cap.setMaskBits maskBits).setPendingBits pendingBits
  else return cap

def writeMsiCapability (space : ConfigSpace) (device : PciDevice) (capAddr : UInt8)
    (msiCap : MsiCapability) : Rust ConfigSpace := do
  let space := device.writeConfReg space capAddr msiCap.header
  let space := device.writeConfReg space (← u8Add capAddr 4) msiCap.messageAddress.toUInt32
  let msgDataAddr ← u8Add capAddr 8
  let (space, msgDataAddr) ←
    if msiCap.messageControl.address64BitCapable then do
      let upper := UInt32.ofNat (getBits msiCap.messageAddress.toNat 32 64)
      let space := device.writeConfReg space (← u8Add capAddr 8) upper
      let msgDataAddr ← u8Add capAddr 12
      pure (space, msgDataAddr)
    else pure (space, msgDataAddr)
  let space := device.writeConfReg space msgDataAddr msiCap.messageData.toUInt32
  if msiCap.messageControl.perVectorMasking then do
    let space := device.writeConfReg space (← u8Add msgDataAddr 4) msiCap.maskBits
    let space := device.writeConfReg space (← u8Add msgDataAddr 8) msiCap.pendingBits
    return space
  else return space

/-- What `configure_msi` does to a capability that it found. -/
def MsiCapability.configure (msiCap : MsiCapability) (msgAddr msgData : UInt32)
    (numVectorExponent : Nat) : Rust MsiCapability := do
  let messageControl := msiCap.messageControl
  let exponent := UInt16.ofNat numVectorExponent
  let messageControl ←
    if messageControl.multipleMessageCapable ≤ exponent then
      messageControl.setMultipleMessageEnable messageControl.multipleMessageCapable
    else messageControl.setMultipleMessageEnable exponent
  let messageControl ← messageControl.setEnable true
  let msiCap ← msiCap.setMessageControl messageControl
  let msiCap := msiCap.setMessageAddress msgAddr.toUInt64
  msiCap.setMessageData msgData.toUInt16

section words

theorem setBits_of_lt {x lo hi value : Nat} (h : value < 2 ^ (hi - lo)) :
    setBits x lo hi value = .ok (x % 2 ^ lo + value * 2 ^ lo + x / 2 ^ hi * 2 ^ hi) := if_pos h

/-- A header is the three fields that the reader copies one by one. -/
theorem header_rebuilt (header : UInt32) {β : Type} (k : MsiCapability → Rust β) :
    (do
      let cap ← (⟨0, 0, 0, 0, 0, 0⟩ : MsiCapability).setMessageControl
        ⟨.ofNat (getBits header.toNat 16 32)⟩
      let cap ← cap.setNextPointer (.ofNat (getBits header.toNat 8 16))
      let cap ← cap.setCapabilityId (.ofNat (getBits header.toNat 0 8))
      k cap) = k ⟨header, 0, 0, 0, 0, 0⟩ := by
  have hlt := header.toNat_lt
  simp only [MsiCapability.setMessageControl, MsiCapability.setNextPointer,
    MsiCapability.setCapabilityId, getBits, pure, Except.pure]
  rw [setBits_of_lt (UInt16.toNat_lt _), Rust.ok_bind, Rust.ok_bind,
    setBits_of_lt (UInt8.toNat_lt _), Rust.ok_bind, Rust.ok_bind, setBits_of_lt (UInt8.toNat_lt _),
    Rust.ok_bind, Rust.ok_bind]
  congr 2
  refine UInt32.toNat_inj.mp ?_
  simp only [UInt32.toNat_ofNat', UInt16.toNat_ofNat', UInt8.toNat_ofNat', UInt32.toNat_zero]
  omega

/-- The two halves of a 64-bit address. -/
theorem toNat_address (upper lower : UInt32) :
    (upper.toUInt64 <<< 32 ||| lower.toUInt64).toNat = upper.toNat * 2 ^ 32 + lower.toNat := by
  have hupper := upper.toNat_lt
  have hlower := lower.toNat_lt
  rw [UInt64.toNat_or, UInt64.toNat_shiftLeft]
  have hshift : upper.toUInt64.toNat <<< ((32 : UInt64).toNat % 64) % 2 ^ 64 =
      2 ^ 32 * upper.toNat := by
    rw [UInt32.toNat_toUInt64, Nat.shiftLeft_eq]
    change upper.toNat * 2 ^ 32 % 2 ^ 64 = _
    omega
  rw [hshift, UInt32.toNat_toUInt64, ← Nat.two_pow_add_eq_or_of_lt hlower, Nat.mul_comm]

theorem toUInt32_address (upper lower : UInt32) :
    (upper.toUInt64 <<< 32 ||| lower.toUInt64).toUInt32 = lower := by
  have hlower := lower.toNat_lt
  refine UInt32.toNat_inj.mp ?_
  rw [UInt64.toNat_toUInt32, toNat_address]
  omega

theorem upper_address (upper lower : UInt32) :
    ((upper.toUInt64 <<< 32 ||| lower.toUInt64) >>> 32).toUInt32 = upper := by
  have hupper := upper.toNat_lt
  have hlower := lower.toNat_lt
  refine UInt32.toNat_inj.mp ?_
  have hamount : (32 : UInt64).toNat % 64 = 32 := rfl
  rw [UInt64.toNat_toUInt32, UInt64.toNat_shiftRight, toNat_address, Nat.shiftRight_eq_div_pow,
    hamount]
  omega

theorem address_lower (lower : UInt32) :
    (0 : UInt32).toUInt64 <<< 32 ||| lower.toUInt64 = lower.toUInt64 := by
  refine UInt64.toNat_inj.mp ?_
  rw [toNat_address, UInt32.toNat_toUInt64, UInt32.toNat_zero]
  omega

/-- Setting the address and setting its two halves is the same. -/
theorem MsiCapability.setMessageAddress_address (cap : MsiCapability) (upper lower : UInt32) :
    cap.setMessageAddress (upper.toUInt64 <<< 32 ||| lower.toUInt64) =
      { cap with word1 := lower, word2 := upper } := by
  rw [setMessageAddress, toUInt32_address, upper_address]

theorem MsiCapability.setMessageAddress_lower (cap : MsiCapability) (lower : UInt32) :
    cap.setMessageAddress lower.toUInt64 = { cap with word1 := lower, word2 := 0 } := by
  rw [← address_lower lower, setMessageAddress_address]

theorem MsiCapability.setMessageData_eq {cap : MsiCapability} (h : cap.word3.toNat < 2 ^ 16)
    (data : UInt16) : cap.setMessageData data = .ok { cap with word3 := data.toUInt32 } := by
  have hlt := data.toNat_lt
  have hword : UInt32.ofNat (cap.word3.toNat % 2 ^ 0 + data.toNat * 2 ^ 0 +
      cap.word3.toNat / 2 ^ 16 * 2 ^ 16) = data.toUInt32 := by
    refine UInt32.toNat_inj.mp ?_
    rw [UInt32.toNat_ofNat', UInt16.toNat_toUInt32]
    omega
  rw [setMessageData, setBits_of_lt hlt, Rust.ok_bind, hword]
  rfl

theorem u8Add_eq {a : UInt8} {n : Nat} (h : a.toNat + n < 256) : u8Add a n = .ok (a + .ofNat n) :=
  if_pos h

theorem u8Add_overflow {a : UInt8} {n : Nat} (h : 256 ≤ a.toNat + n) :
    u8Add a n = .error .overflow := if_neg (by omega)

theorem toNat_add_ofNat {a : UInt8} {n : Nat} (h : a.toNat + n < 256) :
    (a + .ofNat n).toNat = a.toNat + n := by
  rw [UInt8.toNat_add, UInt8.toNat_ofNat']
  omega

theorem add_ofNat_add {a : UInt8} (m n : Nat) : a + .ofNat m + .ofNat n = a + .ofNat (m + n) := by
  rw [UInt8.ofNat_add, UInt8.add_assoc]

end words

section places

/-- The register is the only part of a place that depends on the register. -/
theorem location_new (bus device function register : UInt8) :
    (PciConfigAddress.new bus device function register).location =
      ((PciConfigAddress.new bus device function 0).location.1,
        (PciConfigAddress.new bus device function 0).location.2.1,
        (PciConfigAddress.new bus device function 0).location.2.2.1,
        register &&& 0b11111100) := by
  simp only [PciConfigAddress.location, PciConfigAddress.new, Prod.mk.injEq]
  refine ⟨?_, ?_, ?_, ?_⟩
  all_goals
    refine UInt8.toBitVec_inj.mp ?_
    ext i hi
    interval_cases i <;> simp

theorem toNat_and_mask (register : UInt8) :
    (register &&& 0b11111100).toNat = register.toNat / 4 * 4 := by
  rw [UInt8.toNat_and]
  exact and_mask_eq (w := 8) (k := 2) (by decide) register.toNat_lt

/-- Two registers of a function share a place if they are in the same dword. -/
theorem location_eq_iff {bus device function a b : UInt8} :
    (PciConfigAddress.new bus device function a).location =
        (PciConfigAddress.new bus device function b).location ↔ a.toNat / 4 = b.toNat / 4 := by
  rw [location_new _ _ _ a, location_new _ _ _ b]
  simp only [Prod.mk.injEq, true_and, ← UInt8.toNat_inj, toNat_and_mask]
  omega

theorem readConfigurationSpace_eq (space : ConfigSpace) (device : PciDevice) (addr : UInt8) :
    device.readConfigurationSpace space addr =
      space.at (PciConfigAddress.new device.bus device.device device.function addr).location := rfl

theorem at_writeConfReg (space : ConfigSpace) (device : PciDevice) (regAddr : UInt8)
    (value : UInt32) :
    (device.writeConfReg space regAddr value).at =
      Function.update space.at
        (PciConfigAddress.new device.bus device.device device.function regAddr).location value := by
  funext place
  simp only [ConfigSpace.at, PciDevice.writeConfReg, writeData, Function.update_apply]

end places

namespace MsiCapability

/-- The address has an upper half. -/
def wide (cap : MsiCapability) : Bool := cap.messageControl.address64BitCapable

/-- There are mask and pending registers. -/
def masked (cap : MsiCapability) : Bool := cap.messageControl.perVectorMasking

/-- The offset of the message data. -/
def dataOffset (cap : MsiCapability) : Nat := if cap.wide then 12 else 8

/-- The offset of the last register. -/
def lastOffset (cap : MsiCapability) : Nat := cap.dataOffset + if cap.masked then 8 else 0

/-- The registers of the capability's layout, by offset, with the words they hold. -/
def registers (cap : MsiCapability) : List (Nat × UInt32) :=
  [(0, cap.word0), (4, cap.word1)] ++ (if cap.wide then [(8, cap.word2)] else []) ++
    [(cap.dataOffset, cap.word3)] ++
    if cap.masked then [(cap.dataOffset + 4, cap.word4), (cap.dataOffset + 8, cap.word5)] else []

/-- The capability has nothing outside its layout: no upper half of a narrow address,
no data beyond 16 bits, no mask or pending bits without their registers. -/
structure WellFormed (cap : MsiCapability) : Prop where
  narrow : cap.wide = false → cap.word2 = 0
  data : cap.word3.toNat < 2 ^ 16
  unmasked : cap.masked = false → cap.word4 = 0 ∧ cap.word5 = 0

/-- The capability that the reader assembles from the dwords at the offsets. -/
def ofReads (read : Nat → UInt32) : MsiCapability :=
  let cap : MsiCapability := ⟨read 0, 0, 0, 0, 0, 0⟩
  { word0 := read 0
    word1 := read 4
    word2 := if cap.wide then read 8 else 0
    word3 := (UInt16.ofNat (getBits (read cap.dataOffset).toNat 0 16)).toUInt32
    word4 := if cap.masked then read (cap.dataOffset + 4) else 0
    word5 := if cap.masked then read (cap.dataOffset + 8) else 0 }

theorem lastOffset_le (cap : MsiCapability) : cap.lastOffset ≤ 20 := by
  unfold lastOffset dataOffset
  split <;> split <;> omega

theorem lastOffset_mod (cap : MsiCapability) : cap.lastOffset % 4 = 0 := by
  unfold lastOffset dataOffset
  split <;> split <;> rfl

theorem lastOffset_congr {cap cap' : MsiCapability} (hwide : cap'.wide = cap.wide)
    (hmasked : cap'.masked = cap.masked) : cap'.lastOffset = cap.lastOffset := by
  rw [lastOffset, lastOffset, dataOffset, dataOffset, hwide, hmasked]

theorem eight_le_lastOffset (cap : MsiCapability) : 8 ≤ cap.lastOffset := by
  unfold lastOffset dataOffset
  split <;> omega

/-- The header decides on the layout. -/
theorem lastOffset_ofReads (read : Nat → UInt32) :
    (ofReads read).lastOffset = (⟨read 0, 0, 0, 0, 0, 0⟩ : MsiCapability).lastOffset := rfl

/-- The reader looks at the registers of the layout only. -/
theorem ofReads_congr {read read' : Nat → UInt32}
    (h : ∀ k ≤ (ofReads read).lastOffset, read' k = read k) : ofReads read' = ofReads read := by
  have hlast := eight_le_lastOffset (ofReads read)
  have h0 : read' 0 = read 0 := h 0 (Nat.zero_le _)
  have h4 : read' 4 = read 4 := h 4 (by omega)
  have h8 : read' 8 = read 8 := h 8 hlast
  rw [lastOffset_ofReads] at h
  have hdata := h _ (Nat.le_add_right _ _)
  simp only [ofReads, h0, h4, h8, hdata]
  cases hmasked : (⟨read 0, 0, 0, 0, 0, 0⟩ : MsiCapability).masked with
  | true =>
      rw [lastOffset, hmasked, if_pos rfl] at h
      have hmask := h _ (Nat.add_le_add_left (by omega : 4 ≤ 8) _)
      simp only [if_true, h _ (Nat.le_refl _), hmask]
  | false => rfl

/-- The part of the reader behind the address, with the message data at offset `d`. -/
theorem new_tail (space : ConfigSpace) (device : PciDevice) {capAddr : UInt8} {d : Nat}
    (hcap : capAddr.toNat + d < 256) (word0 word1 word2 : UInt32) :
    (do
      let cap ← (⟨word0, word1, word2, 0, 0, 0⟩ : MsiCapability).setMessageData (UInt16.ofNat
        (getBits (device.readConfigurationSpace space (capAddr + UInt8.ofNat d)).toNat 0 16))
      if cap.messageControl.perVectorMasking then do
        let maskBits := device.readConfigurationSpace space (← u8Add (capAddr + UInt8.ofNat d) 4)
        let pendingBits := device.readConfigurationSpace space (← u8Add (capAddr + UInt8.ofNat d) 8)
        return (cap.setMaskBits maskBits).setPendingBits pendingBits
      else return cap) =
      if capAddr.toNat +
          (d + if (⟨word0, 0, 0, 0, 0, 0⟩ : MsiCapability).masked then 8 else 0) < 256
      then Except.ok
        { word0, word1, word2
          word3 := (UInt16.ofNat (getBits (device.readConfigurationSpace space
            (capAddr + UInt8.ofNat d)).toNat 0 16)).toUInt32
          word4 := if (⟨word0, 0, 0, 0, 0, 0⟩ : MsiCapability).masked then
            device.readConfigurationSpace space (capAddr + UInt8.ofNat (d + 4)) else 0
          word5 := if (⟨word0, 0, 0, 0, 0, 0⟩ : MsiCapability).masked then
            device.readConfigurationSpace space (capAddr + UInt8.ofNat (d + 8)) else 0 }
      else .error .overflow := by
  have haddr := toNat_add_ofNat (a := capAddr) (n := d) hcap
  rw [setMessageData_eq (by decide : (0 : UInt32).toNat < 2 ^ 16), Rust.ok_bind]
  cases hmask : (⟨word0, 0, 0, 0, 0, 0⟩ : MsiCapability).masked with
  | true =>
      refine (if_pos hmask).trans ?_
      by_cases hlast : capAddr.toNat + (d + 8) < 256
      · rw [u8Add_eq (n := 4) (by omega), u8Add_eq (n := 8) (by omega), add_ofNat_add,
          add_ofNat_add, if_pos (by simpa using hlast)]
        rfl
      · rw [u8Add_overflow (n := 8) (by omega), if_neg (by simpa using hlast)]
        by_cases hmid : capAddr.toNat + d + 4 < 256
        · rw [u8Add_eq (n := 4) (by omega)]
          rfl
        · rw [u8Add_overflow (n := 4) (by omega)]
          rfl
  | false =>
      refine (if_neg (Bool.eq_false_iff.mp hmask)).trans ?_
      rw [if_pos (by simpa using hcap)]
      rfl

/-- What `MsiCapability::new` reads; it overflows if a register of the layout that the
header gives lies beyond `0xff`. -/
theorem new_eq_ite (space : ConfigSpace) (device : PciDevice) (capAddr : UInt8) :
    MsiCapability.new space device capAddr =
      if capAddr.toNat + (ofReads fun k =>
          device.readConfigurationSpace space (capAddr + .ofNat k)).lastOffset < 256
      then .ok (ofReads fun k => device.readConfigurationSpace space (capAddr + .ofNat k))
      else .error .overflow := by
  have hzero : capAddr + .ofNat 0 = capAddr := UInt8.add_zero _
  simp only [MsiCapability.new]
  rw [header_rebuilt]
  by_cases haddress : capAddr.toNat + 8 < 256
  · rw [u8Add_eq (n := 4) (by omega), Rust.ok_bind, u8Add_eq haddress, Rust.ok_bind]
    rw [lastOffset_ofReads]
    simp only [ofReads, hzero]
    cases hwide : (⟨device.readConfigurationSpace space capAddr, 0, 0, 0, 0, 0⟩ :
        MsiCapability).wide with
    | true =>
        refine (if_pos hwide).trans ?_
        by_cases hdata : capAddr.toNat + 12 < 256
        · rw [u8Add_eq hdata]
          simp only [pure, Except.pure, Rust.ok_bind, setMessageAddress_address]
          simp only [lastOffset, dataOffset, hwide, if_true]
          exact new_tail space device hdata _ _ _
        · simp only [lastOffset, dataOffset, hwide, if_true]
          rw [u8Add_overflow (n := 12) (by omega), if_neg (by omega)]
          rfl
    | false =>
        refine (if_neg (Bool.eq_false_iff.mp hwide)).trans ?_
        simp only [pure, Except.pure, Rust.ok_bind, setMessageAddress_lower]
        simp only [lastOffset, dataOffset, hwide, Bool.false_eq_true, if_false]
        exact new_tail space device haddress _ _ _
  · -- the message data does not fit behind any header
    have hlast := eight_le_lastOffset
      (ofReads fun k => device.readConfigurationSpace space (capAddr + .ofNat k))
    rw [ite_cond_eq_false _ _ (eq_false (by omega)), u8Add_overflow (n := 8) (by omega)]
    by_cases hmid : capAddr.toNat + 4 < 256
    · rw [u8Add_eq hmid]
      rfl
    · rw [u8Add_overflow (n := 4) (by omega)]
      rfl

/-- At an address that leaves room for the longest layout it does not overflow. -/
theorem new_eq (space : ConfigSpace) (device : PciDevice) {capAddr : UInt8}
    (hcap : capAddr.toNat ≤ 0xe8) :
    MsiCapability.new space device capAddr =
      .ok (ofReads fun k => device.readConfigurationSpace space (capAddr + .ofNat k)) := by
  have hlast := lastOffset_le (ofReads fun k =>
    device.readConfigurationSpace space (capAddr + .ofNat k))
  rw [new_eq_ite, if_pos (by omega)]

theorem lower_messageAddress (cap : MsiCapability) :
    cap.messageAddress.toUInt32 = cap.word1 := toUInt32_address _ _

theorem upper_messageAddress (cap : MsiCapability) :
    UInt32.ofNat (getBits cap.messageAddress.toNat 32 64) = cap.word2 := by
  have hupper := cap.word2.toNat_lt
  have hlower := cap.word1.toNat_lt
  refine UInt32.toNat_inj.mp ?_
  rw [UInt32.toNat_ofNat', getBits, messageAddress, toNat_address]
  omega

theorem messageData_toUInt32 {cap : MsiCapability} (h : cap.word3.toNat < 2 ^ 16) :
    cap.messageData.toUInt32 = cap.word3 := by
  refine UInt32.toNat_inj.mp ?_
  rw [messageData, UInt16.toNat_toUInt32, UInt16.toNat_ofNat', getBits]
  omega

end MsiCapability

/-- The place of a register of the capability at `capAddr`, by its offset. -/
def PciDevice.place (device : PciDevice) (capAddr : UInt8) (offset : Nat) :
    UInt8 × UInt8 × UInt8 × UInt8 :=
  (PciConfigAddress.new device.bus device.device device.function (capAddr + .ofNat offset)).location

/-- Registers by offset as writes to their places. -/
def PciDevice.writesAt (device : PciDevice) (capAddr : UInt8) (registers : List (Nat × UInt32)) :
    List ((UInt8 × UInt8 × UInt8 × UInt8) × UInt32) :=
  registers.map fun r => (device.place capAddr r.1, r.2)

/-- The part of the writer behind the address, with the message data at offset `d`. -/
theorem write_tail (space : ConfigSpace) (device : PciDevice) {capAddr : UInt8} {d : Nat}
    {cap : MsiCapability} (hcap : capAddr.toNat + (d + if cap.masked then 8 else 0) < 256)
    (hdata : cap.word3.toNat < 2 ^ 16) :
    ∃ space', (do
      let space := device.writeConfReg space (capAddr + UInt8.ofNat d) cap.messageData.toUInt32
      if cap.messageControl.perVectorMasking then do
        let space := device.writeConfReg space (← u8Add (capAddr + UInt8.ofNat d) 4) cap.maskBits
        let space := device.writeConfReg space (← u8Add (capAddr + UInt8.ofNat d) 8) cap.pendingBits
        return space
      else return space) = Except.ok space' ∧
      space'.at = applyWrites space.at (device.writesAt capAddr ((d, cap.word3) ::
        if cap.masked then [(d + 4, cap.word4), (d + 8, cap.word5)] else [])) := by
  have haddr := toNat_add_ofNat (a := capAddr) (n := d) (by omega)
  rw [cap.messageData_toUInt32 hdata]
  cases hmask : cap.masked with
  | true =>
      rw [hmask, if_pos rfl] at hcap
      rw [u8Add_eq (n := 4) (by omega), u8Add_eq (n := 8) (by omega), add_ofNat_add, add_ofNat_add]
      refine ⟨_, if_pos hmask, ?_⟩
      simp only [at_writeConfReg, PciDevice.writesAt, if_true, List.map_cons, List.map_nil,
        applyWrites_cons, applyWrites_nil]
      rfl
  | false =>
      refine ⟨_, if_neg (Bool.eq_false_iff.mp hmask), ?_⟩
      simp only [at_writeConfReg]
      rfl

/-- The writer writes the registers of the layout and nothing else. -/
theorem writeMsiCapability_eq (space : ConfigSpace) (device : PciDevice) {capAddr : UInt8}
    {cap : MsiCapability} (hcap : capAddr.toNat + cap.lastOffset < 256)
    (hdata : cap.word3.toNat < 2 ^ 16) :
    ∃ space', writeMsiCapability space device capAddr cap = .ok space' ∧
      space'.at = applyWrites space.at (device.writesAt capAddr cap.registers) := by
  have hzero : capAddr + .ofNat 0 = capAddr := UInt8.add_zero _
  have hlast := cap.eight_le_lastOffset
  simp only [writeMsiCapability]
  rw [u8Add_eq (n := 4) (by omega), Rust.ok_bind, u8Add_eq (n := 8) (by omega), Rust.ok_bind,
    cap.lower_messageAddress, cap.upper_messageAddress]
  rw [MsiCapability.lastOffset, MsiCapability.dataOffset] at hcap
  simp only [MsiCapability.registers, MsiCapability.dataOffset]
  cases hwide : cap.wide with
  | true =>
      rw [hwide, if_pos rfl] at hcap
      rw [u8Add_eq (n := 12) (by omega)]
      rw [if_pos (show cap.messageControl.address64BitCapable = true from hwide)]
      obtain ⟨space', hrun, hat⟩ := write_tail (device.writeConfReg (device.writeConfReg
        (device.writeConfReg space capAddr cap.header) (capAddr + .ofNat 4) cap.word1)
        (capAddr + .ofNat 8) cap.word2) device hcap hdata
      refine ⟨space', hrun, hat.trans ?_⟩
      simp only [at_writeConfReg, PciDevice.writesAt, PciDevice.place, List.map_append,
        applyWrites_append, List.map_cons, List.map_nil, applyWrites_cons, applyWrites_nil,
        if_true, hzero]
      rfl
  | false =>
      rw [hwide, if_neg Bool.false_ne_true] at hcap
      rw [if_neg (show ¬ cap.messageControl.address64BitCapable = true from
        Bool.eq_false_iff.mp hwide)]
      obtain ⟨space', hrun, hat⟩ := write_tail (device.writeConfReg
        (device.writeConfReg space capAddr cap.header) (capAddr + .ofNat 4) cap.word1) device
        hcap hdata
      refine ⟨space', hrun, hat.trans ?_⟩
      simp only [at_writeConfReg, PciDevice.writesAt, PciDevice.place, List.map_append,
        applyWrites_append, List.map_cons, List.map_nil, applyWrites_cons, applyWrites_nil,
        Bool.false_eq_true, if_false, hzero]
      rfl

section roundTrip

variable {space space' : ConfigSpace} {device : PciDevice} {capAddr : UInt8} {cap : MsiCapability}

/-- The offsets of the registers are those of different dwords behind the header. -/
theorem registers_offsets (cap : MsiCapability) :
    (cap.registers.map Prod.fst).Nodup ∧
      ∀ k ∈ cap.registers.map Prod.fst, k % 4 = 0 ∧ k ≤ cap.lastOffset := by
  simp only [MsiCapability.registers, MsiCapability.lastOffset, MsiCapability.dataOffset]
  cases cap.wide <;> cases cap.masked <;> simp

theorem place_inj {k k' : Nat} (hk : capAddr.toNat + k < 256) (hk' : capAddr.toNat + k' < 256)
    (hdword : k % 4 = 0) (hdword' : k' % 4 = 0)
    (h : device.place capAddr k = device.place capAddr k') : k = k' := by
  have hquot := location_eq_iff.mp h
  rw [toNat_add_ofNat hk, toNat_add_ofNat hk'] at hquot
  omega

/-- A register that was written reads back. -/
theorem read_register (hcap : capAddr.toNat + cap.lastOffset < 256)
    (hat : space'.at = applyWrites space.at (device.writesAt capAddr cap.registers)) {k : Nat}
    {v : UInt32} (h : (k, v) ∈ cap.registers) :
    device.readConfigurationSpace space' (capAddr + .ofNat k) = v := by
  obtain ⟨hnodup, hoffset⟩ := registers_offsets cap
  have hk := hoffset k (List.mem_map_of_mem h)
  have hwritten : (device.place capAddr k, v) ∈ device.writesAt capAddr cap.registers :=
    List.mem_map.mpr ⟨(k, v), h, rfl⟩
  rw [readConfigurationSpace_eq, ← PciDevice.place, hat]
  refine applyWrites_of_mem hwritten ?_
  intro b hmem
  obtain ⟨⟨k', b'⟩, hmem', heq⟩ := List.mem_map.mp hmem
  obtain ⟨hplace, rfl⟩ := Prod.mk.inj heq
  have hk' := hoffset k' (List.mem_map_of_mem hmem')
  obtain rfl := place_inj (by omega) (by omega) hk'.1 hk.1 hplace
  exact (Prod.mk.inj (List.inj_on_of_nodup_map hnodup hmem' h rfl)).2

/-- The reader recovers a capability from its registers if it has nothing outside
its layout. -/
theorem ofReads_eq (hwell : cap.WellFormed) {read : Nat → UInt32}
    (hread : ∀ k v, (k, v) ∈ cap.registers → read k = v) : MsiCapability.ofReads read = cap := by
  have h0 : read 0 = cap.word0 := hread 0 _ (by simp [MsiCapability.registers])
  have h4 : read 4 = cap.word1 := hread 4 _ (by simp [MsiCapability.registers])
  have hdata : read cap.dataOffset = cap.word3 :=
    hread cap.dataOffset _ (by simp [MsiCapability.registers])
  have hword2 : (if cap.wide then read 8 else 0) = cap.word2 := by
    cases hwide : cap.wide with
    | true => exact hread 8 _ (by simp [MsiCapability.registers, hwide])
    | false => exact (hwell.narrow hwide).symm
  have hword4 : (if cap.masked then read (cap.dataOffset + 4) else 0) = cap.word4 := by
    cases hmask : cap.masked with
    | true => exact hread _ _ (by simp [MsiCapability.registers, hmask])
    | false => exact (hwell.unmasked hmask).1.symm
  have hword5 : (if cap.masked then read (cap.dataOffset + 8) else 0) = cap.word5 := by
    cases hmask : cap.masked with
    | true => exact hread _ _ (by simp [MsiCapability.registers, hmask])
    | false => exact (hwell.unmasked hmask).2.symm
  have hword3 : (UInt16.ofNat (getBits (read cap.dataOffset).toNat 0 16)).toUInt32 = cap.word3 := by
    rw [hdata]
    exact MsiCapability.messageData_toUInt32 hwell.data
  -- which layout it is depends on the header alone
  have hwide : (⟨cap.word0, 0, 0, 0, 0, 0⟩ : MsiCapability).wide = cap.wide := rfl
  have hmask : (⟨cap.word0, 0, 0, 0, 0, 0⟩ : MsiCapability).masked = cap.masked := rfl
  have hoffset : (⟨cap.word0, 0, 0, 0, 0, 0⟩ : MsiCapability).dataOffset = cap.dataOffset := rfl
  simp only [MsiCapability.ofReads, h0, h4, hwide, hmask, hoffset, hword2, hword3, hword4, hword5]

end roundTrip

/-- Replacing bits leaves everything above them alone. -/
theorem setBits_div {x lo hi value bits i : Nat} (hlo : lo ≤ hi) (hi_le : hi ≤ i)
    (h : setBits x lo hi value = .ok bits) : bits / 2 ^ i = x / 2 ^ i := by
  unfold setBits at h
  split at h
  · rename_i hvalue
    cases h
    have hpow : 2 ^ hi = 2 ^ lo * 2 ^ (hi - lo) := by
      rw [← Nat.pow_add, Nat.add_sub_cancel' hlo]
    have hlow : x % 2 ^ lo + value * 2 ^ lo < 2 ^ hi := by
      have hmod := Nat.mod_lt x (Nat.two_pow_pos lo)
      have hmul := Nat.mul_le_mul_left (2 ^ lo) (Nat.succ_le_of_lt hvalue)
      rw [Nat.mul_succ] at hmul
      rw [hpow, Nat.mul_comm value]
      omega
    have hquot : (x % 2 ^ lo + value * 2 ^ lo + x / 2 ^ hi * 2 ^ hi) / 2 ^ hi = x / 2 ^ hi := by
      rw [Nat.add_mul_div_right _ _ (Nat.two_pow_pos hi), Nat.div_eq_of_lt hlow, Nat.zero_add]
    have hsplit : 2 ^ i = 2 ^ hi * 2 ^ (i - hi) := by
      rw [← Nat.pow_add, Nat.add_sub_cancel' hi_le]
    rw [hsplit, ← Nat.div_div_eq_div_mul, hquot, Nat.div_div_eq_div_mul]
  · cases h

/-- Bits that were set read back. -/
theorem getBits_setBits {x lo hi value bits : Nat} (hlo : lo ≤ hi)
    (h : setBits x lo hi value = .ok bits) : getBits bits lo hi = value := by
  unfold setBits at h
  split at h
  · rename_i hvalue
    cases h
    have hpow : 2 ^ hi = 2 ^ (hi - lo) * 2 ^ lo := by
      rw [← Nat.pow_add, Nat.sub_add_cancel hlo]
    have hsum : x % 2 ^ lo + value * 2 ^ lo + x / 2 ^ hi * 2 ^ hi =
        x % 2 ^ lo + (value + x / 2 ^ hi * 2 ^ (hi - lo)) * 2 ^ lo := by
      rw [hpow]
      ring
    rw [getBits, hsum, Nat.add_mul_div_right _ _ (Nat.two_pow_pos lo),
      Nat.div_eq_of_lt (Nat.mod_lt _ (Nat.two_pow_pos lo)), Nat.zero_add,
      Nat.add_mul_mod_self_right, Nat.mod_eq_of_lt hvalue]
  · cases h

/-- A message control after bits of it were set. -/
theorem MessageControl.toNat_ofNat_bits {control : MessageControl} {lo hi value bits : Nat}
    (hlo : lo ≤ hi) (hhi : hi ≤ 16) (h : setBits control.raw.toNat lo hi value = .ok bits) :
    (UInt16.ofNat bits).toNat = bits := by
  have hraw := control.raw.toNat_lt
  have h16 := setBits_div (i := 16) hlo hhi h
  rw [UInt16.toNat_ofNat']
  omega

/-- Edits below the layout bits of the message control keep the layout. -/
theorem MessageControl.layout_of_setBits {control : MessageControl} {lo hi value bits : Nat}
    (hlo : lo ≤ hi) (hhi : hi ≤ 7) (h : setBits control.raw.toNat lo hi value = .ok bits) :
    (⟨.ofNat bits⟩ : MessageControl).address64BitCapable = control.address64BitCapable ∧
      (⟨.ofNat bits⟩ : MessageControl).perVectorMasking = control.perVectorMasking := by
  have h7 := setBits_div (i := 7) hlo hhi h
  have h8 := setBits_div (i := 8) hlo (by omega) h
  have hword := MessageControl.toNat_ofNat_bits hlo (by omega) h
  simp only [address64BitCapable, perVectorMasking, getBit, getBits, hword, h7, h8, and_self]

namespace MsiCapability

/-- `Edited cap cap'`: `cap'` comes from `cap` by edits of the kinds `configure_msi`
makes, in any number and order. -/
inductive Edited (cap : MsiCapability) : MsiCapability → Prop where
  | refl : Edited cap cap
  | enable {cap' cap'' : MsiCapability} {control : MessageControl} (h : Edited cap cap')
      (value : Bool) (hset : cap'.messageControl.setEnable value = .ok control)
      (hput : cap'.setMessageControl control = .ok cap'') : Edited cap cap''
  | multipleMessageEnable {cap' cap'' : MsiCapability} {control : MessageControl}
      (h : Edited cap cap') (value : UInt16)
      (hset : cap'.messageControl.setMultipleMessageEnable value = .ok control)
      (hput : cap'.setMessageControl control = .ok cap'') : Edited cap cap''
  /-- An address with an upper half only where there is a register for it. -/
  | messageAddress {cap' : MsiCapability} (h : Edited cap cap') (address : UInt64)
      (hupper : cap'.wide = true ∨ (address >>> 32).toUInt32 = 0) :
      Edited cap (cap'.setMessageAddress address)
  | messageData {cap' cap'' : MsiCapability} (h : Edited cap cap') (data : UInt16)
      (hput : cap'.setMessageData data = .ok cap'') : Edited cap cap''

theorem setMessageControl_eq (cap : MsiCapability) (control : MessageControl) :
    cap.setMessageControl control =
      .ok { cap with word0 := .ofNat (cap.word0.toNat % 2 ^ 16 + control.raw.toNat * 2 ^ 16) } := by
  have hword := cap.word0.toNat_lt
  rw [setMessageControl, setBits_of_lt control.raw.toNat_lt, Rust.ok_bind]
  have hzero : cap.word0.toNat / 2 ^ 32 * 2 ^ 32 = 0 := by omega
  rw [hzero, Nat.add_zero]
  rfl

theorem messageControl_setMessageControl {cap cap' : MsiCapability} {control : MessageControl}
    (h : cap.setMessageControl control = .ok cap') :
    cap'.messageControl = control ∧ cap' = { cap with word0 := cap'.word0 } := by
  have hcontrol := control.raw.toNat_lt
  rw [setMessageControl_eq] at h
  cases h
  refine ⟨?_, rfl⟩
  have hraw : UInt16.ofNat (getBits (UInt32.ofNat (cap.word0.toNat % 2 ^ 16 +
      control.raw.toNat * 2 ^ 16)).toNat 16 32) = control.raw := by
    refine UInt16.toNat_inj.mp ?_
    rw [UInt16.toNat_ofNat', UInt32.toNat_ofNat', getBits]
    omega
  rw [messageControl, hraw]

/-- Putting back a message control with the same layout bits keeps the form. -/
theorem WellFormed.setMessageControl {cap cap' : MsiCapability} {control : MessageControl}
    (hwell : cap.WellFormed) (hput : cap.setMessageControl control = .ok cap')
    (hlayout : control.address64BitCapable = cap.wide ∧ control.perVectorMasking = cap.masked) :
    cap'.WellFormed := by
  obtain ⟨hcontrol, heq⟩ := messageControl_setMessageControl hput
  have hwide : cap'.wide = cap.wide := (congrArg _ hcontrol).trans hlayout.1
  have hmask : cap'.masked = cap.masked := (congrArg _ hcontrol).trans hlayout.2
  refine ⟨fun h => ?_, ?_, fun h => ?_⟩
  · rw [heq]
    exact hwell.narrow (hwide ▸ h)
  · rw [heq]
    exact hwell.data
  · rw [heq]
    exact hwell.unmasked (hmask ▸ h)

/-- What the reader returns has nothing outside its layout. -/
theorem wellFormed_ofReads (read : Nat → UInt32) : (ofReads read).WellFormed := by
  refine ⟨fun h => if_neg (Bool.eq_false_iff.mp h), ?_, fun h => ?_⟩
  · exact UInt16.toNat_lt _
  · exact ⟨if_neg (Bool.eq_false_iff.mp h), if_neg (Bool.eq_false_iff.mp h)⟩

theorem Edited.wellFormed {cap cap' : MsiCapability} (hwell : cap.WellFormed)
    (h : cap.Edited cap') : cap'.WellFormed := by
  induction h with
  | refl => exact hwell
  | enable _ value hset hput ih =>
      obtain ⟨bits, hbits, hcontrol⟩ := Rust.bind_eq_ok.mp hset
      cases hcontrol
      exact ih.setMessageControl hput
        (MessageControl.layout_of_setBits (by omega) (by omega) hbits)
  | multipleMessageEnable _ value hset hput ih =>
      obtain ⟨bits, hbits, hcontrol⟩ := Rust.bind_eq_ok.mp hset
      cases hcontrol
      exact ih.setMessageControl hput
        (MessageControl.layout_of_setBits (by omega) (by omega) hbits)
  | messageAddress _ address hupper ih =>
      refine ⟨fun hnarrow => ?_, ih.data, ih.unmasked⟩
      rcases hupper with hwide | hzero
      · exact absurd hwide (Bool.eq_false_iff.mp hnarrow)
      · exact hzero
  | messageData _ data hput ih =>
      rw [setMessageData_eq ih.data] at hput
      cases hput
      exact ⟨ih.narrow, data.toNat_lt, ih.unmasked⟩

/-- The message control that was put back last counts. -/
theorem setMessageControl_setMessageControl {cap cap' : MsiCapability}
    {control : MessageControl} (h : cap.setMessageControl control = .ok cap')
    (control' : MessageControl) :
    cap'.setMessageControl control' = cap.setMessageControl control' := by
  have hlow : cap'.word0.toNat % 2 ^ 16 = cap.word0.toNat % 2 ^ 16 := by
    rw [setMessageControl_eq] at h
    cases h
    rw [UInt32.toNat_ofNat']
    omega
  rw [setMessageControl_eq, setMessageControl_eq, hlow, (messageControl_setMessageControl h).2]

/-- The two branches of `configure_msi` set the smaller of the two values, and go on. -/
theorem setMultipleMessageEnable_min (control : MessageControl) (numVectorExponent : Nat) :
    ∃ value several, value.toNat =
        min control.multipleMessageCapable.toNat (UInt16.ofNat numVectorExponent).toNat ∧
      control.setMultipleMessageEnable value = .ok several ∧
      ∀ k : MessageControl → Rust MsiCapability,
        (if control.multipleMessageCapable ≤ UInt16.ofNat numVectorExponent then
          control.setMultipleMessageEnable control.multipleMessageCapable >>= k
        else control.setMultipleMessageEnable (.ofNat numVectorExponent) >>= k) = k several := by
  have hcapable : control.multipleMessageCapable.toNat < 8 := by
    rw [MessageControl.multipleMessageCapable, UInt16.toNat_ofNat', getBits]
    omega
  have hset {value : UInt16} (hvalue : value.toNat < 8) :
      ∃ several, control.setMultipleMessageEnable value = .ok several :=
    ⟨_, by rw [MessageControl.setMultipleMessageEnable, setBits_of_lt hvalue]; rfl⟩
  by_cases hle : control.multipleMessageCapable ≤ UInt16.ofNat numVectorExponent
  · obtain ⟨several, hseveral⟩ := hset hcapable
    refine ⟨_, several, (min_eq_left (UInt16.le_iff_toNat_le.mp hle)).symm, hseveral, fun k => ?_⟩
    rw [if_pos hle, hseveral, Rust.ok_bind]
  · have hlt := UInt16.lt_iff_toNat_lt.mp (UInt16.not_le.mp hle)
    obtain ⟨several, hseveral⟩ := hset (hlt.trans hcapable)
    refine ⟨_, several, (min_eq_right hlt.le).symm, hseveral, fun k => ?_⟩
    rw [if_neg hle, hseveral, Rust.ok_bind]

theorem setEnable_eq (control : MessageControl) (value : Bool) :
    ∃ enabled, control.setEnable value = .ok enabled :=
  ⟨_, by rw [MessageControl.setEnable, setBits_of_lt (by cases value <;> decide)]; rfl⟩

/-- What `configure_msi` makes of a capability. -/
theorem configure_eq {cap : MsiCapability} (hdata : cap.word3.toNat < 2 ^ 16)
    (msgAddr msgData : UInt32) (numVectorExponent : Nat) :
    ∃ value several enabled control, value.toNat =
        min cap.messageControl.multipleMessageCapable.toNat (UInt16.ofNat numVectorExponent).toNat ∧
      cap.messageControl.setMultipleMessageEnable value = .ok several ∧
      several.setEnable true = .ok enabled ∧ cap.setMessageControl enabled = .ok control ∧
      cap.configure msgAddr msgData numVectorExponent =
        .ok { control with
          word1 := msgAddr, word2 := 0, word3 := msgData.toUInt16.toUInt32 } := by
  obtain ⟨value, several, hvalue, hseveral, hchoice⟩ :=
    setMultipleMessageEnable_min cap.messageControl numVectorExponent
  obtain ⟨enabled, henabled⟩ := setEnable_eq several true
  obtain ⟨control, hput⟩ : ∃ control, cap.setMessageControl enabled = .ok control :=
    ⟨_, setMessageControl_eq _ _⟩
  refine ⟨value, several, enabled, control, hvalue, hseveral, henabled, hput, ?_⟩
  have hword3 : (control.setMessageAddress msgAddr.toUInt64).word3.toNat < 2 ^ 16 := by
    rw [setMessageAddress_lower, (messageControl_setMessageControl hput).2]
    exact hdata
  simp only [configure]
  rw [hchoice, henabled, Rust.ok_bind, hput, Rust.ok_bind, setMessageData_eq hword3,
    setMessageAddress_lower]

/-- `configure_msi` makes edits of these kinds, and none of them panics. -/
theorem configure_edited {cap : MsiCapability} (hdata : cap.word3.toNat < 2 ^ 16)
    (msgAddr msgData : UInt32) (numVectorExponent : Nat) :
    ∃ cap', cap.configure msgAddr msgData numVectorExponent = .ok cap' ∧ cap.Edited cap' := by
  obtain ⟨value, several, enabled, cap₂, -, hseveral, henabled, hput₂, hconfigure⟩ :=
    configure_eq hdata msgAddr msgData numVectorExponent
  refine ⟨_, hconfigure, ?_⟩
  -- the source puts the message control back once; in between it could have put it back
  obtain ⟨cap₁, hput₁⟩ : ∃ cap₁, cap.setMessageControl several = .ok cap₁ :=
    ⟨_, setMessageControl_eq _ _⟩
  have hcontrol := (messageControl_setMessageControl hput₁).1
  have hedit₁ : cap.Edited cap₁ := .multipleMessageEnable .refl value hseveral hput₁
  have hedit₂ : cap.Edited cap₂ := .enable hedit₁ true (by rw [hcontrol, henabled])
    (by rw [setMessageControl_setMessageControl hput₁, hput₂])
  have haddress := setMessageAddress_lower cap₂ msgAddr
  have hedit₃ : cap.Edited (cap₂.setMessageAddress msgAddr.toUInt64) :=
    .messageAddress hedit₂ _ (.inr (congrArg word2 haddress))
  have hword3 : (cap₂.setMessageAddress msgAddr.toUInt64).word3.toNat < 2 ^ 16 := by
    rw [haddress, (messageControl_setMessageControl hput₂).2]
    exact hdata
  refine .messageData hedit₃ msgData.toUInt16 ?_
  rw [setMessageData_eq hword3, haddress]

end MsiCapability

/-- Writing a capability that was read and edited, and reading it again, gives the
same six words; and no dword outside the registers of its layout changes. The
capability may be anywhere up to `0xe8`, and have any of the four layouts. -/
theorem msi_round_trip (space : ConfigSpace) (device : PciDevice) (capAddr : UInt8)
    (hcap : capAddr.toNat ≤ 0xe8) :
    ∃ cap, MsiCapability.new space device capAddr = .ok cap ∧ ∀ cap', cap.Edited cap' →
      ∃ space', writeMsiCapability space device capAddr cap' = .ok space' ∧
        MsiCapability.new space' device capAddr = .ok cap' ∧
        ∀ place, (∀ r ∈ cap'.registers, place ≠ device.place capAddr r.1) →
          space'.at place = space.at place := by
  refine ⟨_, MsiCapability.new_eq space device hcap, fun cap' hedit => ?_⟩
  have hwell := hedit.wellFormed (MsiCapability.wellFormed_ofReads _)
  have hlast : capAddr.toNat + cap'.lastOffset < 256 := by
    have hle := cap'.lastOffset_le
    omega
  obtain ⟨space', hwrite, hat⟩ := writeMsiCapability_eq space device hlast hwell.data
  refine ⟨space', hwrite, ?_, ?_⟩
  · rw [MsiCapability.new_eq space' device hcap,
      ofReads_eq hwell fun k v hmem => read_register hlast hat hmem]
  · intro place houtside
    rw [hat]
    refine applyWrites_of_not_mem fun b hmem => ?_
    obtain ⟨r, hr, heq⟩ := List.mem_map.mp hmem
    exact houtside r hr (Prod.mk.inj heq).1.symm

/-- A function with a 64-bit capable MSI capability with masking at `0x50`. -/
def maskedSpace : ConfigSpace := fun _ _ _ register =>
  if register = 0x50 then 0x01820005 else 0xffffffff

theorem msi_round_trip_masked :
    ∃ cap, MsiCapability.new maskedSpace (.new maskedSpace 0 3 0) 0x50 = .ok cap ∧
      ∀ cap', cap.Edited cap' →
        ∃ space', writeMsiCapability maskedSpace (.new maskedSpace 0 3 0) 0x50 cap' = .ok space' ∧
          MsiCapability.new space' (.new maskedSpace 0 3 0) 0x50 = .ok cap' ∧
          ∀ place, (∀ r ∈ cap'.registers,
              place ≠ (PciDevice.new maskedSpace 0 3 0).place 0x50 r.1) →
            space'.at place = maskedSpace.at place :=
  msi_round_trip maskedSpace (.new maskedSpace 0 3 0) 0x50 (by decide)

end LemolaOs.Pci
