import LemolaOs.Library.Walk

/-!
# The PCI configuration space and its scan

The configuration space is read through two I/O ports: an address goes out, the dword
comes in. `ConfigSpace` is what the hardware answers for each bus, device, function and
register; nothing changes it during a scan.

`scan_bus`, `scan_device` and `scan_function` call each other, and `scan_function` goes
on to the bus that a bridge names, whatever that bus is. The model bounds how deeply calls
of `scan_bus` are nested by `fuel`; `none` says that the bound was too small, and a scan
for which every bound is too small does not return.
-/

namespace LemolaOs.Pci

/-- The dword in each register, by bus, device, function and register. -/
abbrev ConfigSpace := UInt8 → UInt8 → UInt8 → UInt8 → UInt32

/-- `PciConfigAddress(u32)`. -/
structure PciConfigAddress where
  raw : UInt32
  deriving DecidableEq

def PciConfigAddress.new (bus device function register : UInt8) : PciConfigAddress :=
  ⟨((1 : UInt32) <<< 31) ||| (bus.toUInt32 <<< 16) ||| (device.toUInt32 <<< 11) |||
    (function.toUInt32 <<< 8) ||| (register &&& 0b11111100).toUInt32⟩

/-- `read_data`: the hardware takes the bus from bits 16 to 23 of the address, the device
from bits 11 to 15, the function from bits 8 to 10 and the register from bits 2 to 7. -/
def readData (space : ConfigSpace) (address : PciConfigAddress) : UInt32 :=
  space (address.raw >>> 16).toUInt8 ((address.raw >>> 11).toUInt8 &&& 0b11111)
    ((address.raw >>> 8).toUInt8 &&& 0b111) (address.raw.toUInt8 &&& 0b11111100)

/-- `VendorId(u16)`. -/
structure VendorId where
  raw : UInt16
  deriving DecidableEq

namespace VendorId

def fromRaw (rawData : UInt32) : VendorId := ⟨rawData.toUInt16⟩

def new (space : ConfigSpace) (bus device function : UInt8) : VendorId :=
  fromRaw (readData space (.new bus device function 0))

def isValid (id : VendorId) : Bool := id.raw != 0xffff

end VendorId

/-- `DeviceId(u16)`. -/
structure DeviceId where
  raw : UInt16
  deriving DecidableEq

def DeviceId.fromRaw (rawData : UInt32) : DeviceId := ⟨(rawData >>> 16).toUInt16⟩

/-- `HeaderType(u8)`. -/
structure HeaderType where
  raw : UInt8
  deriving DecidableEq

namespace HeaderType

def fromRaw (rawData : UInt32) : HeaderType := ⟨((rawData >>> 16) &&& 0xff).toUInt8⟩

def new (space : ConfigSpace) (bus device function : UInt8) : HeaderType :=
  fromRaw (readData space (.new bus device function 0x0c))

def isGenericDevice (type : HeaderType) : Bool := type.raw == 0

def isPciToPciBridge (type : HeaderType) : Bool := type.raw == 1

def isMultiFunction (type : HeaderType) : Bool := type.raw &&& 0x80 != 0

end HeaderType

structure ClassCode where
  base : UInt8
  sub : UInt8
  interface : UInt8
  deriving DecidableEq

namespace ClassCode

def fromRaw (rawData : UInt32) : ClassCode where
  base := ((rawData >>> 24) &&& 0xff).toUInt8
  sub := ((rawData >>> 16) &&& 0xff).toUInt8
  interface := ((rawData >>> 8) &&& 0xff).toUInt8

def new (space : ConfigSpace) (bus device function : UInt8) : ClassCode :=
  fromRaw (readData space (.new bus device function 0x08))

end ClassCode

/-- `BusNumber(u32)`. -/
structure BusNumber where
  raw : UInt32

namespace BusNumber

def new (space : ConfigSpace) (bus device function : UInt8) : BusNumber :=
  ⟨readData space (.new bus device function 0x18)⟩

def secondaryBusNumber (number : BusNumber) : UInt8 := (number.raw >>> 8).toUInt8

end BusNumber

structure PciDevice where
  vendorId : VendorId
  deviceId : DeviceId
  classCode : ClassCode
  headerType : HeaderType
  bus : UInt8
  device : UInt8
  function : UInt8
  deriving DecidableEq

namespace PciDevice

def new (space : ConfigSpace) (bus device function : UInt8) : PciDevice :=
  let rawData := readData space (.new bus device function 0)
  { vendorId := .fromRaw rawData
    deviceId := .fromRaw rawData
    headerType := .new space bus device function
    classCode := .new space bus device function
    bus, device, function }

def isStandardPciPciBridge (device : PciDevice) : Bool :=
  device.classCode.base == 0x06 && device.classCode.sub == 0x04

end PciDevice

/-- `lo..hi` on `u8`. -/
def u8Range (lo hi : Nat) : List UInt8 := (List.range' lo (hi - lo)).map UInt8.ofNat

/-- A function that appends to `devices`. -/
abbrev Scan := List PciDevice → Option (List PciDevice)

def scanFunction (space : ConfigSpace) (scanBus : UInt8 → Scan) (bus device function : UInt8) :
    Scan := fun devices => do
  let pciDevice := PciDevice.new space bus device function
  let devices ←
    if pciDevice.isStandardPciPciBridge then
      let secondaryBusNumber := (BusNumber.new space bus device function).secondaryBusNumber
      scanBus secondaryBusNumber devices
    else some devices
  if pciDevice.vendorId.isValid then some (devices ++ [pciDevice]) else some devices

def scanDevice (space : ConfigSpace) (scanBus : UInt8 → Scan) (bus device : UInt8) : Scan :=
  fun devices =>
  let headerType := HeaderType.new space bus device 0
  if headerType.isMultiFunction then
    (u8Range 0 8).foldlM
      (fun devices function => scanFunction space scanBus bus device function devices) devices
  else scanFunction space scanBus bus device 0 devices

def scanBus (space : ConfigSpace) : Nat → UInt8 → Scan
  | 0, _, _ => none
  | fuel + 1, bus, devices =>
      (u8Range 0 32).foldlM (fun devices device =>
        let vendorId := VendorId.new space bus device 0
        if !vendorId.isValid then some devices
        else scanDevice space (scanBus space fuel) bus device devices) devices

def scanAllBus (space : ConfigSpace) (fuel : Nat) : Option (List PciDevice) :=
  let headerType := HeaderType.new space 0 0 0
  if !headerType.isMultiFunction then scanBus space fuel 0 []
  else
    (u8Range 1 8).foldlM (fun devices function =>
      let vendorId := VendorId.new space 0 0 function
      if !vendorId.isValid then some devices else scanBus space fuel function devices) []

/-- `scan_bus` returns, having made `devices` into `out`. -/
def ScanBusReturns (space : ConfigSpace) (bus : UInt8) (devices out : List PciDevice) : Prop :=
  ∃ depth, ∀ fuel, depth ≤ fuel → scanBus space fuel bus devices = some out

/-- `scan_all_bus` returns `out`. -/
def ScanAllBusReturns (space : ConfigSpace) (out : List PciDevice) : Prop :=
  ∃ depth, ∀ fuel, depth ≤ fuel → scanAllBus space fuel = some out

@[simp] theorem mem_u8Range {lo hi : Nat} (hhi : hi ≤ 256) {i : UInt8} :
    i ∈ u8Range lo hi ↔ lo ≤ i.toNat ∧ i.toNat < hi := by
  simp only [u8Range, List.mem_map, List.mem_range'_1]
  constructor
  · rintro ⟨k, hk, rfl⟩
    have hmod : k % 2 ^ 8 = k := Nat.mod_eq_of_lt (by omega)
    rw [UInt8.toNat_ofNat', hmod]
    omega
  · intro hi
    exact ⟨i.toNat, by omega, UInt8.ofNat_toNat⟩

theorem nodup_u8Range {lo hi : Nat} (hhi : hi ≤ 256) : (u8Range lo hi).Nodup := by
  refine List.Nodup.map_on ?_ List.nodup_range'
  intro i hi j hj hij
  rw [List.mem_range'_1] at hi hj
  have h := congrArg UInt8.toNat hij
  rw [UInt8.toNat_ofNat', UInt8.toNat_ofNat', Nat.mod_eq_of_lt (by omega),
    Nat.mod_eq_of_lt (by omega)] at h
  exact h

theorem high_bit_eq_false {x : UInt8} {k i : Nat} (hx : x.toNat < 2 ^ k) (hk : k ≤ i) (hi : i < 8) :
    x.toBitVec[i] = false :=
  Nat.testBit_lt_two_pow (Nat.lt_of_lt_of_le hx (Nat.pow_le_pow_right (by decide) hk))

/-- The fields of an address do not overlap. -/
theorem readData_new (space : ConfigSpace) (bus : UInt8) {device function : UInt8}
    (hdevice : device.toNat < 32) (hfunction : function.toNat < 8) (register : UInt8) :
    readData space (.new bus device function register) =
      space bus device function (register &&& 0b11111100) := by
  have hhigh (i : Nat) (hi : i < 8) (h : 5 ≤ i) : device.toBitVec[i] = false :=
    high_bit_eq_false (k := 5) hdevice h hi
  have hhigh' (i : Nat) (hi : i < 8) (h : 3 ≤ i) : function.toBitVec[i] = false :=
    high_bit_eq_false (k := 3) hfunction h hi
  rw [readData, PciConfigAddress.new]
  congr 1
  · apply UInt8.toBitVec_inj.mp
    ext i hi
    interval_cases i <;> simp [hhigh]
  · apply UInt8.toBitVec_inj.mp
    ext i hi
    interval_cases i <;> simp [hhigh, hhigh']
  · apply UInt8.toBitVec_inj.mp
    ext i hi
    interval_cases i <;> simp [hhigh']
  · apply UInt8.toBitVec_inj.mp
    ext i hi
    interval_cases i <;> simp

end LemolaOs.Pci
