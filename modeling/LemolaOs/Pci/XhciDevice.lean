import LemolaOs.Pci.Msi
import LemolaOs.Pci.Scan

/-!
# Which controller the kernel drives

`init_xhci_controller` of `kernel/src/xhci.rs` takes the first xHCI controller of Intel that the
scan of all buses has listed, and if there is none the first of any vendor. Where the registers of
the controller are is read from its base address registers, one or two of them.
-/

namespace LemolaOs.Pci

open Relation

def ClassCode.matches (code : ClassCode) (base sub interface : UInt8) : Bool :=
  code.base == base && code.sub == sub && code.interface == interface

def ClassCode.isXhciController (code : ClassCode) : Bool := code.matches 0x0c 0x03 0x30

def VendorId.isIntel (id : VendorId) : Bool := id.raw == 0x8086

def PciConfigAddress.newFromBarIndex (bus device function barIndex : UInt8) :
    Option PciConfigAddress :=
  if barIndex ≥ 6 then none else some (.new bus device function (0x10 + barIndex * 4))

/-- `read_bar`. -/
def PciDevice.readBar (space : ConfigSpace) (d : PciDevice) (barIndex : UInt8) : Option UInt64 := do
  let bar := readData space (← PciConfigAddress.newFromBarIndex d.bus d.device d.function barIndex)
  if (bar >>> 1) &&& 0b11 = 0 then return bar.toUInt64
  else
    let barUpper := readData space
      (← PciConfigAddress.newFromBarIndex d.bus d.device d.function (barIndex + 1))
    return bar.toUInt64 ||| (barUpper.toUInt64 <<< 32)

/-- The device that `init_xhci_controller` picks. -/
def findXhciDevice (devices : List PciDevice) : Option PciDevice :=
  match devices.find? fun d => d.classCode.isXhciController && d.vendorId.isIntel with
  | none => devices.find? fun d => d.classCode.isXhciController
  | some d => some d

/-- `init_xhci_controller`, up to `xhc_mmio_base`. -/
def locateXhc (space : ConfigSpace) (fuel : Nat) : Option (Rust (PciDevice × UInt64)) := do
  let devices ← scanAllBus space fuel
  match findXhciDevice devices with
  | none => return .error (.message "xhci device not found")
  | some xhciDevice =>
      match xhciDevice.readBar space 0 with
      | none => return .error (.message "called `Option::unwrap()` on a `None` value")
      | some xhcBar => return .ok (xhciDevice, xhcBar &&& 0xfffffffffffffff0)

/-- The search for the controller ends with `result`. -/
def LocateReturns (space : ConfigSpace) (result : Rust (PciDevice × UInt64)) : Prop :=
  ∃ depth, ∀ fuel, depth ≤ fuel → locateXhc space fuel = some result

/-- A function that the scan of all buses comes to. -/
def Reached (space : ConfigSpace) (x : PciDevice) : Prop :=
  ∃ start bus device function, StartsAt space start ∧ ReflTransGen (BridgeTo space) start bus ∧
    Exposed space bus device function ∧ x = PciDevice.new space bus device function

/-- The low bits of a base address register of memory. -/
def barFlags (wide prefetchable : Bool) : UInt32 :=
  (if wide then 0b100 else 0) ||| if prefetchable then 0b1000 else 0

/-- The first base address registers of the function tell of memory at an address. -/
structure MemoryBar (space : ConfigSpace) (x : PciDevice) (wide prefetchable : Bool)
    (address : UInt64) : Prop where
  aligned : address.toNat % 16 = 0
  lower : space x.bus x.device x.function 0x10 = address.toUInt32 ||| barFlags wide prefetchable
  upper : if wide then space x.bus x.device x.function 0x14 = (address >>> 32).toUInt32
    else address.toNat < 2 ^ 32

section Bar

variable {space : ConfigSpace} {bus device function : UInt8} {x : PciDevice} {address : UInt64}
  {wide prefetchable : Bool} {bar : UInt32}

theorem toNat_baseAddress (bar : UInt64) :
    (bar &&& 0xfffffffffffffff0).toNat = bar.toNat / 16 * 16 := by
  have hmask : (0xfffffffffffffff0 : UInt64).toNat = (2 ^ 60 - 1) <<< 4 := rfl
  have hshift : bar.toNat / 16 * 16 = (bar.toNat >>> 4) <<< 4 := by
    rw [Nat.shiftRight_eq_div_pow, Nat.shiftLeft_eq]
  rw [UInt64.toNat_and, hmask, hshift]
  refine Nat.eq_of_testBit_eq fun i => ?_
  rw [Nat.testBit_and, Nat.testBit_shiftLeft, Nat.testBit_shiftLeft, Nat.testBit_two_pow_sub_one,
    Nat.testBit_shiftRight]
  by_cases hi : 4 ≤ i
  · rw [Nat.add_sub_cancel' hi]
    by_cases hhigh : i < 64
    · simp [hi, show i - 4 < 60 by omega]
    · have hlt : bar.toNat < 2 ^ i :=
        Nat.lt_of_lt_of_le bar.toNat_lt (Nat.pow_le_pow_right (by decide) (by omega))
      simp [Nat.testBit_lt_two_pow hlt]
  · simp [hi]

/-- The bits that tell the width. -/
theorem toNat_type (bar : UInt32) : ((bar >>> 1) &&& 0b11).toNat = bar.toNat / 2 % 4 := by
  rw [UInt32.toNat_and, UInt32.toNat_shiftRight, show (0b11 : UInt32).toNat = 2 ^ 2 - 1 from rfl,
    Nat.and_two_pow_sub_one_eq_mod, show (1 : UInt32).toNat % 32 = 1 from rfl,
    Nat.shiftRight_eq_div_pow]

theorem toNat_barFlags (wide prefetchable : Bool) :
    (barFlags wide prefetchable).toNat =
      (if wide then 4 else 0) + if prefetchable then 8 else 0 := by
  cases wide <;> cases prefetchable <;> rfl

/-- The flags stand where the address has zeros. -/
theorem toNat_lower (haligned : address.toNat % 16 = 0) (wide prefetchable : Bool) :
    (address.toUInt32 ||| barFlags wide prefetchable).toNat =
      address.toNat % 2 ^ 32 + ((if wide then 4 else 0) + if prefetchable then 8 else 0) := by
  have hflags : (barFlags wide prefetchable).toNat < 2 ^ 4 := by
    rw [toNat_barFlags]
    cases wide <;> cases prefetchable <;> decide
  have hlow : address.toNat % 2 ^ 32 = 2 ^ 4 * (address.toNat % 2 ^ 32 / 2 ^ 4) := by omega
  rw [UInt32.toNat_or, UInt64.toNat_toUInt32, hlow, ← Nat.two_pow_add_eq_or_of_lt hflags,
    toNat_barFlags]

/-- `read_bar(0)`, by the two dwords that it may read. -/
theorem readBar_eq {lower upper : UInt32}
    (hlower : readData space (.new x.bus x.device x.function 0x10) = lower)
    (hupper : readData space (.new x.bus x.device x.function 0x14) = upper) :
    x.readBar space 0 = some (if (lower >>> 1) &&& 0b11 = 0 then lower.toUInt64
      else lower.toUInt64 ||| (upper.toUInt64 <<< 32)) := by
  have hfirst : PciConfigAddress.newFromBarIndex x.bus x.device x.function 0 =
      some (.new x.bus x.device x.function 0x10) := rfl
  have hnext : PciConfigAddress.newFromBarIndex x.bus x.device x.function (0 + 1) =
      some (.new x.bus x.device x.function 0x14) := rfl
  rw [PciDevice.readBar, hfirst, hnext, ← hlower, ← hupper]
  simp only [Option.bind_eq_bind, Option.bind_some]
  split <;> rfl

/-- The address is read back. -/
theorem MemoryBar.readBar (h : MemoryBar space x wide prefetchable address)
    (hdevice : x.device.toNat < 32) (hfunction : x.function.toNat < 8) :
    ∃ bar, x.readBar space 0 = some bar ∧ bar &&& 0xfffffffffffffff0 = address := by
  have hlower : readData space (.new x.bus x.device x.function 0x10) =
      address.toUInt32 ||| barFlags wide prefetchable :=
    (readData_new space x.bus hdevice hfunction 0x10).trans h.lower
  refine ⟨_, readBar_eq hlower rfl, UInt64.toNat_inj.mp ?_⟩
  have hnat := toNat_lower h.aligned wide prefetchable
  have htype := toNat_type (address.toUInt32 ||| barFlags wide prefetchable)
  have haligned := h.aligned
  have hupper := h.upper
  have hlt := address.toNat_lt
  rw [hnat] at htype
  rw [toNat_baseAddress]
  cases wide with
  | false =>
      have hzero : ((address.toUInt32 ||| barFlags false prefetchable) >>> 1) &&& 0b11 = 0 := by
        refine UInt32.toNat_inj.mp (htype.trans ?_)
        cases prefetchable <;> simp <;> omega
      simp only [Bool.false_eq_true, if_false] at hupper
      rw [if_pos hzero, UInt32.toNat_toUInt64, hnat]
      cases prefetchable <;> simp <;> omega
  | true =>
      have hne : ((address.toUInt32 ||| barFlags true prefetchable) >>> 1) &&& 0b11 ≠ 0 := by
        intro heq
        rw [heq, UInt32.toNat_zero] at htype
        cases prefetchable <;> simp at htype <;> omega
      have hbarUpper : readData space (.new x.bus x.device x.function 0x14) =
          (address >>> 32).toUInt32 :=
        (readData_new space x.bus hdevice hfunction 0x14).trans hupper
      rw [if_neg hne, hbarUpper, UInt64.or_comm, toNat_address, hnat, UInt64.toNat_toUInt32,
        UInt64.toNat_shiftRight, show (32 : UInt64).toNat % 64 = 32 from rfl,
        Nat.shiftRight_eq_div_pow]
      cases prefetchable <;> simp <;> omega

end Bar

/-- The controller and its address, by what the scan has listed. -/
structure Located (space : ConfigSpace) (devices : List PciDevice) (x : PciDevice) (base : UInt64) :
    Prop where
  xhci : x.classCode.isXhciController = true
  /-- A controller that was listed before is not of Intel, and this one is. -/
  first : ∃ before after, devices = before ++ x :: after ∧
    ∀ y ∈ before, y.classCode.isXhciController = true →
      x.vendorId.isIntel = true ∧ y.vendorId.isIntel = false
  /-- The kernel does with another vendor only where there is no controller of Intel. -/
  other : x.vendorId.isIntel = false → ∀ y ∈ devices, y.classCode.isXhciController = true →
    y.vendorId.isIntel = false
  base_eq : ∀ wide prefetchable address, MemoryBar space x wide prefetchable address →
    base = address

section Locate

variable {space : ConfigSpace} {devices : List PciDevice} {x : PciDevice}

theorem mem_scanAllBus_iff (absent : AbsentReadsOnes space) {fuel : Nat}
    (h : listParts (walk (busParts space) fuel) (startParts space) = some devices) :
    x ∈ devices ↔ Reached space x := by
  rw [mem_listParts h]
  constructor
  · rintro (hitem | ⟨start, found, hstart, hfound, hmem⟩)
    · exact absurd hitem (item_notMem_startParts x)
    · obtain ⟨bus, device, function, hbus, hexposed, hx⟩ := (mem_walk_iff absent hfound).mp hmem
      exact ⟨start, bus, device, function, node_mem_startParts.mp hstart, hbus, hexposed, hx⟩
  · rintro ⟨start, bus, device, function, hstart, hbus, hexposed, hx⟩
    have hnode := node_mem_startParts.mpr hstart
    obtain ⟨found, hfound⟩ := exists_of_listParts h hnode
    exact .inr ⟨start, found, hnode, hfound,
      (mem_walk_iff absent hfound).mpr ⟨bus, device, function, hbus, hexposed, hx⟩⟩

theorem findXhciDevice_eq_none_iff :
    findXhciDevice devices = none ↔ ∀ y ∈ devices, y.classCode.isXhciController = false := by
  rw [findXhciDevice]
  constructor
  · intro h y hy
    split at h
    · simpa using List.find?_eq_none.mp h y hy
    · cases h
  · intro h
    have hnone (p : PciDevice → Bool) :
        devices.find? (fun d => d.classCode.isXhciController && p d) = none :=
      List.find?_eq_none.mpr fun y hy => by simp [h y hy]
    rw [hnone]
    exact List.find?_eq_none.mpr fun y hy => by simp [h y hy]

theorem mem_of_findXhciDevice (h : findXhciDevice devices = some x) : x ∈ devices := by
  rw [findXhciDevice] at h
  split at h
  · exact List.mem_of_find?_eq_some h
  next hintel =>
    cases h
    exact List.mem_of_find?_eq_some hintel

/-- What the two searches make of the list. -/
theorem located_of_find {base : UInt64} (h : findXhciDevice devices = some x)
    (hbase : ∀ wide prefetchable address, MemoryBar space x wide prefetchable address →
      base = address) : Located space devices x base := by
  rw [findXhciDevice] at h
  split at h
  next hintel =>
    have hothers : ∀ y ∈ devices, y.classCode.isXhciController = true →
        y.vendorId.isIntel = false := by
      intro y hy hyx
      simpa [hyx] using List.find?_eq_none.mp hintel y hy
    obtain ⟨hx, before, after, hsplit, hbefore⟩ := List.find?_eq_some_iff_append.mp h
    refine ⟨hx, ⟨before, after, hsplit, fun y hy hyx => ?_⟩, fun _ => hothers, hbase⟩
    exact absurd (hbefore y hy) (by simp [hyx])
  next d hintel =>
    cases h
    obtain ⟨hx, before, after, hsplit, hbefore⟩ := List.find?_eq_some_iff_append.mp hintel
    rw [Bool.and_eq_true] at hx
    refine ⟨hx.1, ⟨before, after, hsplit, fun y hy hyx => ⟨hx.2, ?_⟩⟩, fun hno => ?_, hbase⟩
    · simpa [hyx] using hbefore y hy
    · rw [hx.2] at hno
      cases hno

/-- The search for the controller ends. It fails if and only if the scan comes to no controller. -/
theorem xhc_located (space : ConfigSpace) (wf : WellFormed space) :
    ∃ devices result, (∀ x, x ∈ devices ↔ Reached space x) ∧ ScanAllBusReturns space devices ∧
      LocateReturns space result ∧
      ((∀ x, Reached space x → x.classCode.isXhciController = false) →
        result = .error (.message "xhci device not found")) ∧
      ((∃ x, Reached space x ∧ x.classCode.isXhciController = true) →
        ∃ x base, result = .ok (x, base) ∧ Located space devices x base) := by
  obtain ⟨fuel, devices, hdevices⟩ := exists_listParts
    fun start (_ : .node start ∈ startParts space) => wf.exists_walk start
  have hmem x := mem_scanAllBus_iff (x := x) wf.absent hdevices
  have hreturns : ScanAllBusReturns space devices := scanAllBusReturns_iff.mpr ⟨fuel, hdevices⟩
  obtain ⟨depth, hscan⟩ := hreturns
  cases hfind : findXhciDevice devices with
  | none =>
      have hnone := findXhciDevice_eq_none_iff.mp hfind
      refine ⟨devices, .error (.message "xhci device not found"), hmem, ⟨depth, hscan⟩,
        ⟨depth, fun fuel hle => ?_⟩, fun _ => rfl, ?_⟩
      · rw [locateXhc, hscan fuel hle]
        simp only [Option.bind_eq_bind, Option.bind_some, hfind]
        rfl
      · rintro ⟨x, hx, hxhci⟩
        rw [hnone x ((hmem x).mpr hx)] at hxhci
        cases hxhci
  | some x =>
      have hx : Reached space x := (hmem x).mp (mem_of_findXhciDevice hfind)
      obtain ⟨bar, hbar⟩ : ∃ bar, x.readBar space 0 = some bar := ⟨_, readBar_eq rfl rfl⟩
      refine ⟨devices, .ok (x, bar &&& 0xfffffffffffffff0), hmem, ⟨depth, hscan⟩,
        ⟨depth, fun fuel hle => ?_⟩, fun hno => ?_,
        fun _ => ⟨x, _, rfl, located_of_find hfind fun wide prefetchable address h => ?_⟩⟩
      · rw [locateXhc, hscan fuel hle]
        simp only [Option.bind_eq_bind, Option.bind_some, hfind, hbar]
        rfl
      · rw [findXhciDevice_eq_none_iff.mpr fun y hy => hno y ((hmem y).mp hy)] at hfind
        cases hfind
      · obtain ⟨start, bus, device, function, -, -, hexposed, rfl⟩ := hx
        obtain ⟨bar', hbar', heq⟩ := h.readBar hexposed.device_lt hexposed.function_lt
        rwa [Option.some_inj.mp (hbar.symm.trans hbar')]

end Locate

section DesktopPc

/-- A machine with a host bridge and a controller whose registers are above 32 GiB. -/
def desktopPc : ConfigSpace := fun bus device function register =>
  if bus = 0 ∧ device = 0 ∧ function = 0 then
    if register = 0 then 0x12378086 else if register = 0x08 then 0x06000002 else 0
  else if bus = 0 ∧ device = 4 ∧ function = 0 then
    if register = 0 then 0x000d1b36
    else if register = 0x08 then 0x0c033001
    else if register = 0x10 then 0x00004004
    else if register = 0x14 then 0x00000008
    else 0
  else 0xffffffff

variable {bus device function : UInt8}

/-- Nothing else is there. -/
theorem desktopPc_exposed (h : Exposed desktopPc bus device function) :
    bus = 0 ∧ function = 0 ∧ (device = 0 ∨ device = 4) := by
  by_contra hnot
  have hpresent := h.present
  have hhost : ¬ (bus = 0 ∧ device = 0 ∧ function = 0) :=
    fun heq => hnot ⟨heq.1, heq.2.2, .inl heq.2.1⟩
  have hxhc : ¬ (bus = 0 ∧ device = 4 ∧ function = 0) :=
    fun heq => hnot ⟨heq.1, heq.2.2, .inr heq.2.1⟩
  rw [Present, VendorId.new, readData_new _ _ h.device_lt h.function_lt, desktopPc, if_neg hhost,
    if_neg hxhc] at hpresent
  exact absurd hpresent (by decide)

theorem desktopPc_bridgeAt {secondary : UInt8} :
    ¬ BridgeAt desktopPc bus device function secondary := by
  intro h
  obtain ⟨rfl, rfl, rfl | rfl⟩ := desktopPc_exposed h.exposed
  · exact absurd h.bridge (by decide +kernel)
  · exact absurd h.bridge (by decide +kernel)

theorem desktopPc_wellFormed : WellFormed desktopPc where
  absent bus device function hdevice hfunction hpresent register := by
    rw [desktopPc, if_neg, if_neg]
    · rintro ⟨rfl, rfl, rfl⟩
      exact hpresent (by rw [Present]; decide +kernel)
    · rintro ⟨rfl, rfl, rfl⟩
      exact hpresent (by rw [Present]; decide +kernel)
  increasing _ _ _ _ h := absurd h desktopPc_bridgeAt
  unique _ _ _ _ _ _ _ h _ := absurd h desktopPc_bridgeAt

theorem xhc_located_desktopPc :
    LocateReturns desktopPc (.ok (PciDevice.new desktopPc 0 4 0, 0x800004000)) := by
  have hpresent : Exposed desktopPc 0 4 0 :=
    ⟨by decide, by decide, by rw [Present]; decide +kernel, .inl rfl⟩
  have hstart : StartsAt desktopPc 0 := by
    rw [StartsAt, if_neg (by decide +kernel)]
  have hclass : (PciDevice.new desktopPc 0 4 0).classCode.isXhciController = true := by
    decide +kernel
  obtain ⟨devices, result, hmem, -, hreturns, -, hfound⟩ :=
    xhc_located desktopPc desktopPc_wellFormed
  obtain ⟨x, base, rfl, hlocated⟩ := hfound ⟨_, ⟨0, 0, 4, 0, hstart, .refl, hpresent, rfl⟩, hclass⟩
  obtain ⟨before, after, hsplit, -⟩ := hlocated.first
  obtain ⟨_, bus, device, function, -, -, hexposed, rfl⟩ :=
    (hmem x).mp (hsplit ▸ List.mem_append_right _ List.mem_cons_self)
  obtain ⟨rfl, rfl, rfl | rfl⟩ := desktopPc_exposed hexposed
  · exact absurd hlocated.xhci (by decide +kernel)
  · rwa [hlocated.base_eq true false 0x800004000 ⟨by decide, by decide +kernel, by
      rw [if_pos rfl]; decide +kernel⟩] at hreturns

end DesktopPc

end LemolaOs.Pci
