import Mathlib.Data.FinEnum
import LemolaOs.Pci.Register

/-!
# What a scan of the PCI buses finds

A scan is a walk: at a bus it meets the functions of the devices in order, goes on to
the bus behind a function that is a bridge, and lists the function. The results about
walks then say when a scan returns and what it lists.

`scan_all_bus` starts at bus 0 if the host bridge has one function. Otherwise it starts
at the buses whose numbers are those of the other functions of the host bridge, and bus 0
is not among them.
-/

namespace LemolaOs.Pci

open Relation

/-- The function answers with a valid vendor id. -/
def Present (space : ConfigSpace) (bus device function : UInt8) : Prop :=
  (VendorId.new space bus device function).isValid = true

/-- Absent functions read all-ones. -/
def AbsentReadsOnes (space : ConfigSpace) : Prop :=
  ∀ bus device function : UInt8, device.toNat < 32 → function.toNat < 8 →
    ¬ Present space bus device function →
      ∀ register, space bus device function register = 0xffffffff

/-- A present function that is the first of its device, or whose device has several. -/
structure Exposed (space : ConfigSpace) (bus device function : UInt8) : Prop where
  device_lt : device.toNat < 32
  function_lt : function.toNat < 8
  present : Present space bus device function
  first_or_multi : function = 0 ∨
    Present space bus device 0 ∧ (HeaderType.new space bus device 0).isMultiFunction = true

/-- The function is a PCI-PCI bridge to the bus `secondary`. -/
structure BridgeAt (space : ConfigSpace) (bus device function secondary : UInt8) : Prop where
  exposed : Exposed space bus device function
  bridge : (PciDevice.new space bus device function).isStandardPciPciBridge = true
  secondary : (BusNumber.new space bus device function).secondaryBusNumber = secondary

/-- Some function on the bus is a bridge to `secondary`. -/
def BridgeTo (space : ConfigSpace) (bus secondary : UInt8) : Prop :=
  ∃ device function, BridgeAt space bus device function secondary

/-- Bridges form a tree with increasing bus numbers. -/
structure WellFormed (space : ConfigSpace) : Prop where
  absent : AbsentReadsOnes space
  increasing : ∀ bus device function secondary,
    BridgeAt space bus device function secondary → bus < secondary
  unique : ∀ bus device function bus' device' function' secondary,
    BridgeAt space bus device function secondary →
    BridgeAt space bus' device' function' secondary →
      bus = bus' ∧ device = device' ∧ function = function'

/-- A machine with a host bridge, and a bridge to the bus `secondary` on which nothing is. -/
def machine (headerType secondary : UInt8) : ConfigSpace := fun bus device function register =>
  if bus = 0 ∧ device = 0 ∧ function = 0 then
    if register = 0 then 0x12378086
    else if register = 0x08 then 0x06000002
    else if register = 0x0c then headerType.toUInt32 <<< 16
    else 0
  else if bus = 0 ∧ device = 1 ∧ function = 0 then
    if register = 0 then 0x00011b36
    else if register = 0x08 then 0x06040000
    else if register = 0x0c then 0x00010000
    else if register = 0x18 then secondary.toUInt32 <<< 8
    else 0
  else 0xffffffff

section Parts

variable (space : ConfigSpace) (bus : UInt8)

/-- The functions that the scan of a bus looks at, in order. -/
def addresses : List (UInt8 × UInt8) :=
  (u8Range 0 32).flatMap fun device =>
    if (VendorId.new space bus device 0).isValid then
      (if (HeaderType.new space bus device 0).isMultiFunction then u8Range 0 8 else [0]).map
        (device, ·)
    else []

/-- What `scan_function` does at a function. -/
def functionParts (address : UInt8 × UInt8) : List (Part UInt8 PciDevice) :=
  (if (PciDevice.new space bus address.1 address.2).isStandardPciPciBridge then
    [.node (BusNumber.new space bus address.1 address.2).secondaryBusNumber] else []) ++
  if (PciDevice.new space bus address.1 address.2).vendorId.isValid then
    [.item (PciDevice.new space bus address.1 address.2)] else []

def busParts : List (Part UInt8 PciDevice) :=
  (addresses space bus).flatMap (functionParts space bus)

end Parts

section Machine

variable {headerType secondary bus device function : UInt8}

/-- A register of a device of the machine, by its number. -/
theorem readData_machine {register : UInt8} (hdevice : device.toNat < 32)
    (hregister : register &&& 0b11111100 = register) :
    readData (machine headerType secondary) (.new 0 device 0 register) =
      machine headerType secondary 0 device 0 register := by
  rw [readData_new _ _ hdevice (by decide), hregister]

/-- The registers of the machine that the scan reads. -/
theorem machine_host : VendorId.new (machine headerType secondary) 0 0 0 = ⟨0x8086⟩ ∧
    ClassCode.new (machine headerType secondary) 0 0 0 = ⟨0x06, 0x00, 0x00⟩ := by
  constructor
  · rw [VendorId.new, readData_machine (by decide) (by decide)]
    simp [machine]
    decide
  · rw [ClassCode.new, readData_machine (by decide) (by decide)]
    simp [machine]
    decide

theorem machine_bridge : VendorId.new (machine headerType secondary) 0 1 0 = ⟨0x1b36⟩ ∧
    ClassCode.new (machine headerType secondary) 0 1 0 = ⟨0x06, 0x04, 0x00⟩ ∧
    (BusNumber.new (machine headerType secondary) 0 1 0).secondaryBusNumber = secondary := by
  refine ⟨?_, ?_, ?_⟩
  · rw [VendorId.new, readData_machine (by decide) (by decide)]
    simp [machine]
    decide
  · rw [ClassCode.new, readData_machine (by decide) (by decide)]
    simp [machine]
    decide
  · rw [BusNumber.new, readData_machine (by decide) (by decide)]
    simp [machine, BusNumber.secondaryBusNumber]
    apply UInt8.toBitVec_inj.mp
    ext i hi
    interval_cases i <;> simp

theorem machine_ones (hhost : ¬ (bus = 0 ∧ device = 0 ∧ function = 0))
    (hbridge : ¬ (bus = 0 ∧ device = 1 ∧ function = 0)) (register : UInt8) :
    machine headerType secondary bus device function register = 0xffffffff := by
  rw [machine, if_neg hhost, if_neg hbridge]

theorem machine_absent (headerType secondary : UInt8) :
    AbsentReadsOnes (machine headerType secondary) := by
  intro bus device function _ _ hpresent
  apply machine_ones
  · rintro ⟨rfl, rfl, rfl⟩
    rw [Present, machine_host.1] at hpresent
    exact hpresent rfl
  · rintro ⟨rfl, rfl, rfl⟩
    rw [Present, machine_bridge.1] at hpresent
    exact hpresent rfl

theorem machine_bridgeAt {c : UInt8}
    (h : BridgeAt (machine headerType secondary) bus device function c) :
    bus = 0 ∧ device = 1 ∧ function = 0 ∧ c = secondary := by
  by_cases hbridge : bus = 0 ∧ device = 1 ∧ function = 0
  · obtain ⟨rfl, rfl, rfl⟩ := hbridge
    exact ⟨rfl, rfl, rfl, h.secondary.symm.trans machine_bridge.2.2⟩
  · exfalso
    by_cases hhost : bus = 0 ∧ device = 0 ∧ function = 0
    · obtain ⟨rfl, rfl, rfl⟩ := hhost
      have hcode := h.bridge
      rw [PciDevice.isStandardPciPciBridge,
        show (PciDevice.new (machine headerType secondary) 0 0 0).classCode = _ from
          machine_host.2] at hcode
      exact absurd hcode (by decide)
    · have hpresent := h.exposed.present
      rw [Present, VendorId.new, readData_new _ _ h.exposed.device_lt h.exposed.function_lt,
        machine_ones hhost hbridge] at hpresent
      exact absurd hpresent (by decide)

theorem machine_bridgeTo (headerType secondary : UInt8) :
    BridgeTo (machine headerType secondary) 0 secondary := by
  refine ⟨1, 0, ⟨by decide, by decide, ?_, .inl rfl⟩, ?_, machine_bridge.2.2⟩
  · rw [Present, machine_bridge.1]
    rfl
  · rw [PciDevice.isStandardPciPciBridge,
      show (PciDevice.new (machine headerType secondary) 0 1 0).classCode = _ from
        machine_bridge.2.1]
    rfl

theorem machine_wellFormed (hsecondary : 0 < secondary) :
    WellFormed (machine headerType secondary) where
  absent := machine_absent headerType secondary
  increasing bus device function c h := by
    obtain ⟨rfl, -, -, rfl⟩ := machine_bridgeAt h
    exact hsecondary
  unique bus device function bus' device' function' c h h' := by
    obtain ⟨rfl, rfl, rfl, -⟩ := machine_bridgeAt h
    obtain ⟨rfl, rfl, rfl, -⟩ := machine_bridgeAt h'
    exact ⟨rfl, rfl, rfl⟩

end Machine

section Walk

variable {space : ConfigSpace} {bus device function : UInt8}

theorem scanFunction_eq {scan : UInt8 → Scan} {f : UInt8 → Option (List PciDevice)}
    (hscan : ∀ bus devices, scan bus devices = (f bus).map (devices ++ ·))
    (devices : List PciDevice) :
    scanFunction space scan bus device function devices =
      (listParts f (functionParts space bus (device, function))).map (devices ++ ·) := by
  simp only [scanFunction, functionParts, hscan]
  split
  · cases hf : f (BusNumber.new space bus device function).secondaryBusNumber with
    | none => simp [listParts, hf]
    | some xs => split <;> simp [listParts, hf]
  · split <;> simp [listParts]

theorem scanDevice_eq {scan : UInt8 → Scan} {f : UInt8 → Option (List PciDevice)}
    (hscan : ∀ bus devices, scan bus devices = (f bus).map (devices ++ ·))
    (devices : List PciDevice) :
    scanDevice space scan bus device devices =
      (listParts f (((if (HeaderType.new space bus device 0).isMultiFunction then u8Range 0 8
        else [0]).map (device, ·)).flatMap (functionParts space bus))).map (devices ++ ·) := by
  rw [List.flatMap_map]
  cases hmulti : (HeaderType.new space bus device 0).isMultiFunction with
  | true =>
      simp only [scanDevice, hmulti, if_true]
      apply foldlM_listParts
      exact fun devices function => scanFunction_eq hscan devices
  | false =>
      simp only [scanDevice, hmulti, Bool.false_eq_true, if_false, List.flatMap_singleton]
      exact scanFunction_eq hscan devices

/-- The scan of a bus is a walk. -/
theorem scanBus_eq (space : ConfigSpace) (fuel : Nat) (bus : UInt8) (devices : List PciDevice) :
    scanBus space fuel bus devices = (walk (busParts space) fuel bus).map (devices ++ ·) := by
  induction fuel generalizing bus devices with
  | zero => rfl
  | succ fuel ih =>
      rw [scanBus, walk, busParts, addresses, List.flatMap_assoc]
      apply foldlM_listParts
      intro devices device
      cases hvalid : (VendorId.new space bus device 0).isValid with
      | false => simp [hvalid, listParts]
      | true => simpa [hvalid] using scanDevice_eq ih devices

theorem mem_addresses :
    (device, function) ∈ addresses space bus ↔
      device.toNat < 32 ∧ function.toNat < 8 ∧ Present space bus device 0 ∧
        (function = 0 ∨ (HeaderType.new space bus device 0).isMultiFunction = true) := by
  simp only [addresses, List.mem_flatMap, mem_u8Range (show 32 ≤ 256 by omega), Present]
  constructor
  · rintro ⟨d, hd, hmem⟩
    split at hmem
    next hvalid =>
      obtain ⟨f, hf, heq⟩ := List.mem_map.mp hmem
      obtain ⟨rfl, rfl⟩ := Prod.mk.inj heq
      split at hf
      next hmulti =>
        rw [mem_u8Range (by omega)] at hf
        exact ⟨hd.2, hf.2, hvalid, .inr hmulti⟩
      next =>
        obtain rfl := List.mem_singleton.mp hf
        exact ⟨hd.2, by decide, hvalid, .inl rfl⟩
    next => exact absurd hmem List.not_mem_nil
  · rintro ⟨hd, hf, hvalid, hfirst⟩
    refine ⟨device, ⟨Nat.zero_le _, hd⟩, ?_⟩
    rw [if_pos hvalid]
    refine List.mem_map.mpr ⟨function, ?_, rfl⟩
    split
    next => exact (mem_u8Range (by omega)).mpr ⟨Nat.zero_le _, hf⟩
    next hmulti => exact List.mem_singleton.mpr (hfirst.resolve_right hmulti)

theorem nodup_addresses (space : ConfigSpace) (bus : UInt8) : (addresses space bus).Nodup := by
  refine List.nodup_flatMap.mpr ⟨fun device _ => ?_, ?_⟩
  · split
    next =>
      refine List.Nodup.map (fun f f' h => (Prod.mk.inj h).2) ?_
      split
      next => exact nodup_u8Range (by omega)
      next => exact List.nodup_singleton 0
    next => exact List.nodup_nil
  · refine (nodup_u8Range (by omega)).imp ?_
    intro d d' hne p hp hp'
    have hfst {d : UInt8} (hp : p ∈ if (VendorId.new space bus d 0).isValid then
        (if (HeaderType.new space bus d 0).isMultiFunction then u8Range 0 8 else [0]).map (d, ·)
        else []) : p.1 = d := by
      split at hp
      next =>
        obtain ⟨f, _, rfl⟩ := List.mem_map.mp hp
        rfl
      next => exact absurd hp List.not_mem_nil
    exact hne ((hfst hp).symm.trans (hfst hp'))

/-- An absent function is no bridge. -/
theorem AbsentReadsOnes.present_of_bridge (absent : AbsentReadsOnes space)
    (hdevice : device.toNat < 32) (hfunction : function.toNat < 8)
    (hbridge : (PciDevice.new space bus device function).isStandardPciPciBridge = true) :
    Present space bus device function := by
  by_contra hpresent
  have hones := absent bus device function hdevice hfunction hpresent
  have hcode : (PciDevice.new space bus device function).classCode = .fromRaw 0xffffffff := by
    simp only [PciDevice.new, ClassCode.new, readData_new space bus hdevice hfunction, hones]
  rw [PciDevice.isStandardPciPciBridge, hcode] at hbridge
  exact absurd hbridge (by decide)

theorem exposed_iff_mem_addresses :
    Exposed space bus device function ↔
      (device, function) ∈ addresses space bus ∧ Present space bus device function := by
  rw [mem_addresses]
  constructor
  · rintro ⟨hdevice, hfunction, hpresent, hfirst⟩
    obtain rfl | ⟨hpresent₀, hmulti⟩ := hfirst
    · exact ⟨⟨hdevice, hfunction, hpresent, .inl rfl⟩, hpresent⟩
    · exact ⟨⟨hdevice, hfunction, hpresent₀, .inr hmulti⟩, hpresent⟩
  · rintro ⟨⟨hdevice, hfunction, hpresent₀, hfirst⟩, hpresent⟩
    exact ⟨hdevice, hfunction, hpresent, hfirst.imp_right fun hmulti => ⟨hpresent₀, hmulti⟩⟩

theorem node_mem_functionParts {address : UInt8 × UInt8} {secondary : UInt8} :
    .node secondary ∈ functionParts space bus address ↔
      (PciDevice.new space bus address.1 address.2).isStandardPciPciBridge = true ∧
        (BusNumber.new space bus address.1 address.2).secondaryBusNumber = secondary := by
  rw [functionParts]
  split <;> split <;> simp [*, eq_comm]

theorem item_mem_functionParts {address : UInt8 × UInt8} {x : PciDevice} :
    .item x ∈ functionParts space bus address ↔
      Present space bus address.1 address.2 ∧
        x = PciDevice.new space bus address.1 address.2 := by
  have hvendor : (PciDevice.new space bus address.1 address.2).vendorId =
    VendorId.new space bus address.1 address.2 := rfl
  rw [functionParts, hvendor, Present]
  split <;> split <;> simp [*]

theorem item_mem_busParts {x : PciDevice} :
    .item x ∈ busParts space bus ↔
      ∃ device function, Exposed space bus device function ∧
        x = PciDevice.new space bus device function := by
  simp only [busParts, List.mem_flatMap, item_mem_functionParts, Prod.exists,
    exposed_iff_mem_addresses, and_assoc]

/-- The walk goes on through the bridges. -/
theorem edge_iff (absent : AbsentReadsOnes space) {secondary : UInt8} :
    Edge (busParts space) bus secondary ↔ BridgeTo space bus secondary := by
  simp only [Edge, busParts, List.mem_flatMap, node_mem_functionParts, Prod.exists, BridgeTo]
  constructor
  · rintro ⟨device, function, hmem, hbridge, hsecondary⟩
    obtain ⟨hdevice, hfunction, -⟩ := mem_addresses.mp hmem
    exact ⟨device, function, exposed_iff_mem_addresses.mpr
      ⟨hmem, absent.present_of_bridge hdevice hfunction hbridge⟩, hbridge, hsecondary⟩
  · rintro ⟨device, function, hexposed, hbridge, hsecondary⟩
    exact ⟨device, function, (exposed_iff_mem_addresses.mp hexposed).1, hbridge, hsecondary⟩

theorem edge_eq (absent : AbsentReadsOnes space) : Edge (busParts space) = BridgeTo space := by
  ext bus secondary
  exact edge_iff absent

theorem WellFormed.nodup_busParts (wf : WellFormed space) (bus : UInt8) :
    (busParts space bus).Nodup := by
  refine List.nodup_flatMap.mpr ⟨fun address _ => ?_, ?_⟩
  · rw [functionParts]
    split <;> split <;> simp
  · refine (nodup_addresses space bus).imp_of_mem ?_
    rintro ⟨device, function⟩ ⟨device', function'⟩ hmem hmem' hne p hp hp'
    apply hne
    cases p with
    | node secondary =>
        have hbridge {device function : UInt8} (hmem : (device, function) ∈ addresses space bus)
            (hp : .node secondary ∈ functionParts space bus (device, function)) :
            BridgeAt space bus device function secondary := by
          obtain ⟨hdevice, hfunction, -⟩ := mem_addresses.mp hmem
          obtain ⟨hbridge, hsecondary⟩ := node_mem_functionParts.mp hp
          exact ⟨exposed_iff_mem_addresses.mpr
            ⟨hmem, wf.absent.present_of_bridge hdevice hfunction hbridge⟩, hbridge, hsecondary⟩
        obtain ⟨-, rfl, rfl⟩ := wf.unique _ _ _ _ _ _ _ (hbridge hmem hp) (hbridge hmem' hp')
        rfl
    | item x =>
        have hx := (item_mem_functionParts.mp hp).2
        have hx' := (item_mem_functionParts.mp hp').2
        have heq := hx.symm.trans hx'
        exact Prod.ext (congrArg PciDevice.device heq) (congrArg PciDevice.function heq)

/-- Bus numbers go up, so no bridges lead back. -/
theorem WellFormed.acc (wf : WellFormed space) (bus : UInt8) :
    Acc (fun c b => BridgeTo space b c) bus := by
  have hsub : Subrelation (fun c b => BridgeTo space b c) (fun c b : UInt8 => b < c) := by
    rintro c b ⟨device, function, hbridge⟩
    exact wf.increasing b device function c hbridge
  exact (hsub.wf (Finite.wellFounded_of_trans_of_irrefl _)).apply bus

/-- A scan of a bus returns if and only if the walk does. -/
theorem scanBusReturns_iff {devices out : List PciDevice} :
    ScanBusReturns space bus devices out ↔
      ∃ fuel found, walk (busParts space) fuel bus = some found ∧ out = devices ++ found := by
  constructor
  · rintro ⟨depth, h⟩
    have hscan := h depth (Nat.le_refl depth)
    rw [scanBus_eq, Option.map_eq_some_iff] at hscan
    obtain ⟨found, hfound, rfl⟩ := hscan
    exact ⟨depth, found, hfound, rfl⟩
  · rintro ⟨depth, found, hfound, rfl⟩
    refine ⟨depth, fun fuel hle => ?_⟩
    rw [scanBus_eq, walk_mono hle hfound, Option.map_some]

theorem WellFormed.exists_walk (wf : WellFormed space) (bus : UInt8) :
    ∃ fuel found, walk (busParts space) fuel bus = some found := by
  apply exists_walk_of_acc
  rw [edge_eq wf.absent]
  exact wf.acc bus

/-- The functions on the bus and on the buses behind it. -/
theorem mem_walk_iff (absent : AbsentReadsOnes space) {fuel : Nat} {found : List PciDevice}
    (hfound : walk (busParts space) fuel bus = some found) {x : PciDevice} :
    x ∈ found ↔ ∃ b device function, ReflTransGen (BridgeTo space) bus b ∧
      Exposed space b device function ∧ x = PciDevice.new space b device function := by
  simp only [mem_walk hfound, edge_eq absent, item_mem_busParts]
  constructor
  · rintro ⟨b, hb, device, function, hexposed, hx⟩
    exact ⟨b, device, function, hb, hexposed, hx⟩
  · rintro ⟨b, device, function, hb, hexposed, hx⟩
    exact ⟨b, hb, device, function, hexposed, hx⟩

/-- A scan of a bus returns, and appends each function on the bus and on the buses behind it
once, and nothing else. -/
theorem scanBus_lists (space : ConfigSpace) (wf : WellFormed space) (bus : UInt8)
    (devices : List PciDevice) :
    ∃ found, ScanBusReturns space bus devices (devices ++ found) ∧ found.Nodup ∧
      ∀ x, x ∈ found ↔ ∃ b device function, ReflTransGen (BridgeTo space) bus b ∧
        Exposed space b device function ∧ x = PciDevice.new space b device function := by
  obtain ⟨fuel, found, hfound⟩ := wf.exists_walk bus
  refine ⟨found, scanBusReturns_iff.mpr ⟨fuel, found, hfound, rfl⟩, ?_,
    fun x => mem_walk_iff wf.absent hfound⟩
  apply nodup_walk wf.nodup_busParts ?_ ?_ hfound
  · rw [edge_eq wf.absent]
    rintro a b c ⟨_, _, ha⟩ ⟨_, _, hb⟩
    exact (wf.unique _ _ _ _ _ _ _ ha hb).1
  · intro a b x ha hb
    obtain ⟨_, _, -, rfl⟩ := item_mem_busParts.mp ha
    obtain ⟨_, _, -, hx⟩ := item_mem_busParts.mp hb
    exact congrArg PciDevice.bus hx

theorem scanBus_lists_machine :
    ∃ found, ScanBusReturns (machine 0 1) 0 [] ([] ++ found) ∧ found.Nodup ∧
      PciDevice.new (machine 0 1) 0 1 0 ∈ found := by
  obtain ⟨found, hreturns, hnodup, hmem⟩ :=
    scanBus_lists (machine 0 1) (machine_wellFormed (by decide)) 0 []
  obtain ⟨device, function, hbridge⟩ := machine_bridgeTo 0 1
  obtain ⟨-, rfl, rfl, -⟩ := machine_bridgeAt hbridge
  exact ⟨found, hreturns, hnodup, (hmem _).mpr ⟨0, 1, 0, .refl, hbridge.exposed, rfl⟩⟩

end Walk

section AllBuses

/-- The buses at which `scan_all_bus` starts. -/
def StartsAt (space : ConfigSpace) (bus : UInt8) : Prop :=
  if (HeaderType.new space 0 0 0).isMultiFunction then
    1 ≤ bus.toNat ∧ bus.toNat < 8 ∧ Present space 0 0 bus
  else bus = 0

def startParts (space : ConfigSpace) : List (Part UInt8 PciDevice) :=
  if (HeaderType.new space 0 0 0).isMultiFunction then
    (u8Range 1 8).flatMap fun function =>
      if (VendorId.new space 0 0 function).isValid then [.node function] else []
  else [.node 0]

variable {space : ConfigSpace} {bus : UInt8}

theorem node_mem_startParts : .node bus ∈ startParts space ↔ StartsAt space bus := by
  rw [startParts, StartsAt]
  split
  next =>
    simp only [List.mem_flatMap, mem_u8Range (show 8 ≤ 256 by omega), Present]
    constructor
    · rintro ⟨function, hfunction, hmem⟩
      split at hmem
      next hvalid =>
        cases List.mem_singleton.mp hmem
        exact ⟨hfunction.1, hfunction.2, hvalid⟩
      next => exact absurd hmem List.not_mem_nil
    · rintro ⟨hlo, hhi, hvalid⟩
      exact ⟨bus, ⟨hlo, hhi⟩, by simp [hvalid]⟩
  next => simp

theorem item_notMem_startParts (x : PciDevice) : .item x ∉ startParts space := by
  rw [startParts]
  split
  next =>
    rw [List.mem_flatMap]
    rintro ⟨function, -, hmem⟩
    split at hmem <;> simp at hmem
  next => simp

/-- `scan_all_bus` is the walk from these buses, one after another. -/
theorem scanAllBus_eq (space : ConfigSpace) (fuel : Nat) :
    scanAllBus space fuel = listParts (walk (busParts space) fuel) (startParts space) := by
  rw [scanAllBus, startParts]
  cases hmulti : (HeaderType.new space 0 0 0).isMultiFunction with
  | false =>
      simp only [Bool.not_false, if_true, Bool.false_eq_true, if_false, scanBus_eq, listParts]
      cases walk (busParts space) fuel 0 <;> simp
  | true =>
      simp only [Bool.not_true, Bool.false_eq_true, if_false, if_true]
      refine (foldlM_listParts (f := walk (busParts space) fuel)
        (p := fun function => if (VendorId.new space 0 0 function).isValid then [.node function]
          else []) ?_ _ []).trans (by simp)
      intro devices function
      cases hvalid : (VendorId.new space 0 0 function).isValid with
      | false => simp [listParts]
      | true =>
          simp only [Bool.not_true, Bool.false_eq_true, if_false, if_true, scanBus_eq, listParts]
          cases walk (busParts space) fuel function <;> simp

theorem scanAllBusReturns_iff {out : List PciDevice} :
    ScanAllBusReturns space out ↔
      ∃ fuel, listParts (walk (busParts space) fuel) (startParts space) = some out := by
  constructor
  · rintro ⟨depth, h⟩
    exact ⟨depth, (scanAllBus_eq space depth).symm.trans (h depth (Nat.le_refl depth))⟩
  · rintro ⟨depth, h⟩
    refine ⟨depth, fun fuel hle => ?_⟩
    rw [scanAllBus_eq]
    exact listParts_mono (fun c xs => walk_mono hle) h

/-- The scan returns if and only if no bridges lead back to a bus that it comes to. -/
theorem scanAllBus_returns_iff_no_cycle (space : ConfigSpace) (absent : AbsentReadsOnes space) :
    (∃ out, ScanAllBusReturns space out) ↔
      ∀ start bus, StartsAt space start → ReflTransGen (BridgeTo space) start bus →
        ¬ TransGen (BridgeTo space) bus bus := by
  have hacc {start : UInt8} : Acc (fun c b => Edge (busParts space) b c) start ↔
      ∀ bus, ReflTransGen (BridgeTo space) start bus → ¬ TransGen (BridgeTo space) bus bus := by
    rw [edge_eq absent]
    exact acc_iff_no_cycle
  constructor
  · rintro ⟨out, hreturns⟩ start bus hstart
    obtain ⟨fuel, hout⟩ := scanAllBusReturns_iff.mp hreturns
    obtain ⟨found, hfound⟩ := exists_of_listParts hout (node_mem_startParts.mpr hstart)
    exact hacc.mp (acc_of_walk hfound) bus
  · intro hno
    obtain ⟨fuel, out, hout⟩ := exists_listParts fun start hstart =>
      exists_walk_of_acc (hacc.mpr fun bus => hno start bus (node_mem_startParts.mp hstart))
    exact ⟨out, scanAllBusReturns_iff.mpr ⟨fuel, hout⟩⟩

theorem scanAllBus_returns_iff_no_cycle_machine : ∃ out, ScanAllBusReturns (machine 0 1) out := by
  apply (scanAllBus_returns_iff_no_cycle (machine 0 1) (machine_absent 0 1)).mpr
  intro start bus _ _
  exact no_cycle_of_acc ((machine_wellFormed (by decide)).acc bus)

/-- A bridge that nobody has configured leads back to its own bus. -/
theorem unconfigured_bridge_never_returns :
    ¬ ∀ space, AbsentReadsOnes space → ∃ out, ScanAllBusReturns space out := by
  intro h
  obtain ⟨out, hreturns⟩ := h (machine 0 0) (machine_absent 0 0)
  obtain ⟨fuel, hout⟩ := scanAllBusReturns_iff.mp hreturns
  have hstart : StartsAt (machine 0 0) 0 := by
    rw [StartsAt, if_neg (by decide +kernel)]
  obtain ⟨found, hfound⟩ := exists_of_listParts hout (node_mem_startParts.mpr hstart)
  have hedge : Edge (busParts (machine 0 0)) 0 0 :=
    (edge_iff (machine_absent 0 0)).mpr (machine_bridgeTo 0 0)
  exact no_cycle_of_acc (acc_of_walk hfound) (.single hedge)

theorem WellFormed.le_of_reachable (wf : WellFormed space) {b c : UInt8}
    (h : ReflTransGen (BridgeTo space) b c) : b ≤ c := by
  induction h with
  | refl => exact UInt8.le_refl b
  | tail _ hstep ih =>
      obtain ⟨device, function, hbridge⟩ := hstep
      exact UInt8.le_trans ih (UInt8.le_of_lt (wf.increasing _ _ _ _ hbridge))

theorem Exposed.present_first {device function : UInt8} (h : Exposed space bus device function) :
    Present space bus device 0 := by
  obtain rfl | ⟨hfirst, -⟩ := h.first_or_multi
  · exact h.present
  · exact hfirst

/-- All that `scan_bus(0)` lists is found if the host bridge has one function, and otherwise
only if there is nothing on the primary bus. -/
theorem scanAllBus_covers_iff (space : ConfigSpace) (wf : WellFormed space) :
    ∃ primary all, ScanBusReturns space 0 [] primary ∧ ScanAllBusReturns space all ∧
      ((∀ x ∈ primary, x ∈ all) ↔
        (HeaderType.new space 0 0 0).isMultiFunction = false ∨
          ∀ device : UInt8, device.toNat < 32 → ¬ Present space 0 device 0) := by
  obtain ⟨fuel₀, primary, hprimary⟩ := wf.exists_walk 0
  have hstarts (start : UInt8) (_ : .node start ∈ startParts space) := wf.exists_walk start
  obtain ⟨fuel, all, hall⟩ := exists_listParts hstarts
  refine ⟨primary, all, scanBusReturns_iff.mpr ⟨fuel₀, primary, hprimary, rfl⟩,
    scanAllBusReturns_iff.mpr ⟨fuel, hall⟩, ?_, ?_⟩
  · intro hcovers
    by_contra hnot
    simp only [not_or, Bool.not_eq_false, not_forall, not_not] at hnot
    obtain ⟨hmulti, device, hdevice, hpresent⟩ := hnot
    -- the device is listed from bus 0, but a start bus has a higher number
    have hlisted : PciDevice.new space 0 device 0 ∈ primary :=
      (mem_walk_iff wf.absent hprimary).mpr
        ⟨0, device, 0, .refl, ⟨hdevice, by decide, hpresent, .inl rfl⟩, rfl⟩
    obtain hitem | ⟨start, found, hstart, hfound, hmem⟩ :=
      (mem_listParts hall).mp (hcovers _ hlisted)
    · exact item_notMem_startParts _ hitem
    · obtain ⟨b, device', function', hb, -, heq⟩ := (mem_walk_iff wf.absent hfound).mp hmem
      obtain rfl : 0 = b := congrArg PciDevice.bus heq
      have hle := wf.le_of_reachable hb
      have hstart := node_mem_startParts.mp hstart
      rw [StartsAt, if_pos hmulti] at hstart
      rw [UInt8.le_iff_toNat_le] at hle
      exact absurd (hstart.1.trans hle) (by decide)
  · rintro (hmulti | hempty) x hx
    · have hstart : StartsAt space 0 := by
        rw [StartsAt, hmulti]
        simp
      obtain ⟨found, hfound⟩ := exists_of_listParts hall (node_mem_startParts.mpr hstart)
      refine (mem_listParts hall).mpr (.inr ⟨0, found, node_mem_startParts.mpr hstart, hfound, ?_⟩)
      exact (mem_walk_iff wf.absent hfound).mpr ((mem_walk_iff wf.absent hprimary).mp hx)
    · obtain ⟨b, device, function, hb, hexposed, -⟩ := (mem_walk_iff wf.absent hprimary).mp hx
      exfalso
      obtain rfl | ⟨c, ⟨device', function', hbridge⟩, -⟩ := hb.cases_head
      · exact hempty device hexposed.device_lt hexposed.present_first
      · exact hempty device' hbridge.exposed.device_lt hbridge.exposed.present_first

theorem scanAllBus_covers_iff_machine :
    ∃ primary all, ScanBusReturns (machine 0 1) 0 [] primary ∧
      ScanAllBusReturns (machine 0 1) all ∧ ∀ x ∈ primary, x ∈ all := by
  obtain ⟨primary, all, hprimary, hall, hcovers⟩ :=
    scanAllBus_covers_iff (machine 0 1) (machine_wellFormed (by decide))
  exact ⟨primary, all, hprimary, hall, hcovers.mpr (.inl (by decide +kernel))⟩

/-- With a host bridge of several functions, the bus that it sits on is not scanned. -/
theorem primary_bus_missed :
    ¬ ∀ space, WellFormed space → ∀ primary all, ScanBusReturns space 0 [] primary →
      ScanAllBusReturns space all → ∀ x ∈ primary, x ∈ all := by
  intro h
  have wf : WellFormed (machine 0x80 1) := machine_wellFormed (by decide)
  obtain ⟨fuel, primary, hprimary⟩ := wf.exists_walk 0
  have hall : ScanAllBusReturns (machine 0x80 1) [] :=
    scanAllBusReturns_iff.mpr ⟨0, by decide +kernel⟩
  obtain ⟨device, function, hbridge⟩ := machine_bridgeTo 0x80 1
  have hlisted := (mem_walk_iff wf.absent hprimary).mpr
    ⟨0, device, function, .refl, hbridge.exposed, rfl⟩
  exact absurd (h _ wf primary [] (scanBusReturns_iff.mpr ⟨fuel, primary, hprimary, rfl⟩) hall _
    hlisted) List.not_mem_nil

end AllBuses

end LemolaOs.Pci
