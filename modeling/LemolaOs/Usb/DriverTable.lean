import LemolaOs.Library.Simulation
import LemolaOs.Library.SlotTable
import LemolaOs.Usb.DriverAtomicity
import LemolaOs.Usb.InputDriver

/-!
# The table of a class driver

`InputOnlyDriver`, for keyboards and for mice, and `HubDriver` keep their devices in an array with
a fixed number of slots. `add_device` takes the first free slot, `remove_device` frees the first
that has the address, and `tick` calls the machine of one device after the other. `DeviceClass` is
what the drivers differ in.

`DeviceMap` is what such a table is for: a finite map from the addresses of the bus to devices, the
machines of which are called once each, in some order. As long as an address is not added twice
the driver is such a map, call by call and error by error (`class_driver_is_map`).
-/

namespace LemolaOs.Usb

open Attempt (get)

/-- What is special about the devices of a driver. The machine of a device leaves its address. -/
structure DeviceClass (δ σ γ : Type) where
  new : (address maxPacketSize : UInt8) → δ
  addr : δ → UInt8
  fsm : (millis : Nat) → DriverStep δ σ γ Unit
  newAddr : ∀ address maxPacketSize, addr (new address maxPacketSize) = address
  keepsAddr : ∀ millis, Attempt.Keeps (Unchanged addr) (fsm millis)

/-- A driver with its table, its host and the log of its devices. -/
structure ClassDriver (δ σ γ : Type) where
  devices : List (Option δ)
  host : σ
  log : List γ

namespace ClassDriver

variable {δ σ γ : Type}

/-- The constructors of the drivers. -/
def new (maxDevices : Nat) (s : σ) : ClassDriver δ σ γ := ⟨List.replicate maxDevices none, s, []⟩

/-- The code of the driver itself. -/
abbrev DriverCall (δ σ γ α : Type) := Attempt Panic DriverError (ClassDriver δ σ γ) α

def addDevice (D : DeviceClass δ σ γ) (address maxPacketSize : UInt8) :
    DriverCall δ σ γ Unit := fun s =>
  match SlotTable.insert (D.new address maxPacketSize) s.devices with
  | some devices => .ok (.ok (), { s with devices := devices })
  | none => .ok (.error (.permanent address "out of devices"), s)

def removeDevice (D : DeviceClass δ σ γ) (address : UInt8) : DriverCall δ σ γ Unit := fun s =>
  .ok (.ok (), { s with devices := SlotTable.remove (fun d => D.addr d = address) s.devices })

/-- The body of the loop of `tick`, for the device at an index of the table. -/
def tickDevice (D : DeviceClass δ σ γ) (millis i : Nat) : DriverCall δ σ γ Unit := fun s =>
  match s.devices[i]? with
  | none | some none => .ok (.ok (), s)
  | some (some device) => do
      let (result, m) ← D.fsm millis ⟨device, s.host, s.log⟩
      let s := { devices := s.devices.set i (some m.device), host := m.host, log := m.log }
      match result with
      | .error (.permanent e) => .ok (.error (.permanent (D.addr m.device) e), s)
      | .error (.retry _) | .ok () => .ok (.ok (), s)

def tick (D : DeviceClass δ σ γ) (millis : Nat) : DriverCall δ σ γ Unit := do
  let s ← get
  (List.range' 0 s.devices.length).forM (tickDevice D millis)

/-- `self.devices.iter().find(|d| ..)`, for the device with an address. -/
def deviceAt (D : DeviceClass δ σ γ) (address : UInt8) (s : ClassDriver δ σ γ) : Option δ :=
  SlotTable.find (fun d => D.addr d = address) s.devices

/-- A call of the kernel. -/
inductive Op where
  | addDevice (address maxPacketSize : UInt8)
  | removeDevice (address : UInt8)
  | tick (millis : Nat)

def call (D : DeviceClass δ σ γ) : Op → DriverCall δ σ γ Unit
  | .addDevice address maxPacketSize => addDevice D address maxPacketSize
  | .removeDevice address => removeDevice D address
  | .tick millis => tick D millis

/-- The call returns, with an error or without; and an address is not added while the table has
it. -/
def Step (D : DeviceClass δ σ γ) (s : ClassDriver δ σ γ) (label : Op × Except DriverError Unit)
    (t : ClassDriver δ σ γ) : Prop :=
  (∀ address maxPacketSize, label.1 = .addDevice address maxPacketSize →
      deviceAt D address s = none) ∧
    call D label.1 s = .ok (label.2, t)

section Slot

variable {D : DeviceClass δ σ γ} {millis i : Nat} {s : ClassDriver δ σ γ} {device : δ}

/-- What `tick` makes of the result of a machine. -/
def resultOf (address : UInt8) : Except TransferError Unit → Except DriverError Unit
  | .error (.permanent e) => .error (.permanent address e)
  | .error (.retry _) | .ok () => .ok ()

theorem tickDevice_of_ok {outcome : Except TransferError Unit} {m : Machine δ σ γ}
    (hslot : s.devices[i]? = some (some device))
    (hfsm : D.fsm millis ⟨device, s.host, s.log⟩ = .ok (outcome, m)) :
    tickDevice D millis i s = .ok (resultOf (D.addr m.device) outcome,
      ⟨s.devices.set i (some m.device), m.host, m.log⟩) := by
  rw [tickDevice, hslot]
  dsimp only
  rw [hfsm]
  cases outcome with
  | error e => cases e <;> rfl
  | ok => rfl

theorem tickDevice_of_panic {p : Panic} (hslot : s.devices[i]? = some (some device))
    (hfsm : D.fsm millis ⟨device, s.host, s.log⟩ = .error p) :
    tickDevice D millis i s = .error p := by
  rw [tickDevice, hslot]
  dsimp only
  rw [hfsm]
  rfl

end Slot

end ClassDriver

/-- What a driver is for. -/
structure DeviceMap (δ σ γ : Type) where
  devices : UInt8 → Option δ
  host : σ
  log : List γ

namespace DeviceMap

variable {δ σ γ : Type}

def new (s : σ) : DeviceMap δ σ γ := ⟨fun _ => none, s, []⟩

/-- The addresses of the map. -/
def Addresses (m : DeviceMap δ σ γ) (addresses : Finset UInt8) : Prop :=
  ∀ address, address ∈ addresses ↔ m.devices address ≠ none

/-- Call the machine of the device with an address. -/
def tickAt (D : DeviceClass δ σ γ) (millis : Nat) (address : UInt8) :
    Attempt Panic DriverError (DeviceMap δ σ γ) Unit := fun s =>
  match s.devices address with
  | none => .ok (.ok (), s)
  | some device => do
      let (result, m) ← D.fsm millis ⟨device, s.host, s.log⟩
      let s := ⟨Function.update s.devices address (some m.device), m.host, m.log⟩
      match result with
      | .error (.permanent e) => .ok (.error (.permanent address e), s)
      | .error (.retry _) | .ok () => .ok (.ok (), s)

/-- A call of a driver with room for `maxDevices` devices. -/
inductive Step (D : DeviceClass δ σ γ) (maxDevices : Nat) :
    DeviceMap δ σ γ → ClassDriver.Op × Except DriverError Unit → DeviceMap δ σ γ → Prop where
  | add {s : DeviceMap δ σ γ} {address maxPacketSize : UInt8} (absent : s.devices address = none)
      {addresses : Finset UInt8} (all : s.Addresses addresses)
      (room : addresses.card < maxDevices) :
      Step D maxDevices s (.addDevice address maxPacketSize, .ok ())
        { s with devices :=
          Function.update s.devices address (some (D.new address maxPacketSize)) }
  | full {s : DeviceMap δ σ γ} {address maxPacketSize : UInt8} {addresses : Finset UInt8}
      (all : s.Addresses addresses) (full : addresses.card = maxDevices) :
      Step D maxDevices s
        (.addDevice address maxPacketSize, .error (.permanent address "out of devices")) s
  | remove {s : DeviceMap δ σ γ} {address : UInt8} :
      Step D maxDevices s (.removeDevice address, .ok ())
        { s with devices := Function.update s.devices address none }
  | tick {s t : DeviceMap δ σ γ} {millis : Nat} {order : List UInt8} (once : order.Nodup)
      (all : ∀ address, address ∈ order ↔ s.devices address ≠ none)
      {result : Except DriverError Unit} (h : order.forM (tickAt D millis) s = .ok (result, t)) :
      Step D maxDevices s (.tick millis, result) t

end DeviceMap

section Refinement

variable {δ σ γ : Type} {D : DeviceClass δ σ γ} {s t : ClassDriver δ σ γ} {m : DeviceMap δ σ γ}
  {millis maxDevices : Nat}

/-- The driver stands for the map. -/
structure Represents (D : DeviceClass δ σ γ) (s : ClassDriver δ σ γ) (m : DeviceMap δ σ γ) :
    Prop where
  holds : SlotTable.Holds D.addr s.devices m.devices
  host : s.host = m.host
  log : s.log = m.log

/-- One machine is called, for the device behind some of the slots. -/
theorem tickDevice_refines {before after : List (Option δ)} {device : δ}
    {result : Except DriverError Unit} (h : Represents D s m)
    (hs : s.devices = before ++ some device :: after)
    (hcall : ClassDriver.tickDevice D millis before.length s = .ok (result, t)) :
    ∃ m' device', DeviceMap.tickAt D millis (D.addr device) m = .ok (result, m') ∧
      Represents D t m' ∧ t.devices = before ++ some device' :: after := by
  have hslot : s.devices[before.length]? = some (some device) := by
    rw [hs, List.getElem?_append_right (Nat.le_refl _), Nat.sub_self]
    rfl
  have hentry : m.devices (D.addr device) = some device := by
    refine (h.holds.entry_iff _ _).mpr ⟨?_, rfl⟩
    rw [hs, List.reduceOption_append, List.reduceOption_cons_of_some]
    exact List.mem_append_right _ List.mem_cons_self
  have hkeeps := D.keepsAddr millis ⟨device, s.host, s.log⟩
  cases hfsm : D.fsm millis ⟨device, s.host, s.log⟩ with
  | error p =>
      rw [ClassDriver.tickDevice_of_panic hslot hfsm] at hcall
      cases hcall
  | ok ended =>
      obtain ⟨outcome, n⟩ := ended
      rw [ClassDriver.tickDevice_of_ok hslot hfsm] at hcall
      cases hcall
      have haddr : D.addr n.device = D.addr device := by
        cases outcome with
        | error e => exact hkeeps.failed hfsm
        | ok => exact hkeeps.returned hfsm
      have hset : s.devices.set before.length (some n.device) =
          before ++ some n.device :: after := by
        rw [hs, List.set_append_right _ _ (Nat.le_refl _), Nat.sub_self, List.set_cons_zero]
      refine ⟨⟨Function.update m.devices (D.addr device) (some n.device), n.host, n.log⟩,
        n.device, ?_, ⟨?_, rfl, rfl⟩, hset⟩
      · rw [DeviceMap.tickAt, hentry, ← h.host, ← h.log]
        dsimp only
        rw [hfsm, Rust.ok_bind, ← haddr]
        cases outcome with
        | error e => cases e <;> rfl
        | ok => rfl
      · dsimp only
        rw [hset]
        exact SlotTable.Holds.set (hs ▸ h.holds) haddr

/-- The loop of `tick` from an index on calls the machines of the devices behind it, as the map
does. -/
theorem forM_tickDevice {before after : List (Option δ)} {result : Except DriverError Unit}
    (h : Represents D s m) (hs : s.devices = before ++ after)
    (hcall : (List.range' before.length after.length).forM (ClassDriver.tickDevice D millis) s =
      .ok (result, t)) :
    ∃ m', (after.reduceOption.map D.addr).forM (DeviceMap.tickAt D millis) m = .ok (result, m') ∧
      Represents D t m' ∧ t.devices.length = s.devices.length := by
  induction after generalizing before s m with
  | nil =>
      cases hcall
      exact ⟨m, rfl, h, rfl⟩
  | cons slot after ih =>
      have hlength (b : Option δ) : before.length + 1 = (before ++ [b]).length := by simp
      rw [List.length_cons, List.range'_succ, List.forM_eq_forM, List.forM_cons] at hcall
      cases slot with
      | none =>
          have hnone : ClassDriver.tickDevice D millis before.length s = .ok (.ok (), s) := by
            rw [ClassDriver.tickDevice, hs, List.getElem?_append_right (Nat.le_refl _),
              Nat.sub_self]
            rfl
          rw [Attempt.bind_of_ok hnone, hlength none] at hcall
          rw [List.reduceOption_cons_of_none]
          exact ih h (hs.trans (by simp)) hcall
      | some device =>
          rw [List.reduceOption_cons_of_some, List.map_cons, List.forM_eq_forM, List.forM_cons]
          cases hfirst : ClassDriver.tickDevice D millis before.length s with
          | error p =>
              rw [Attempt.bind_of_panic hfirst] at hcall
              cases hcall
          | ok ended =>
              obtain ⟨outcome, s₁⟩ := ended
              obtain ⟨m₁, device', htick, hrep, hdevices⟩ := tickDevice_refines h hs hfirst
              have hlen : s₁.devices.length = s.devices.length := by
                rw [hdevices, hs, List.length_append, List.length_append, List.length_cons,
                  List.length_cons]
              cases outcome with
              | error e =>
                  -- no machine is called behind a permanent error
                  rw [Attempt.bind_of_error hfirst] at hcall
                  cases hcall
                  exact ⟨m₁, Attempt.bind_of_error htick, hrep, hlen⟩
              | ok =>
                  rw [Attempt.bind_of_ok hfirst, hlength (some device')] at hcall
                  obtain ⟨m', hrest, hend, hsame⟩ := ih hrep (hdevices.trans (by simp)) hcall
                  exact ⟨m', (Attempt.bind_of_ok htick).trans hrest, hend, hsame.trans hlen⟩

/-- One call. -/
theorem step_refines {label : ClassDriver.Op × Except DriverError Unit}
    (h : Represents D s m) (hlength : s.devices.length = maxDevices)
    (hstep : ClassDriver.Step D s label t) :
    ∃ m', DeviceMap.Step D maxDevices m label m' ∧ Represents D t m' ∧
      t.devices.length = maxDevices := by
  obtain ⟨op, result⟩ := label
  obtain ⟨hnew, hcall⟩ := hstep
  obtain ⟨addresses, hall, hcard⟩ := h.holds.keys
  cases op with
  | addDevice address maxPacketSize =>
      simp only [ClassDriver.call, ClassDriver.addDevice] at hcall
      cases hinsert : SlotTable.insert (D.new address maxPacketSize) s.devices with
      | none =>
          rw [hinsert] at hcall
          cases hcall
          have hfull := SlotTable.insert_eq_none_iff.mp hinsert
          exact ⟨m, .full hall (hcard.trans (hfull.trans hlength)), h, hlength⟩
      | some devices =>
          rw [hinsert] at hcall
          cases hcall
          have habsent : m.devices address = none :=
            (h.holds.find address).symm.trans (hnew address maxPacketSize rfl)
          have hlen := (SlotTable.insert_spec hinsert).1
          have hroom : addresses.card < maxDevices := by
            rw [hcard, ← hlength]
            refine Nat.lt_of_le_of_ne (List.reduceOption_length_le _) fun hfull => ?_
            rw [SlotTable.insert_eq_none_iff.mpr hfull] at hinsert
            cases hinsert
          have hholds := SlotTable.Holds.insert h.holds
            ((congrArg m.devices (D.newAddr address maxPacketSize)).trans habsent) hinsert
          rw [D.newAddr] at hholds
          exact ⟨_, .add habsent hall hroom, ⟨hholds, h.host, h.log⟩, hlen.trans hlength⟩
  | removeDevice address =>
      cases hcall
      exact ⟨_, .remove, ⟨h.holds.remove address, h.host, h.log⟩,
        (SlotTable.length_remove _ _).trans hlength⟩
  | tick millis =>
      obtain ⟨m', hforM, hrep, hlen⟩ := forM_tickDevice h (List.nil_append _).symm hcall
      refine ⟨m', .tick h.holds.distinct (fun address => ?_) hforM, hrep, hlen.trans hlength⟩
      rw [List.mem_map, Option.ne_none_iff_exists']
      simp only [h.holds.entry_iff]

end Refinement

section Classes

open Attempt

variable {P : InputParams} {σ : Type}

theorem InputOnlyDevice.keeps_inTransfer (host : Host σ) (ep : Endpoint) :
    Keeps (Unchanged (InputOnlyDevice.addr (P := P))) (inTransfer host ep) :=
  fun _ => inTransfer_meets (fun _ _ => trivial) fun _ _ _ => rfl

/-- No state of the machine assigns the address. -/
theorem InputOnlyDevice.keeps_fsmWith (notFound : String) (types : UsbTypes) (host : Host σ)
    (millis : Nat) :
    Keeps (Unchanged (InputOnlyDevice.addr (P := P))) (fsmWith notFound types host millis) := by
  have hhides : host.HidesControl (InputOnlyDevice.addr (P := P)) := fun _ _ _ _ _ _ _ => rfl
  have hmodify (f : InputOnlyDevice P → InputOnlyDevice P) (hf : ∀ d, (f d).addr = d.addr) :
      Keeps (Unchanged (InputOnlyDevice.addr (P := P)))
        (modifyDevice f : InputStep P σ Unit) := keeps_modify fun m => hf m.device
  refine keeps_get.bind fun m => ?_
  cases m.device.state with
  | addressed => exact (keeps_lift _).bind fun _ => hmodify _ fun _ => rfl
  | waitForSettle deadline =>
      dsimp only
      split
      · refine (keeps_controlTransfer hhides _ _).bind fun result => ?_
        exact (keeps_check _).bind fun _ => hmodify _ fun _ => rfl
      · exact keeps_pure _
  | getConfig =>
      refine (keeps_readConfiguration hhides types _).bind fun configBuf => ?_
      refine keeps_get.bind fun m => (keeps_lift _).bind fun found => ?_
      cases found with
      | none => exact keeps_lift _
      | some info => exact (hmodify _ fun _ => rfl).bind fun _ => hmodify _ fun _ => rfl
  | setConfig configIndex =>
      exact (keeps_controlTransfer hhides _ _).bind fun _ => hmodify _ fun _ => rfl
  | setProtocol =>
      cases m.device.endpoint0 with
      | none => exact keeps_fail _
      | some ep => exact (keeps_controlTransfer hhides _ _).bind fun _ => hmodify _ fun _ => rfl
  | setIdle => exact (keeps_controlTransfer hhides _ _).bind fun _ => hmodify _ fun _ => rfl
  | running =>
      refine keeps_get.bind fun m => ?_
      cases m.device.endpoint0 with
      | none => exact keeps_fail _
      | some ep =>
          refine (keeps_inTransfer host ep).bind fun answer => ?_
          cases answer with
          | ok buffer => exact keeps_report _
          | error e =>
              cases e with
              | permanent reason => exact keeps_fail _
              | retry reason => exact keeps_pure _

/-- The devices of `InputOnlyDriver`, with the machine that `notFound` belongs to. -/
def InputOnlyDevice.deviceClass (P : InputParams) (notFound : String) (types : UsbTypes)
    (host : Host σ) (endpointSearcher : List UInt8 → Rust (Option EndpointInfo)) :
    DeviceClass (InputOnlyDevice P) σ (UInt8 × List UInt8) where
  new address maxPacketSize := .new address maxPacketSize endpointSearcher
  addr := InputOnlyDevice.addr
  fsm := fsmWith notFound types host
  newAddr _ _ := rfl
  keepsAddr := keeps_fsmWith notFound types host

namespace HubDevice

theorem hidesControl_address (host : Host σ) : host.HidesControl HubDevice.address :=
  fun _ _ _ _ _ _ _ => rfl

theorem keeps_modifyDevice {f : HubDevice → HubDevice} (hf : ∀ d, (f d).address = d.address) :
    Keeps (Unchanged HubDevice.address) (modifyDevice f : HubStep σ Unit) :=
  keeps_modify fun m => hf m.device

theorem address_storeConfiguration (types : UsbTypes) (configBuf : List UInt8)
    (descriptors : List DescriptorRef) (d : HubDevice) :
    (storeConfiguration types configBuf descriptors d).address = d.address := by
  rw [storeConfiguration]
  induction descriptors generalizing d with
  | nil => rfl
  | cons descriptor descriptors ih =>
      rw [List.foldl_cons, ih]
      cases descriptor <;> rfl

theorem keeps_toNextPort (portIndex : UInt8) :
    Keeps (Unchanged HubDevice.address) (toNextPort portIndex : HubStep σ Unit) :=
  (keeps_lift _).bind fun _ => keeps_modifyDevice fun _ => rfl

theorem keeps_initPort (host : AsyncHost σ) (portIndex : UInt8) :
    Keeps (Unchanged HubDevice.address) (initPort host portIndex) := by
  have hport := keeps_portTransfer (hidesControl_address host.toHost)
  refine (hport _ _ _ _ _ _).bind fun _ => (hport _ _ _ _ _ _).bind fun _ => ?_
  refine (hport _ _ _ _ _ _).bind fun (_, status) => (keeps_report _).bind fun _ => ?_
  split
  · refine (hport _ _ _ _ _ _).bind fun _ => (hport _ _ _ _ _ _).bind fun _ => ?_
    refine (hport _ _ _ _ _ _).bind fun (_, status) => keeps_get.bind fun m => ?_
    exact (keeps_callHost _).bind fun _ => keeps_toNextPort portIndex
  · exact keeps_toNextPort portIndex

@[inherit_doc InputOnlyDevice.keeps_fsmWith]
theorem keeps_fsm (types : UsbTypes) (host : AsyncHost σ) :
    Keeps (Unchanged HubDevice.address) (fsm types host) := by
  have hhides := hidesControl_address host.toHost
  refine keeps_get.bind fun m => ?_
  cases m.device.state with
  | addressed => exact keeps_modifyDevice fun _ => rfl
  | getConfig =>
      refine (keeps_readConfiguration hhides types _).bind fun configBuf => ?_
      refine (keeps_lift _).bind fun descriptors => ?_
      refine (keeps_modifyDevice fun d => ?_).bind fun _ => keeps_modifyDevice fun _ => rfl
      exact address_storeConfiguration types configBuf descriptors d
  | setConfig =>
      refine keeps_get.bind fun m => ?_
      cases m.device.configDescriptor with
      | none => exact keeps_lift _
      | some confDesc =>
          refine (keeps_controlTransfer hhides _ _).bind fun _ => ?_
          exact (keeps_callHost _).bind fun _ => keeps_modifyDevice fun _ => rfl
  | getHubDescriptor =>
      refine (keeps_check _).bind fun _ => (keeps_check _).bind fun _ => ?_
      refine (keeps_controlTransfer hhides _ _).bind fun (_, hubDescriptor) => ?_
      exact (keeps_modifyDevice fun _ => rfl).bind fun _ => keeps_modifyDevice fun _ => rfl
  | initPort portIndex =>
      dsimp only
      split
      · exact keeps_initPort host portIndex
      · exact keeps_modifyDevice fun _ => rfl
  | running => exact keeps_pure _

/-- The devices of `HubDriver`. -/
def deviceClass (types : UsbTypes) (host : AsyncHost σ) :
    DeviceClass HubDevice σ (UInt8 × Bool) where
  new := .new
  addr := HubDevice.address
  fsm _ := fsm types host
  newAddr _ _ := rfl
  keepsAddr _ := keeps_fsm types host

end HubDevice

end Classes

/-- A driver is a finite map from addresses to devices, as long as no address is added while the
driver has it: there is a run of the map with the same calls and the same results, and a device is
found where the map has it. A device is turned away if and only if there are `maxDevices` of
them. -/
theorem class_driver_is_map {δ σ γ : Type} (D : DeviceClass δ σ γ) (maxDevices : Nat) (s₀ : σ)
    {calls : List (ClassDriver.Op × Except DriverError Unit)} {s : ClassDriver δ σ γ}
    (hrun : Runs (ClassDriver.Step D) (.new maxDevices s₀) calls s) :
    ∃ m, Runs (DeviceMap.Step D maxDevices) (.new s₀) calls m ∧
      (∀ address, ClassDriver.deviceAt D address s = m.devices address) ∧
      s.host = m.host ∧ s.log = m.log ∧
      ∃ addresses, m.Addresses addresses ∧ addresses.card ≤ maxDevices := by
  have hnew : Represents D (.new maxDevices s₀) (.new s₀) := ⟨.replicate maxDevices, rfl, rfl⟩
  have hstep : ∀ s m label t, Represents D s m ∧ s.devices.length = maxDevices →
      ClassDriver.Step D s label t → ∃ m', DeviceMap.Step D maxDevices m label m' ∧
        Represents D t m' ∧ t.devices.length = maxDevices :=
    fun _ _ _ _ h => step_refines h.1 h.2
  obtain ⟨m, hmap, hrep, hlength⟩ := hrun.simulate hstep ⟨hnew, List.length_replicate⟩
  obtain ⟨addresses, hall, hcard⟩ := hrep.holds.keys
  refine ⟨m, hmap, hrep.holds.find, hrep.host, hrep.log, addresses, hall, ?_⟩
  rw [hcard, ← hlength]
  exact List.reduceOption_length_le _

/-- Mice whose transfers stall. -/
def stallingMice : DeviceClass (InputOnlyDevice .mouse) Unit (UInt8 × List UInt8) :=
  InputOnlyDevice.deviceClass .mouse "no boot keyboard found" .usb2
    (failingHost (.permanent "stall")).toHost (epForMouse .usb2)

/-- The first mouse stalls when it has settled, and the machine of the second is not called. The
first is then removed. -/
theorem class_driver_is_map_stallingMice :
    ∃ m, Runs (DeviceMap.Step stallingMice 32) (.new ())
        [(.addDevice 5 8, .ok ()), (.tick 0, .ok ()), (.addDevice 6 8, .ok ()),
          (.tick 3, .error (.permanent 5 "stall")), (.removeDevice 5, .ok ())] m ∧
      (∀ address, ClassDriver.deviceAt stallingMice address
          ⟨none :: some (stallingMice.new 6 8) :: List.replicate 30 none, (), []⟩ =
        m.devices address) ∧
      () = m.host ∧ [] = m.log ∧
      ∃ addresses, m.Addresses addresses ∧ addresses.card ≤ 32 := by
  refine class_driver_is_map stallingMice 32 () ?_
  refine .cons ⟨fun _ _ h => ?_, rfl⟩ (.cons ⟨nofun, rfl⟩ (.cons ⟨fun _ _ h => ?_, rfl⟩
    (.cons ⟨nofun, rfl⟩ (.cons ⟨nofun, rfl⟩ (.nil _)))))
  · cases h
    rfl
  · cases h
    rfl

end LemolaOs.Usb
