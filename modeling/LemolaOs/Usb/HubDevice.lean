import LemolaOs.Usb.Host

/-!
# The devices of `HubDriver`

A hub is configured in the first states of its machine. From `InitPort(0)` on each call
initialises one port: it is powered, and, if something is connected to it, reset and handed
to the host, which will assign an address. A call that fails leaves the state, and the next
call begins with the first request of the port again.

What is left out are the delays and the logging, except for what is logged of the connection
status of a port.
-/

namespace LemolaOs.Usb

open Attempt (get lift)

/-- `PortFeatureSelector`, those that are used. -/
inductive PortFeatureSelector where
  | portReset
  | portPower
  | cPortConnection
  | cPortReset
  deriving DecidableEq, Repr

def PortFeatureSelector.toByte : PortFeatureSelector → UInt8
  | .portReset => 4
  | .portPower => 8
  | .cPortConnection => 16
  | .cPortReset => 20

inductive HubState where
  | addressed
  | getConfig
  | setConfig
  | getHubDescriptor
  | initPort (portIndex : UInt8)
  | running
  deriving DecidableEq, Repr

structure HubDevice where
  state : HubState
  address : UInt8
  ep0 : Endpoint
  configDescriptor : Option ConfigurationDescriptor
  numberOfPorts : UInt8
  powerOn2PowerGood : UInt8
  deriving DecidableEq, Repr

instance : HasEp0 HubDevice where
  ep0 := HubDevice.ep0
  setEp0 ep d := { d with ep0 := ep }
  setEp0_ep0 _ := rfl

/-- The code of the driver. The log has what was read of the connection status of the ports. -/
abbrev HubStep (σ α : Type) := DriverStep HubDevice σ (UInt8 × Bool) α

/-- `CONFIG_BUFFER_LEN` of the hub driver. -/
def hubConfigBufferLen : Nat := 256

/-- `size_of::<HubDescriptor>()`: eight bytes, of which the one at offset 3 is padding. -/
def hubDescriptorSize : Nat := 8

/-- `port_index + 1`. -/
def nextPort (portIndex : UInt8) : Rust UInt8 :=
  if portIndex.toNat + 1 < 256 then .ok (portIndex + 1) else .error .overflow

namespace HubDevice

variable {σ κ : Type}

def new (address maxPacketSize : UInt8) : HubDevice where
  state := .addressed
  address := address
  ep0 := .new address 0 0 .control .in maxPacketSize.toUInt16
  configDescriptor := none
  numberOfPorts := 0
  powerOn2PowerGood := 0

def setState (state : HubState) (d : HubDevice) : HubDevice := { d with state := state }

/-- The loop over the descriptors: the last configuration is kept. -/
def storeConfiguration (types : UsbTypes) (configBuf : List UInt8)
    (descriptors : List DescriptorRef) (d : HubDevice) : HubDevice :=
  descriptors.foldl (fun d descriptor =>
    match descriptor with
    | .configuration offset =>
        { d with configDescriptor := some (types.configuration (types.pointee configBuf offset)) }
    | .interface _ | .endpoint _ | .unknown => d) d

/-- `fsm`, in state `GetConfig`. -/
def getConfig (types : UsbTypes) (host : Host σ) : HubStep σ Unit := do
  let configBuf ← readConfiguration types hubConfigBufferLen host
  let descriptors ← lift ((DescriptorIter.new configBuf).collect types.toUsbHost)
  modifyDevice (storeConfiguration types configBuf descriptors)
  modifyDevice (setState .setConfig)

/-- `fsm`, in state `SetConfig`. -/
def setConfig (host : AsyncHost σ) : HubStep σ Unit := do
  let m ← get
  match m.device.configDescriptor with
  | none => lift (.error (.message "called `Option::unwrap()` on a `None` value"))
  | some confDesc =>
      let _ ← controlTransfer host.toHost
        (standardRequest .hostToDevice .setConfiguration confDesc.bConfigurationValue 0) none
      callHost (host.registerHub m.device.address)
      modifyDevice (setState .getHubDescriptor)

/-- `fsm`, in state `GetHubDescriptor`. -/
def getHubDescriptor (host : Host σ) : HubStep σ Unit := do
  let type : RequestType := ⟨.deviceToHost, .usbClass, .device⟩
  check (type.toByte = 0xA0)
  let request : ControlRequest := ⟨type, .getDescriptor, 0, 0x29, 0⟩
  check (request.value = 0x2900)
  let (_, hubDescriptor) ← controlTransfer host request (some hubDescriptorSize)
  modifyDevice fun d =>
    { d with numberOfPorts := hubDescriptor 2, powerOn2PowerGood := hubDescriptor 6 }
  modifyDevice (setState (.initPort 0))

/-- A request about a port, whose type is the given byte. -/
def portTransfer (host : Host σ) (direction : RequestDirection) (byte : Nat) (code : RequestCode)
    (selector portIndex : UInt8) (bufLen : Option Nat) : HubStep σ (Nat × (Nat → UInt8)) := do
  let type : RequestType := ⟨direction, .usbClass, .other⟩
  check (type.toByte = byte)
  controlTransfer host ⟨type, code, selector, 0, portIndex.toUInt16 + 1⟩ bufLen

/-- `SET_FEATURE`. -/
def setPortFeature (host : Host σ) (feature : PortFeatureSelector) (portIndex : UInt8) :=
  portTransfer host .hostToDevice 0x23 .setFeature feature.toByte portIndex none

/-- `CLEAR_FEATURE`. -/
def clearPortFeature (host : Host σ) (feature : PortFeatureSelector) (portIndex : UInt8) :=
  portTransfer host .hostToDevice 0x23 .clearFeature feature.toByte portIndex none

/-- `GET_STATUS`, into a buffer of four bytes. -/
def getPortStatus (host : Host σ) (portIndex : UInt8) :=
  portTransfer host .deviceToHost 0xA3 .getStatus 0 portIndex (some 4)

/-- `self.state = HubState::InitPort(port_index + 1)`. -/
def toNextPort (portIndex : UInt8) : HubStep σ Unit := do
  let next ← lift (nextPort portIndex)
  modifyDevice (setState (.initPort next))

/-- `fsm`, in state `InitPort`, behind the connection status of a port with a device. -/
def initConnectedPort (host : AsyncHost σ) (portIndex : UInt8) : HubStep σ Unit := do
  let _ ← setPortFeature host.toHost .portReset portIndex
  let _ ← clearPortFeature host.toHost .cPortReset portIndex
  let (_, status) ← getPortStatus host.toHost portIndex
  let status0 : UInt16 := (status 0).toUInt16 ||| ((status 1).toUInt16 <<< 8)
  let portLowSpeedBit := (1 : UInt16) <<< (9 : UInt16)
  let isLowSpeed := status0 &&& portLowSpeedBit != 0
  let m ← get
  callHost (host.assignAddress m.device.address portIndex isLowSpeed)
  toNextPort portIndex

/-- `fsm`, in state `InitPort`, for a port of the hub. -/
def initPort (host : AsyncHost σ) (portIndex : UInt8) : HubStep σ Unit := do
  let _ ← setPortFeature host.toHost .portPower portIndex
  let _ ← clearPortFeature host.toHost .cPortConnection portIndex
  let (_, status) ← getPortStatus host.toHost portIndex
  let connected := status 0 &&& 0x01 != 0
  report (portIndex, connected)
  if connected then initConnectedPort host portIndex else toNextPort portIndex

def fsm (types : UsbTypes) (host : AsyncHost σ) : HubStep σ Unit := do
  let m ← get
  match m.device.state with
  | .addressed => modifyDevice (setState .getConfig)
  | .getConfig => getConfig types host.toHost
  | .setConfig => setConfig host
  | .getHubDescriptor => getHubDescriptor host.toHost
  | .initPort portIndex =>
      if portIndex < m.device.numberOfPorts then initPort host portIndex
      else modifyDevice (setState .running)
  | .running => return

section Atomic

open Attempt

variable {host : AsyncHost σ} {view : HubDevice → κ}

theorem atomic_getConfig (h : host.HidesControl view) (types : UsbTypes) :
    Atomic (Unchanged view) (getConfig types host.toHost) := by
  refine (keeps_readConfiguration h types _).atomic_bind fun configBuf => ?_
  refine (keeps_lift _).atomic_bind fun descriptors => ?_
  exact fun s => trivial

theorem atomic_setConfig (h : host.HidesControl view) :
    Atomic (Unchanged view) (setConfig host) := by
  refine keeps_get.atomic_bind fun m => ?_
  cases m.device.configDescriptor with
  | none => exact atomic_lift _
  | some confDesc =>
      refine (keeps_controlTransfer h _ _).atomic_bind fun _ => ?_
      exact (keeps_callHost _).atomic_bind fun _ => atomic_modify _

theorem atomic_getHubDescriptor (h : host.HidesControl view) :
    Atomic (Unchanged view) (getHubDescriptor host.toHost) := by
  refine (keeps_check _).atomic_bind fun _ => ?_
  refine (keeps_check _).atomic_bind fun _ => ?_
  refine (keeps_controlTransfer h _ _).atomic_bind fun hubDescriptor => ?_
  exact fun s => trivial

theorem keeps_portTransfer (h : host.HidesControl view) (direction : RequestDirection) (byte : Nat)
    (code : RequestCode) (selector portIndex : UInt8) (bufLen : Option Nat) :
    Keeps (Unchanged view)
      (portTransfer host.toHost direction byte code selector portIndex bufLen) :=
  (keeps_check _).bind fun _ => keeps_controlTransfer h _ _

theorem atomic_toNextPort (portIndex : UInt8) :
    Atomic (Unchanged view) (toNextPort portIndex : HubStep σ Unit) :=
  (keeps_lift _).atomic_bind fun _ => atomic_modify _

theorem atomic_initConnectedPort (h : host.HidesControl view) (portIndex : UInt8) :
    Atomic (Unchanged view) (initConnectedPort host portIndex) := by
  refine (keeps_portTransfer h _ _ _ _ _ _).atomic_bind fun _ => ?_
  refine (keeps_portTransfer h _ _ _ _ _ _).atomic_bind fun _ => ?_
  refine (keeps_portTransfer h _ _ _ _ _ _).atomic_bind fun (_, status) => ?_
  refine keeps_get.atomic_bind fun m => ?_
  exact (keeps_callHost _).atomic_bind fun _ => atomic_toNextPort portIndex

theorem atomic_initPort (h : host.HidesControl view) (portIndex : UInt8) :
    Atomic (Unchanged view) (initPort host portIndex) := by
  refine (keeps_portTransfer h _ _ _ _ _ _).atomic_bind fun _ => ?_
  refine (keeps_portTransfer h _ _ _ _ _ _).atomic_bind fun _ => ?_
  refine (keeps_portTransfer h _ _ _ _ _ _).atomic_bind fun (_, status) => ?_
  refine (keeps_report _).atomic_bind fun _ => ?_
  split
  · exact atomic_initConnectedPort h portIndex
  · exact atomic_toNextPort portIndex

/-- Where a call fails, it has changed nothing yet but what the host does to endpoint 0. -/
theorem atomic_fsm (h : host.HidesControl view) (types : UsbTypes) :
    Atomic (Unchanged view) (fsm types host) := by
  refine keeps_get.atomic_bind fun m => ?_
  cases m.device.state with
  | addressed => exact atomic_modify _
  | getConfig => exact atomic_getConfig h types
  | setConfig => exact atomic_setConfig h
  | getHubDescriptor => exact atomic_getHubDescriptor h
  | initPort portIndex =>
      dsimp only
      split
      · exact atomic_initPort h portIndex
      · exact atomic_modify _
  | running => exact (keeps_pure _).atomic

end Atomic

end HubDevice

end LemolaOs.Usb
