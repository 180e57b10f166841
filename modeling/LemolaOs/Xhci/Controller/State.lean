import LemolaOs.Library.Resumption
import LemolaOs.Usb.ClassDriver
import LemolaOs.Xhci.EventRing

/-!
# The state of `XhciController`

The port registers, the `PortConfigureState`, the slots with their devices, the
queues, and the set of locks that the running handler holds. Handlers are code
that locks and unlocks explicitly; `lock` on a lock that is already held is the
self-deadlock of a spin lock.

A port register has the fields that the driver reads. The loops that wait for a
register bit are taken to end, and `enablesOnReset` says whether the device at the
port lets it become enabled when it is reset. The event ring appears as the queue
of its unread events. A command is identified by the slot of the command ring in
which it was written.
-/

namespace LemolaOs.Xhci

/-- PORTSC. -/
structure PortSc where
  portPower : Bool
  currentConnectStatus : Bool
  portEnabled : Bool
  portReset : Bool
  connectStatusChange : Bool
  portSpeed : Nat
  enablesOnReset : Bool
  deriving DecidableEq, Repr

namespace PortSc

/-- A port with nothing attached. -/
def empty : PortSc := ⟨true, false, false, false, false, 0, false⟩

/-- The test of `enable_slot_at`. -/
def Ready (portsc : PortSc) : Prop :=
  portsc.portEnabled = true ∧ portsc.connectStatusChange = false

instance (portsc : PortSc) : Decidable portsc.Ready := inferInstanceAs (Decidable (_ ∧ _))

/-- The two tests at the start of `reset_port_at`. -/
def Resettable (portsc : PortSc) : Prop :=
  portsc.currentConnectStatus = true ∧ portsc.connectStatusChange = true

instance (portsc : PortSc) : Decidable portsc.Resettable := inferInstanceAs (Decidable (_ ∧ _))

/-- `(port_power, current_connect_status, port_enabled_disabled, port_reset)` is
`(true, true, true, false)`. -/
def isEnabled (portsc : PortSc) : Bool :=
  portsc.portPower && portsc.currentConnectStatus && portsc.portEnabled && !portsc.portReset

/-- The port after a reset. -/
def afterReset (portsc : PortSc) : PortSc :=
  { portsc with
    portPower := true
    portEnabled := portsc.enablesOnReset
    portReset := false
    connectStatusChange := false }

end PortSc

inductive PortConfigPhase where
  | notConnected
  | waitingAddressed
  | resettingPort
  | enablingSlot
  | addressingDevice
  | initializingDevice
  | configuringEndpoints
  | configured
  deriving DecidableEq, Repr

/-- The locks of the controller. -/
inductive Mutex where
  | registers
  | portConfigureState
  | portSlotIdMap
  | commandRing
  | eventRing
  | userEventRing
  | deviceContexts
  | device (slotId : Nat)
  deriving DecidableEq, Repr

inductive Fault where
  | panic (p : Panic)
  | deadlock (m : Mutex)
  deriving DecidableEq, Repr

/-- `command::Allowed`, with one case for the commands that the driver never issues. -/
inductive Command where
  | enableSlot
  | addressDevice (slotId : Nat)
  | disableSlot (slotId : Nat)
  | configureEndpoint (slotId : Nat)
  | evaluateContext (slotId : Nat)
  | other
  deriving DecidableEq, Repr

structure InitPortDevice where
  portIndex : Nat
  routing : Nat
  speed : Nat
  parentHubSlotId : Option Nat
  parentPortIndex : Option Nat
  deriving DecidableEq, Repr

/-- What the controller code reads of a `DeviceContextInfo` and its input slot context. -/
structure Device where
  portIndex : Nat
  routing : Nat
  routeString : Nat
  rootHubPortNumber : Nat
  speed : Nat
  parentHubSlotId : Option Nat
  parentPortIndex : Option Nat
  deriving DecidableEq, Repr

/-- `transfer::Allowed`, as far as a transfer event distinguishes them. -/
inductive TransferTrb where
  | normal (transferLength : Nat)
  | other
  deriving DecidableEq, Repr

/-- The steps of `start_initialization` as far as the controller sees them: access to the
registers, a command or a control transfer that is awaited, the address of a device behind
a hub, the registration with a class driver, and a failed `unwrap`. -/
inductive HostOp where
  | registers
  | command (cmd : Command)
  | transfer (waitOn : TransferEventWaitKind)
  | assignAddress (device : InitPortDevice)
  | addDevice (kind : Usb.DriverKind) (address : Nat)
  | unwrapFailed
  deriving DecidableEq, Repr

structure Controller where
  held : List Mutex
  numberOfPorts : Nat
  portsc : Nat → PortSc
  /-- `PortConfigureState`. -/
  portConfigPhase : Nat → PortConfigPhase
  addressingPortIndex : Option Nat
  portSlotIdMap : Nat → Option (List Nat)
  maxSlots : Nat
  device : Nat → Option Device
  commandSlots : Nat
  commandIndex : Nat
  commandAt : Nat → Option Command
  /-- Commands the hardware has not answered yet. -/
  outstanding : List Nat
  transferAt : Nat → Option TransferTrb
  events : List Event
  popped : List Event
  userEvents : List InitPortDevice
  classDrivers : Usb.ClassDriverManager
  /-- What the initialisation of the device in a slot will do. -/
  initialization : Nat → List HostOp

/-- Controller code that may wait for an event. -/
abbrev Handler := Code Controller Future Event Fault

namespace Controller

open Code

/-- `XhciController::new`. Ports, device slots and class drivers are those of the machine;
`initialization` is what the devices to come will ask for. -/
@[simps] def new (numberOfPorts numberOfDeviceSlots : Nat) (portsc : Nat → PortSc)
    (classDrivers : Usb.ClassDriverManager) (initialization : Nat → List HostOp) : Controller where
  held := []
  numberOfPorts := numberOfPorts
  portsc := portsc
  portConfigPhase _ := .notConnected
  addressingPortIndex := none
  portSlotIdMap _ := none
  maxSlots := min numberOfDeviceSlots 10
  device _ := none
  commandSlots := 32
  commandIndex := 0
  commandAt _ := none
  outstanding := []
  transferAt _ := none
  events := []
  popped := []
  userEvents := []
  classDrivers := classDrivers
  initialization := initialization

section Updates

variable (s : Controller)

@[simps] def hold (m : Mutex) : Controller := { s with held := m :: s.held }

@[simps] def release (m : Mutex) : Controller := { s with held := s.held.erase m }

@[simps] def setPort (portIdx : Nat) (portsc : PortSc) : Controller :=
  { s with portsc := Function.update s.portsc portIdx portsc }

@[simps] def setPhase (portIdx : Nat) (phase : PortConfigPhase) : Controller :=
  { s with portConfigPhase := Function.update s.portConfigPhase portIdx phase }

@[simps] def setAddressing (index : Option Nat) : Controller :=
  { s with addressingPortIndex := index }

@[simps] def setSlots (portIdx : Nat) (slotIds : Option (List Nat)) : Controller :=
  { s with portSlotIdMap := Function.update s.portSlotIdMap portIdx slotIds }

@[simps] def setDevice (slotId : Nat) (device : Option Device) : Controller :=
  { s with device := Function.update s.device slotId device }

/-- A command in the next slot of the command ring. -/
@[simps] def issue (cmd : Command) : Controller :=
  { s with
    commandAt := Function.update s.commandAt s.commandIndex (some cmd)
    commandIndex := if s.commandIndex + 1 = s.commandSlots - 1 then 0 else s.commandIndex + 1
    outstanding := s.outstanding ++ [s.commandIndex] }

@[simps] def putAside (event : Event) : Controller := { s with popped := s.popped ++ [event] }

@[simps] def setPopped (events : List Event) : Controller := { s with popped := events }

@[simps] def setEvents (events : List Event) : Controller := { s with events := events }

@[simps] def setUserEvents (events : List InitPortDevice) : Controller :=
  { s with userEvents := events }

@[simps] def setInitialization (slotId : Nat) (ops : List HostOp) : Controller :=
  { s with initialization := Function.update s.initialization slotId ops }

@[simps] def setClassDrivers (classDrivers : Usb.ClassDriverManager) : Controller :=
  { s with classDrivers := classDrivers }

end Updates

def lock (m : Mutex) : Handler Unit := fun s =>
  if m ∈ s.held then .fail (.deadlock m) s else .done () (s.hold m)

def unlock (m : Mutex) : Handler Unit := modify (·.release m)

/-- A guard that lives for one block. -/
def withLock {α : Type} (m : Mutex) (body : Handler α) : Handler α := do
  lock m
  let a ← body
  unlock m
  return a

/-- `panic!(..)`. -/
def panic {α : Type} (text : String) : Handler α := fail (.panic (.message text))

/-- Go on only if `p` holds. -/
def ensure (p : Prop) [Decidable p] (e : Panic) : Handler Unit :=
  if p then pure () else fail (.panic e)

/-- `read_volatile_at`. The accessor panics at an index beyond the number of ports. -/
def readVolatileAt (portIdx : Nat) : Handler PortSc := do
  let s ← get
  ensure (portIdx < s.numberOfPorts) .outOfRange
  return s.portsc portIdx

/-- `update_volatile_at`. -/
def updateVolatileAt (portIdx : Nat) (f : PortSc → PortSc) : Handler Unit := do
  let s ← get
  ensure (portIdx < s.numberOfPorts) .outOfRange
  modify fun s => s.setPort portIdx (f (s.portsc portIdx))

/-- `PortConfigureState::port_phase_at`. The array has 256 entries. -/
def portPhaseAt (portIdx : Nat) : Handler PortConfigPhase := do
  ensure (portIdx < 256) .outOfRange
  let s ← get
  return s.portConfigPhase portIdx

/-- `PortConfigureState::set_port_phase_at`. -/
def setPortPhaseAt (portIdx : Nat) (phase : PortConfigPhase) : Handler Unit := do
  ensure (portIdx < 256) .outOfRange
  modify (·.setPhase portIdx phase)

def setAddressingPortIndex (index : Option Nat) : Handler Unit := modify (·.setAddressing index)

/-- `CommandRing::push`. -/
def pushCommand (cmd : Command) : Handler Nat := do
  let s ← get
  modify (·.issue cmd)
  return s.commandIndex

/-- `device_context_infos[slot_id]`, locked for one block. -/
def withDevice {α : Type} (slotId : Nat) (body : Option Device → Handler α) : Handler α := do
  let s ← get
  ensure (slotId ≤ s.maxSlots) .outOfRange
  withLock (.device slotId) do
    let s ← get
    body (s.device slotId)

/-- `as_mut().unwrap()`. -/
def unwrapDevice (device : Option Device) : Handler Device :=
  match device with
  | some device => return device
  | none => fail (.panic .assertion)

/-- The locks taken by the polls of a future, and then its result. -/
def awaitEvent (future : Future) : Handler Event := do
  withLock .registers (pure ())
  withLock .eventRing (withLock .registers (pure ()))
  await future

/-- `CommandCompletionFuture::new(..).await`. -/
def awaitCompletion (trbPtr : Nat) : Handler CommandCompletion := do
  let event ← awaitEvent (.command trbPtr)
  match event with
  | .commandCompletion completion => return completion
  | _ => fail (.panic .assertion)

end Controller

end LemolaOs.Xhci
