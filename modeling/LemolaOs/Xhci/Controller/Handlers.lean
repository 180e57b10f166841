import LemolaOs.Xhci.Controller.State

/-!
# The handlers of `XhciController`

One definition for each function of the controller that takes part in the
enumeration of devices, with the locks in the order and with the extent of the
source: a guard is `withLock` around what follows in its block or function.

Left out are logging, the bits of PORTSC that are only written back, the doorbell
values, the contents of the device contexts apart from the slot context, and what
a report does to the transfer ring and the screen.
-/

namespace LemolaOs.Xhci

/-- `completion_code()` of `xhci`: `None` for a code the specification does not define. -/
def completionCode (code : Nat) : Option Nat :=
  if code ≤ 36 ∧ code ≠ 30 then some code else none

/-- `CompletionCode::Success`. -/
def success : Nat := 1

/-- `CompletionCode::ShortPacket`. -/
def shortPacket : Nat := 13

namespace Controller

open Code

def isPortConnectedAt (portIdx : Nat) : Handler Bool :=
  withLock .registers do
    let portsc ← readVolatileAt portIdx
    return portsc.currentConnectStatus

/-- Take the right to address a port, if nobody else has it. -/
def canProcessReset (portIdx : Nat) : Handler Bool :=
  withLock .portConfigureState do
    let s ← get
    if s.addressingPortIndex = some portIdx then return true
    else if s.addressingPortIndex = none then
      setAddressingPortIndex (some portIdx)
      return true
    else
      -- another port is currently trying to be configured
      setPortPhaseAt portIdx .waitingAddressed
      return false

/-- The register accesses of `reset_port_at`, under one guard. -/
def resetRegisters (portIdx : Nat) : Handler Unit :=
  withLock .registers do
    updateVolatileAt portIdx fun portsc => { portsc with portPower := true }
    updateVolatileAt portIdx fun portsc =>
      { portsc with portEnabled := portsc.enablesOnReset, portReset := false }
    updateVolatileAt portIdx fun portsc => { portsc with connectStatusChange := false }
    let portsc ← readVolatileAt portIdx
    ensure portsc.isEnabled (.message "port is not enabled")

def resetPortAt (portIdx : Nat) : Handler Unit := do
  let isConnected ← isPortConnectedAt portIdx
  let connectStatusChange ← withLock .registers do
    let portsc ← readVolatileAt portIdx
    return portsc.connectStatusChange
  if !isConnected then return ()
  if !connectStatusChange then return ()
  let _isEnabled ← withLock .registers do
    let portsc ← readVolatileAt portIdx
    return portsc.isEnabled
  let canProcess ← canProcessReset portIdx
  if !canProcess then return ()
  withLock .portConfigureState do
    let phase ← portPhaseAt portIdx
    ensure (phase = .notConnected ∨ phase = .waitingAddressed)
      (.message "INVALID PortConfigPhase state.")
  resetRegisters portIdx

def configurePortAt (portIdx : Nat) : Handler Unit := do
  let isConnected ← withLock .portConfigureState do
    let phase ← portPhaseAt portIdx
    return phase != .notConnected
  if !isConnected then resetPortAt portIdx else return ()

/-- The body of `enable_slot_at`, with the recursive call as a parameter. The guard of the
registers lives to the end. -/
def enableSlotBody (again : Handler Nat) (portIdx : Nat) : Handler Nat :=
  withLock .registers do
    let portsc ← readVolatileAt portIdx
    if portsc.Ready then
      withLock .portConfigureState (setPortPhaseAt portIdx .enablingSlot)
      withLock .commandRing (pushCommand .enableSlot)
    else
      withLock .portConfigureState (setPortPhaseAt portIdx .notConnected)
      resetPortAt portIdx
      again

/-- `enable_slot_at`. The recursive call is never reached (`enableSlotBody_eq`), so any code
may stand for it. -/
def enableSlotAt (portIdx : Nat) : Handler Nat :=
  enableSlotBody (fail (.panic .assertion)) portIdx

/-- `DeviceContextArray::max_slots`. -/
def readMaxSlots : Handler Nat :=
  withLock .deviceContexts do
    let s ← get
    return s.maxSlots

/-- `DeviceManager::allocate_device`. -/
def allocateDevice (portIndex slotId routing : Nat) : Handler Unit := do
  let maxSlots ← readMaxSlots
  ensure (slotId ≤ maxSlots) (.message "slot_id is out of range")
  withDevice slotId fun device => do
    ensure (device = none) (.message s!"device context at {slotId} is already allocated")
    modify (·.setDevice slotId (some ⟨portIndex, routing, 0, 0, 0, none, none⟩))

/-- `DeviceManager::deallocate_device`. -/
def deallocateDevice (slotId : Nat) : Handler Unit :=
  withDevice slotId fun device => do
    ensure device.isSome (.message "assertion failed: device_context_info.is_some()")
    modify (·.setDevice slotId none)

/-- `DeviceManager::load_device_context`. -/
def loadDeviceContext (slotId : Nat) : Handler Unit := do
  let maxSlots ← readMaxSlots
  ensure (slotId ≤ maxSlots) (.message s!"Invalid slot_id: {slotId}")
  withDevice slotId fun device => ensure device.isSome .assertion
  withLock .deviceContexts (pure ())

def addressDeviceAt (portIndex slotId routing speed : Nat)
    (parentHubSlotId parentPortIndex : Option Nat) : Handler Nat := do
  withLock .portSlotIdMap do
    modify fun s => s.setSlots portIndex (some ((s.portSlotIdMap portIndex).getD [] ++ [slotId]))
  allocateDevice portIndex slotId routing
  withDevice slotId fun device => ensure device.isSome .assertion
  withLock .registers do
    let portsc ← readVolatileAt portIndex
    withDevice slotId fun device => do
      let device ← unwrapDevice device
      -- `port_index as u8 + 1`
      ensure (portIndex % 256 < 255) .overflow
      modify (·.setDevice slotId (some { device with
        routeString := routing % 2 ^ 18
        rootHubPortNumber := portIndex % 256 + 1
        speed := if speed = 5 then portsc.portSpeed else speed
        parentHubSlotId := parentHubSlotId
        parentPortIndex := parentPortIndex }))
    loadDeviceContext slotId
    withLock .portConfigureState do
      setPortPhaseAt portIndex .addressingDevice
      withDevice slotId fun device => ensure device.isSome .assertion
      withLock .commandRing (pushCommand (.addressDevice slotId))

/-- One step of `start_initialization`. -/
def hostOp (slotId : Nat) : HostOp → Handler Unit
  | .registers => withLock .registers (pure ())
  | .command cmd => do
      let trbPtr ← withLock .commandRing (pushCommand cmd)
      withLock .registers (pure ())
      let _ ← awaitCompletion trbPtr
  | .transfer waitOn => do
      withLock .registers (pure ())
      let _ ← awaitEvent (.transfer waitOn)
  | .assignAddress device =>
      withLock .userEventRing do
        modify fun s => s.setUserEvents (s.userEvents ++ [device])
  | .addDevice kind address => do
      let s ← get
      modify (·.setClassDrivers (s.classDrivers.addDevice kind slotId address).2)
      ensure (s.classDrivers.addDevice kind slotId address).1 .assertion
  | .unwrapFailed => fail (.panic .assertion)

def hostOps (slotId : Nat) : List HostOp → Handler Unit
  | [] => return ()
  | op :: ops => do
      hostOp slotId op
      hostOps slotId ops

/-- `DeviceContextInfo::start_initialization`, called with the device locked. -/
def startInitialization (slotId : Nat) : Handler Unit := do
  let s ← get
  hostOps slotId (s.initialization slotId)

/-- `initialize_device_at`. The device stays locked, also while it waits. -/
def initializeDeviceAt (portIdx slotId : Nat) : Handler Unit :=
  withDevice slotId fun device => do
    ensure device.isSome (.message "Invalid slot_id!")
    withLock .portConfigureState (setPortPhaseAt portIdx .initializingDevice)
    startInitialization slotId
    withLock .portConfigureState do
      setPortPhaseAt portIdx .configured
      setAddressingPortIndex none

/-- The `loop` of `reset_connection_at` for one slot, with the number of attempts left. -/
def disableSlot (slotId : Nat) : Nat → Handler Unit
  | 0 => panic s!"failed to get transfer trb on slot_id: {slotId}"
  | left + 1 => do
      let trbPtr ← withLock .commandRing (pushCommand (.disableSlot slotId))
      withLock .registers (pure ())
      let completion ← awaitCompletion trbPtr
      if (completionCode completion.completionCode).isSome then return ()
      else disableSlot slotId left

/-- The first attempt may be followed by ten more. -/
def disableSlots : List Nat → Handler Unit
  | [] => return ()
  | slotId :: slotIds => do
      disableSlot slotId 11
      deallocateDevice slotId
      disableSlots slotIds

/-- Give up the right to address, if the port has it. -/
def clearAddressing (portIdx : Nat) : Handler Unit := do
  let s ← get
  if s.addressingPortIndex = some portIdx then setAddressingPortIndex none else return ()

/-- `reset_connection_at`. The guard of `port_configure_state` lives to the end. -/
def resetConnectionAt (portIdx : Nat) : Handler Unit :=
  withLock .portConfigureState do
    clearAddressing portIdx
    setPortPhaseAt portIdx .notConnected
    let slotIds ← withLock .portSlotIdMap do
      let s ← get
      return s.portSlotIdMap portIdx
    withLock .registers do
      updateVolatileAt portIdx fun portsc => { portsc with connectStatusChange := false }
    disableSlots (slotIds.getD [])
    withLock .portSlotIdMap (modify (·.setSlots portIdx none))

def processInitPortDeviceEvent (event : InitPortDevice) : Handler Unit := do
  let trbPtr ← enableSlotAt event.portIndex
  let completion ← awaitCompletion trbPtr
  let slotId := completion.slotId
  ensure (completion.completionCode = success) .assertion
  let trbPtr ← addressDeviceAt event.portIndex slotId event.routing event.speed
    event.parentHubSlotId event.parentPortIndex
  let completion ← awaitCompletion trbPtr
  ensure (completion.completionCode = success) .assertion
  let s ← get
  match s.commandAt completion.commandTrbPointer with
  | some (.addressDevice _) => initializeDeviceAt event.portIndex slotId
  | _ => return ()

/-- `UserEventRing::pop`. -/
def popUserEvent : Handler (Option InitPortDevice) :=
  withLock .userEventRing do
    let s ← get
    modify (·.setUserEvents s.userEvents.tail)
    return s.userEvents.head?

/-- `process_user_event`: the oldest event of the hub driver. -/
def processUserEvent : Handler Unit := do
  let popped ← popUserEvent
  match popped with
  | some event => processInitPortDeviceEvent event
  | none => return ()

/-- May a port that is not connected be enumerated now? -/
def canProcessConnect (portIdx : Nat) : Handler Bool :=
  withLock .portConfigureState do
    let s ← get
    if s.addressingPortIndex = some portIdx ∨ s.addressingPortIndex = none then return true
    else
      setPortPhaseAt portIdx .waitingAddressed
      return false

/-- The branch of a port that is not connected. -/
def processNotConnected (portIdx : Nat) : Handler Unit := do
  let canProcess ← canProcessConnect portIdx
  if canProcess then
    resetPortAt portIdx
    let _ ← enableSlotAt portIdx
    return ()
  else return ()

/-- The branch of a port that has already been reset. -/
def processResettingPort (portIdx : Nat) : Handler Unit := do
  let canProcess ← canProcessReset portIdx
  if canProcess then
    let _ ← enableSlotAt portIdx
    return ()
  else return ()

/-- May a waiting port be enumerated now? -/
def canStartInitialization (portIdx : Nat) : Handler Bool :=
  withLock .portConfigureState do
    let s ← get
    if s.addressingPortIndex = none then
      setAddressingPortIndex (some portIdx)
      setPortPhaseAt portIdx .notConnected
      return true
    else return false

/-- The branch of a port that waits for another one. Its event is put aside again as long
as the other port has not been addressed. -/
def processWaitingAddressed (portIdx : Nat) (event : PortStatusChange) : Handler Unit := do
  let canStart ← canStartInitialization portIdx
  if canStart then
    withLock .portConfigureState (pure ())
    resetPortAt portIdx
    let _ ← enableSlotAt portIdx
    return ()
  else withLock .eventRing (modify (·.putAside (.portStatusChange event)))

def processPortStatusChangeEvent (event : PortStatusChange) : Handler Unit := do
  ensure (0 < event.portId) .overflow
  let portIdx := event.portId - 1
  let connecting ← isPortConnectedAt portIdx
  let phase ← withLock .portConfigureState (portPhaseAt portIdx)
  match phase with
  | .notConnected => processNotConnected portIdx
  | .resettingPort => processResettingPort portIdx
  | .waitingAddressed => processWaitingAddressed portIdx event
  | _ => if !connecting then resetConnectionAt portIdx else return ()

/-- The checks of the `EnableSlot` completion: the port that is being addressed. -/
def enablingPort : Handler Nat :=
  withLock .portConfigureState do
    let s ← get
    match s.addressingPortIndex with
    | none => panic "InvalidPhase"
    | some portIdx =>
        let phase ← portPhaseAt portIdx
        ensure (phase = .enablingSlot) (.message "InvalidPhase")
        return portIdx

/-- The completion of an `EnableSlot` command that nobody waited for. -/
def processEnableSlotCompletion (slotId : Nat) : Handler Unit := do
  let portIdx ← enablingPort
  let _ ← addressDeviceAt portIdx slotId 0 5 none none

/-- The first port that waits to be addressed. -/
def firstWaiting (phase : Nat → PortConfigPhase) : Option Nat :=
  (List.range 256).find? fun portIdx => phase portIdx = .waitingAddressed

/-- The checks of the `AddressDevice` completion; the right to address is given up. -/
def finishAddressing (portIndex : Nat) : Handler (Option Nat) :=
  withLock .portConfigureState do
    let s ← get
    ensure (s.addressingPortIndex = some portIndex) (.message "InvalidPhase")
    let phase ← portPhaseAt portIndex
    ensure (phase = .addressingDevice) (.message "InvalidPhase")
    setAddressingPortIndex none
    return firstWaiting s.portConfigPhase

/-- Reset the next port, if one waits. -/
def resetWaiting : Option Nat → Handler Unit
  | some portIdx => resetPortAt portIdx
  | none => return ()

/-- The completion of an `AddressDevice` command that nobody waited for. The guard of
`port_configure_state` is dropped before the next waiting port is reset. -/
def processAddressDeviceCompletion (slotId : Nat) : Handler Unit := do
  let portIndex ← withDevice slotId fun device => do
    match device with
    | none => panic "InvalidSlotId"
    | some device =>
        ensure (0 < device.rootHubPortNumber) .overflow
        let portIndex := device.rootHubPortNumber - 1
        let waiting ← finishAddressing portIndex
        resetWaiting waiting
        return portIndex
  initializeDeviceAt portIndex slotId

def processCommandCompletionEvent (event : CommandCompletion) : Handler Unit := do
  if completionCode event.completionCode = some success then
    let s ← get
    match s.commandAt event.commandTrbPointer with
    | none => return ()
    | some .enableSlot => processEnableSlotCompletion event.slotId
    | some (.addressDevice _) => processAddressDeviceCompletion event.slotId
    | some (.configureEndpoint _) =>
        withLock .eventRing (modify (·.putAside (.commandCompletion event)))
    | some (.disableSlot _) | some (.evaluateContext _) | some .other =>
        panic "not yet implemented"
  else return ()

/-- The TRB of a transfer event. -/
def readTransferTrb (event : TransferEvent) : Handler TransferTrb :=
  withDevice event.slotId fun device => do
    ensure device.isSome .assertion
    let s ← get
    match s.transferAt event.trbPointer with
    | some trb => return trb
    | none => fail (.panic .assertion)

/-- Hand a report to the driver of its slot. -/
def dispatchReport (slotId transferLength : Nat) : Handler Unit := do
  let s ← get
  match s.classDrivers.driverKind slotId with
  | none => panic "not yet implemented"
  | some kind =>
      ensure (kind = .mouse → transferLength = 3) .assertion
      withDevice slotId fun device => ensure device.isSome .assertion
      if kind = .hub then return () else withLock .registers (pure ())

def processTransferEvent (event : TransferEvent) : Handler Unit :=
  match completionCode event.completionCode with
  | none => panic "Invalid TransferEvent"
  | some code =>
      if code = success ∨ code = shortPacket then do
        let trb ← readTransferTrb event
        match trb with
        | .normal transferLength => dispatchReport event.slotId transferLength
        | .other => return ()
      else return ()

def processEventRingEvent (event : Event) : Handler Unit :=
  match event with
  | .transferEvent event => processTransferEvent event
  | .commandCompletion event => processCommandCompletionEvent event
  | .portStatusChange event => processPortStatusChangeEvent event
  | .hostController => return ()
  | .bandwidthRequest | .doorbell | .deviceNotification | .mfindexWrap =>
      panic "not yet implemented"

/-- `process_once_received`: the event that was put aside last. -/
def processOnceReceived : Handler Unit := do
  let popped ← withLock .eventRing do
    let s ← get
    modify (·.setPopped s.popped.dropLast)
    return s.popped.getLast?
  match popped with
  | some event => processEventRingEvent event
  | none => return ()

/-- `process_event`: the next event of the ring. Every event parses. -/
def processEvent : Handler Unit := do
  let popped ← withLock .registers <| withLock .eventRing do
    let s ← get
    modify (·.setEvents s.events.tail)
    return s.events.head?
  match popped with
  | some event => processEventRingEvent event
  | none => return ()

section Evaluation

variable {s t : Controller} {m : Mutex} {α : Type}

@[simp] theorem release_hold (s : Controller) (m : Mutex) : (s.hold m).release m = s := by
  cases s
  simp [hold, release]

@[simp] theorem setPort_hold (s : Controller) (m : Mutex) (portIdx : Nat) (portsc : PortSc) :
    (s.hold m).setPort portIdx portsc = (s.setPort portIdx portsc).hold m := rfl

@[simp] theorem setPort_setPort (s : Controller) (portIdx : Nat) (portsc portsc' : PortSc) :
    (s.setPort portIdx portsc).setPort portIdx portsc' = s.setPort portIdx portsc' := by
  simp [setPort]

@[simp] theorem setDevice_setDevice (s : Controller) (slotId : Nat) (d d' : Option Device) :
    (s.setDevice slotId d).setDevice slotId d' = s.setDevice slotId d' := by
  simp [setDevice]

@[simp] theorem setAddressing_setAddressing (s : Controller) (index index' : Option Nat) :
    (s.setAddressing index).setAddressing index' = s.setAddressing index' := rfl

@[simp] theorem setPhase_hold (s : Controller) (m : Mutex) (portIdx : Nat)
    (phase : PortConfigPhase) :
    (s.hold m).setPhase portIdx phase = (s.setPhase portIdx phase).hold m := rfl

@[simp] theorem setAddressing_hold (s : Controller) (m : Mutex) (index : Option Nat) :
    (s.hold m).setAddressing index = (s.setAddressing index).hold m := rfl

@[simp] theorem issue_hold (s : Controller) (m : Mutex) (cmd : Command) :
    (s.hold m).issue cmd = (s.issue cmd).hold m := rfl

@[simp] theorem setSlots_hold (s : Controller) (m : Mutex) (portIdx : Nat)
    (slotIds : Option (List Nat)) :
    (s.hold m).setSlots portIdx slotIds = (s.setSlots portIdx slotIds).hold m := rfl

@[simp] theorem setDevice_hold (s : Controller) (m : Mutex) (slotId : Nat)
    (device : Option Device) :
    (s.hold m).setDevice slotId device = (s.setDevice slotId device).hold m := rfl

@[simp] theorem putAside_hold (s : Controller) (m : Mutex) (event : Event) :
    (s.hold m).putAside event = (s.putAside event).hold m := rfl

@[simp] theorem setPopped_hold (s : Controller) (m : Mutex) (events : List Event) :
    (s.hold m).setPopped events = (s.setPopped events).hold m := rfl

@[simp] theorem setEvents_hold (s : Controller) (m : Mutex) (events : List Event) :
    (s.hold m).setEvents events = (s.setEvents events).hold m := rfl

@[simp] theorem setUserEvents_hold (s : Controller) (m : Mutex) (events : List InitPortDevice) :
    (s.hold m).setUserEvents events = (s.setUserEvents events).hold m := rfl

theorem withLock_done {body : Handler α} {a : α} (hm : m ∉ s.held)
    (h : body (s.hold m) = .done a (t.hold m)) : withLock m body s = .done a t := by
  simp [withLock, lock, unlock, hm, h]

theorem withLock_fail {body : Handler α} {e : Fault} (hm : m ∉ s.held)
    (h : body (s.hold m) = .fail e t) : withLock m body s = .fail e t := by
  simp [withLock, lock, hm, h]

theorem withLock_held {body : Handler α} (hm : m ∈ s.held) :
    withLock m body s = .fail (.deadlock m) s := by
  simp [withLock, lock, hm]

theorem ensure_of {p : Prop} [Decidable p] (e : Panic) (h : p) : ensure p e s = .done () s := by
  simp [ensure, h]

theorem ensure_of_not {p : Prop} [Decidable p] (e : Panic) (h : ¬ p) :
    ensure p e s = .fail (.panic e) s := by
  simp [ensure, h]

theorem readVolatileAt_eq {portIdx : Nat} (hport : portIdx < s.numberOfPorts) :
    readVolatileAt portIdx s = .done (s.portsc portIdx) s := by
  simp [readVolatileAt, ensure, hport]

theorem readVolatileAt_of_not {portIdx : Nat} (hport : ¬ portIdx < s.numberOfPorts) :
    readVolatileAt portIdx s = .fail (.panic .outOfRange) s := by
  simp [readVolatileAt, ensure_of_not _ hport]

theorem updateVolatileAt_eq {portIdx : Nat} (f : PortSc → PortSc)
    (hport : portIdx < s.numberOfPorts) :
    updateVolatileAt portIdx f s = .done () (s.setPort portIdx (f (s.portsc portIdx))) := by
  simp [updateVolatileAt, ensure, hport]

/-- Reading a port register under its own guard. -/
theorem readPort_eq {portIdx : Nat} (f : PortSc → α) (hm : .registers ∉ s.held)
    (hport : portIdx < s.numberOfPorts) :
    withLock .registers (do let portsc ← readVolatileAt portIdx; return f portsc) s =
      .done (f (s.portsc portIdx)) s := by
  apply withLock_done hm
  have hread : readVolatileAt portIdx (s.hold .registers) =
      .done (s.portsc portIdx) (s.hold .registers) := readVolatileAt_eq hport
  simp only [bind_apply, hread, Resumption.bind_done, pure_apply]

/-- Reading a phase under a guard. -/
theorem readPhase_eq {portIdx : Nat} (hm : .portConfigureState ∉ s.held) (hport : portIdx < 256) :
    withLock .portConfigureState (portPhaseAt portIdx) s = .done (s.portConfigPhase portIdx) s := by
  apply withLock_done hm
  simp [portPhaseAt, ensure, hport]

theorem setPortPhaseAt_eq {portIdx : Nat} (phase : PortConfigPhase) (hport : portIdx < 256) :
    setPortPhaseAt portIdx phase s = .done () (s.setPhase portIdx phase) := by
  simp [setPortPhaseAt, ensure, hport]

/-- Setting a phase under a guard. -/
theorem setPhaseLocked_eq {portIdx : Nat} (phase : PortConfigPhase)
    (hm : .portConfigureState ∉ s.held) (hport : portIdx < 256) :
    withLock .portConfigureState (setPortPhaseAt portIdx phase) s =
      .done () (s.setPhase portIdx phase) := by
  apply withLock_done hm
  rw [setPortPhaseAt_eq _ hport]
  rfl

theorem setAddressing_self {index : Option Nat} (h : s.addressingPortIndex = index) :
    s.setAddressing index = s := by
  subst h
  rfl

/-- A port takes the right to address if it is free or already its own. -/
theorem canProcessReset_of_free {portIdx : Nat} (hm : .portConfigureState ∉ s.held)
    (h : s.addressingPortIndex = some portIdx ∨ s.addressingPortIndex = none) :
    canProcessReset portIdx s = .done true (s.setAddressing (some portIdx)) := by
  apply withLock_done hm
  simp only [bind_apply, get_apply, Resumption.bind_done, hold_addressingPortIndex]
  obtain h | h := h
  · simp [h, setAddressing_self h]
  · simp [h, setAddressingPortIndex]

/-- A port waits if another one has the right to address. -/
theorem canProcessReset_of_taken {portIdx : Nat} (hm : .portConfigureState ∉ s.held)
    (hphase : portIdx < 256) (hself : s.addressingPortIndex ≠ some portIdx)
    (hfree : s.addressingPortIndex ≠ none) :
    canProcessReset portIdx s = .done false (s.setPhase portIdx .waitingAddressed) := by
  apply withLock_done hm
  simp only [bind_apply, get_apply, Resumption.bind_done, hold_addressingPortIndex, if_neg hself,
    if_neg hfree]
  simp [setPortPhaseAt_eq _ hphase]

/-- The reset ends with the port ready, or with the assertion that it is enabled. -/
theorem resetRegisters_eq {portIdx : Nat} (hregisters : .registers ∉ s.held)
    (hport : portIdx < s.numberOfPorts) :
    resetRegisters portIdx s =
      if (s.portsc portIdx).afterReset.isEnabled then
        .done () (s.setPort portIdx (s.portsc portIdx).afterReset)
      else .fail (.panic (.message "port is not enabled"))
        ((s.setPort portIdx (s.portsc portIdx).afterReset).hold .registers) := by
  -- the three writes together
  have hbody : ∀ x : Handler Unit,
      (do
        updateVolatileAt portIdx fun portsc => { portsc with portPower := true }
        updateVolatileAt portIdx fun portsc =>
          { portsc with portEnabled := portsc.enablesOnReset, portReset := false }
        updateVolatileAt portIdx fun portsc => { portsc with connectStatusChange := false }
        x : Handler Unit) (s.hold .registers) =
      x ((s.setPort portIdx (s.portsc portIdx).afterReset).hold .registers) := by
    intro x
    simp only [bind_apply, updateVolatileAt_eq, setPort_numberOfPorts, hold_numberOfPorts, hport,
      Resumption.bind_done, setPort_hold, hold_portsc, setPort_portsc, Function.update_self,
      setPort_setPort, PortSc.afterReset]
  split
  next h =>
    apply withLock_done hregisters
    rw [hbody]
    simp [readVolatileAt, ensure, hport, h]
  next h =>
    apply withLock_fail hregisters
    rw [hbody]
    simp [readVolatileAt, ensure, hport, h]

/-- With the registers locked, `reset_port_at` does not get past its first line. -/
theorem resetPortAt_of_held {portIdx : Nat} (hm : .registers ∈ s.held) :
    resetPortAt portIdx s = .fail (.deadlock .registers) s := by
  simp only [resetPortAt, isPortConnectedAt, bind_apply, withLock_held hm, Resumption.bind_fail]

/-- `enable_slot_at` does not get to its recursive call. -/
theorem enableSlotBody_eq (again again' : Handler Nat) (portIdx : Nat) :
    enableSlotBody again portIdx = enableSlotBody again' portIdx := by
  -- the registers are locked when the port is reset
  have hreset (t : Controller) (ht : .registers ∈ t.held) (x : Handler Nat) :
      ((withLock .portConfigureState (setPortPhaseAt portIdx .notConnected) >>= fun _ =>
        resetPortAt portIdx >>= fun _ => x) t) =
      (withLock .portConfigureState (setPortPhaseAt portIdx .notConnected) t).bind fun _ _ =>
        .fail (.deadlock .registers) (t.setPhase portIdx .notConnected) := by
    by_cases hstate : .portConfigureState ∈ t.held
    · rw [bind_apply, withLock_held hstate, Resumption.bind_fail, Resumption.bind_fail]
    by_cases hphase : portIdx < 256
    · rw [bind_apply, setPhaseLocked_eq _ hstate hphase, Resumption.bind_done,
        Resumption.bind_done, bind_apply, resetPortAt_of_held (by simpa using ht),
        Resumption.bind_fail]
    · have hset : withLock .portConfigureState (setPortPhaseAt portIdx .notConnected) t =
          .fail (.panic .outOfRange) (t.hold .portConfigureState) := by
        apply withLock_fail hstate
        rw [setPortPhaseAt, bind_apply, ensure_of_not _ hphase, Resumption.bind_fail]
      rw [bind_apply, hset, Resumption.bind_fail, Resumption.bind_fail]
  funext s
  by_cases hm : .registers ∈ s.held
  · rw [enableSlotBody, enableSlotBody, withLock_held hm, withLock_held hm]
  by_cases hport : portIdx < s.numberOfPorts
  · simp only [enableSlotBody, withLock, lock, bind_apply, hm, if_false, Resumption.bind_done,
      readVolatileAt_eq (s := s.hold .registers) hport, Code.ite_apply]
    congr 1
    split
    · rfl
    · exact (hreset _ (by simp) again).trans (hreset _ (by simp) again').symm
  · simp only [enableSlotBody, withLock, lock, bind_apply, hm, if_false, Resumption.bind_done,
      readVolatileAt_of_not (s := s.hold .registers) hport, Resumption.bind_fail]

end Evaluation

end Controller

end LemolaOs.Xhci
