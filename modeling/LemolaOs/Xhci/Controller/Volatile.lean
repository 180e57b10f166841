import LemolaOs.Library.Questions
import LemolaOs.Xhci.Controller.Handlers

/-!
# Port registers that change

The port registers belong to the hardware: a device may be pulled out between two
reads, whatever locks the kernel holds. Here every access to a PORTSC waits first,
and meanwhile the registers may take any contents. The read of `enable_slot_at`
waits under a name of its own.

The functions are those of the handlers that access a port register, or call a
function that does; everything else is lifted. If the registers stay as they are,
they are the handlers themselves (`Chain.run_calm`).
-/

namespace LemolaOs.Xhci.Controller

open Code

/-- The port registers have changed. -/
@[simps] def setPorts (s : Controller) (portsc : Nat → PortSc) : Controller :=
  { s with portsc := portsc }

/-- The points at which a handler is interrupted: it waits for an event, it is about to
access a port register, or it is about to read the register that `enable_slot_at` tests.
The answer to an access says nothing. -/
inductive Pause where
  | event (future : Future)
  | access
  | enableSlot (portIdx : Nat)

/-- Controller code during which the port registers may change. -/
abbrev PortHandler := Code Controller Pause Event Fault

namespace Volatile

/-- Code that does not access a port register. -/
def lift {α : Type} (x : Handler α) : PortHandler α := x.relabel .event

def withLock {α : Type} (m : Mutex) (body : PortHandler α) : PortHandler α := do
  lift (lock m)
  let a ← body
  lift (unlock m)
  return a

def withDevice {α : Type} (slotId : Nat) (body : Option Device → PortHandler α) :
    PortHandler α := do
  let s ← get
  lift (ensure (slotId ≤ s.maxSlots) .outOfRange)
  withLock (.device slotId) do
    let s ← get
    body (s.device slotId)

def readVolatileAt (pause : Pause) (portIdx : Nat) : PortHandler PortSc := do
  let _ ← await pause
  lift (Controller.readVolatileAt portIdx)

def updateVolatileAt (portIdx : Nat) (f : PortSc → PortSc) : PortHandler Unit := do
  let _ ← await .access
  lift (Controller.updateVolatileAt portIdx f)

def isPortConnectedAt (portIdx : Nat) : PortHandler Bool :=
  withLock .registers do
    let portsc ← readVolatileAt .access portIdx
    return portsc.currentConnectStatus

def resetRegisters (portIdx : Nat) : PortHandler Unit :=
  withLock .registers do
    updateVolatileAt portIdx fun portsc => { portsc with portPower := true }
    updateVolatileAt portIdx fun portsc =>
      { portsc with portEnabled := portsc.enablesOnReset, portReset := false }
    updateVolatileAt portIdx fun portsc => { portsc with connectStatusChange := false }
    let portsc ← readVolatileAt .access portIdx
    lift (ensure portsc.isEnabled (.message "port is not enabled"))

def resetPortAt (portIdx : Nat) : PortHandler Unit := do
  let isConnected ← isPortConnectedAt portIdx
  let connectStatusChange ← withLock .registers do
    let portsc ← readVolatileAt .access portIdx
    return portsc.connectStatusChange
  if !isConnected then return ()
  if !connectStatusChange then return ()
  let _isEnabled ← withLock .registers do
    let portsc ← readVolatileAt .access portIdx
    return portsc.isEnabled
  let canProcess ← lift (canProcessReset portIdx)
  if !canProcess then return ()
  withLock .portConfigureState do
    let phase ← lift (portPhaseAt portIdx)
    lift (ensure (phase = .notConnected ∨ phase = .waitingAddressed)
      (.message "INVALID PortConfigPhase state."))
  resetRegisters portIdx

def configurePortAt (portIdx : Nat) : PortHandler Unit := do
  let isConnected ← withLock .portConfigureState do
    let phase ← lift (portPhaseAt portIdx)
    return phase != .notConnected
  if !isConnected then resetPortAt portIdx else return ()

/-- The body of `enable_slot_at`. It acts on what it reads itself, whatever the last reset
has seen. -/
def enableSlotBody (again : PortHandler Nat) (portIdx : Nat) : PortHandler Nat :=
  withLock .registers do
    let portsc ← readVolatileAt (.enableSlot portIdx) portIdx
    if portsc.Ready then
      withLock .portConfigureState (lift (setPortPhaseAt portIdx .enablingSlot))
      withLock .commandRing (lift (pushCommand .enableSlot))
    else
      withLock .portConfigureState (lift (setPortPhaseAt portIdx .notConnected))
      resetPortAt portIdx
      again

/-- `enable_slot_at`. The recursive call comes behind a reset that does not return, so any code
may stand for it. -/
def enableSlotAt (portIdx : Nat) : PortHandler Nat :=
  enableSlotBody (fail (.panic .assertion)) portIdx

def addressDeviceAt (portIndex slotId routing speed : Nat)
    (parentHubSlotId parentPortIndex : Option Nat) : PortHandler Nat := do
  withLock .portSlotIdMap do
    modify fun s => s.setSlots portIndex (some ((s.portSlotIdMap portIndex).getD [] ++ [slotId]))
  lift (allocateDevice portIndex slotId routing)
  lift (Controller.withDevice slotId fun device => ensure device.isSome .assertion)
  withLock .registers do
    let portsc ← readVolatileAt .access portIndex
    lift (Controller.withDevice slotId fun device => do
      let device ← unwrapDevice device
      ensure (portIndex % 256 < 255) .overflow
      modify (·.setDevice slotId (some { device with
        routeString := routing % 2 ^ 18
        rootHubPortNumber := portIndex % 256 + 1
        speed := if speed = 5 then portsc.portSpeed else speed
        parentHubSlotId := parentHubSlotId
        parentPortIndex := parentPortIndex })))
    lift (loadDeviceContext slotId)
    withLock .portConfigureState do
      lift (setPortPhaseAt portIndex .addressingDevice)
      lift (Controller.withDevice slotId fun device => ensure device.isSome .assertion)
      withLock .commandRing (lift (pushCommand (.addressDevice slotId)))

def resetConnectionAt (portIdx : Nat) : PortHandler Unit :=
  withLock .portConfigureState do
    lift (clearAddressing portIdx)
    lift (setPortPhaseAt portIdx .notConnected)
    let slotIds ← withLock .portSlotIdMap do
      let s ← get
      return s.portSlotIdMap portIdx
    withLock .registers do
      updateVolatileAt portIdx fun portsc => { portsc with connectStatusChange := false }
    lift (disableSlots (slotIds.getD []))
    withLock .portSlotIdMap (modify (·.setSlots portIdx none))

def processInitPortDeviceEvent (event : InitPortDevice) : PortHandler Unit := do
  let trbPtr ← enableSlotAt event.portIndex
  let completion ← lift (awaitCompletion trbPtr)
  let slotId := completion.slotId
  lift (ensure (completion.completionCode = success) .assertion)
  let trbPtr ← addressDeviceAt event.portIndex slotId event.routing event.speed
    event.parentHubSlotId event.parentPortIndex
  let completion ← lift (awaitCompletion trbPtr)
  lift (ensure (completion.completionCode = success) .assertion)
  let s ← get
  match s.commandAt completion.commandTrbPointer with
  | some (.addressDevice _) => lift (initializeDeviceAt event.portIndex slotId)
  | _ => return ()

def processUserEvent : PortHandler Unit := do
  let popped ← lift popUserEvent
  match popped with
  | some event => processInitPortDeviceEvent event
  | none => return ()

def processNotConnected (portIdx : Nat) : PortHandler Unit := do
  let canProcess ← lift (canProcessConnect portIdx)
  if canProcess then
    resetPortAt portIdx
    let _ ← enableSlotAt portIdx
    return ()
  else return ()

def processResettingPort (portIdx : Nat) : PortHandler Unit := do
  let canProcess ← lift (canProcessReset portIdx)
  if canProcess then
    let _ ← enableSlotAt portIdx
    return ()
  else return ()

def processWaitingAddressed (portIdx : Nat) (event : PortStatusChange) : PortHandler Unit := do
  let canStart ← lift (canStartInitialization portIdx)
  if canStart then
    withLock .portConfigureState (pure ())
    resetPortAt portIdx
    let _ ← enableSlotAt portIdx
    return ()
  else withLock .eventRing (modify (·.putAside (.portStatusChange event)))

def processPortStatusChangeEvent (event : PortStatusChange) : PortHandler Unit := do
  lift (ensure (0 < event.portId) .overflow)
  let portIdx := event.portId - 1
  let connecting ← isPortConnectedAt portIdx
  let phase ← withLock .portConfigureState (lift (portPhaseAt portIdx))
  match phase with
  | .notConnected => processNotConnected portIdx
  | .resettingPort => processResettingPort portIdx
  | .waitingAddressed => processWaitingAddressed portIdx event
  | _ => if !connecting then resetConnectionAt portIdx else return ()

def processEnableSlotCompletion (slotId : Nat) : PortHandler Unit := do
  let portIdx ← lift enablingPort
  let _ ← addressDeviceAt portIdx slotId 0 5 none none

def resetWaiting : Option Nat → PortHandler Unit
  | some portIdx => resetPortAt portIdx
  | none => return ()

def processAddressDeviceCompletion (slotId : Nat) : PortHandler Unit := do
  let portIndex ← withDevice slotId fun device => do
    match device with
    | none => lift (panic "InvalidSlotId")
    | some device =>
        lift (ensure (0 < device.rootHubPortNumber) .overflow)
        let portIndex := device.rootHubPortNumber - 1
        let waiting ← lift (finishAddressing portIndex)
        resetWaiting waiting
        return portIndex
  lift (initializeDeviceAt portIndex slotId)

def processCommandCompletionEvent (event : CommandCompletion) : PortHandler Unit := do
  if completionCode event.completionCode = some success then
    let s ← get
    match s.commandAt event.commandTrbPointer with
    | none => return ()
    | some .enableSlot => processEnableSlotCompletion event.slotId
    | some (.addressDevice _) => processAddressDeviceCompletion event.slotId
    | some (.configureEndpoint _) =>
        withLock .eventRing (modify (·.putAside (.commandCompletion event)))
    | some (.disableSlot _) | some (.evaluateContext _) | some .other =>
        lift (panic "not yet implemented")
  else return ()

def processEventRingEvent (event : Event) : PortHandler Unit :=
  match event with
  | .transferEvent event => lift (processTransferEvent event)
  | .commandCompletion event => processCommandCompletionEvent event
  | .portStatusChange event => processPortStatusChangeEvent event
  | .hostController => return ()
  | .bandwidthRequest | .doorbell | .deviceNotification | .mfindexWrap =>
      lift (panic "not yet implemented")

end Volatile

/-- The entries into the controller. -/
inductive Chain where
  | ringEvent (event : Event)
  | userEvent
  | configurePort (portIdx : Nat)

def Chain.run : Chain → PortHandler Unit
  | .ringEvent event => Volatile.processEventRingEvent event
  | .userEvent => Volatile.processUserEvent
  | .configurePort portIdx => Volatile.configurePortAt portIdx

/-- The handlers of the entries. -/
def Chain.handler : Chain → Handler Unit
  | .ringEvent event => processEventRingEvent event
  | .userEvent => processUserEvent
  | .configurePort portIdx => configurePortAt portIdx

/-- The registers stay as they are: only events are waited for. -/
def calm : Pause → Future ⊕ Event
  | .event future => .inl future
  | .access | .enableSlot _ => .inr .hostController

namespace Volatile

variable {α : Type}

@[simp] theorem lift_calm (x : Handler α) : (lift x).answer calm = x :=
  answer_relabel (f := calm) (fun _ => rfl) x

@[simp] theorem withLock_calm (m : Mutex) (body : PortHandler α) :
    (withLock m body).answer calm = Controller.withLock m (body.answer calm) := by
  simp [withLock, Controller.withLock]

@[simp] theorem withDevice_calm (slotId : Nat) (body : Option Device → PortHandler α) :
    (withDevice slotId body).answer calm =
      Controller.withDevice slotId fun device => (body device).answer calm := by
  simp [withDevice, Controller.withDevice]

@[simp] theorem access_calm (x : Event → PortHandler α) :
    (await .access >>= x).answer calm = (x .hostController).answer calm :=
  answer_await_bind (f := calm) rfl x

@[simp] theorem readVolatileAt_calm (portIdx : Nat) :
    (readVolatileAt .access portIdx).answer calm = Controller.readVolatileAt portIdx := by
  rw [readVolatileAt, access_calm, lift_calm]

@[simp] theorem updateVolatileAt_calm (portIdx : Nat) (f : PortSc → PortSc) :
    (updateVolatileAt portIdx f).answer calm = Controller.updateVolatileAt portIdx f := by
  rw [updateVolatileAt, access_calm, lift_calm]

@[simp] theorem isPortConnectedAt_calm (portIdx : Nat) :
    (isPortConnectedAt portIdx).answer calm = Controller.isPortConnectedAt portIdx := by
  simp [isPortConnectedAt, Controller.isPortConnectedAt]

@[simp] theorem resetRegisters_calm (portIdx : Nat) :
    (resetRegisters portIdx).answer calm = Controller.resetRegisters portIdx := by
  simp [resetRegisters, Controller.resetRegisters]

@[simp] theorem resetPortAt_calm (portIdx : Nat) :
    (resetPortAt portIdx).answer calm = Controller.resetPortAt portIdx := by
  simp [resetPortAt, Controller.resetPortAt]

@[simp] theorem enableSlotAt_calm (portIdx : Nat) :
    (enableSlotAt portIdx).answer calm = Controller.enableSlotAt portIdx := by
  have hread : (readVolatileAt (.enableSlot portIdx) portIdx).answer calm =
      Controller.readVolatileAt portIdx := by
    rw [readVolatileAt, answer_await_bind (f := calm) (r := .hostController) rfl, lift_calm]
  have hagain : (fail (.panic .assertion) : PortHandler Nat).answer calm =
      fail (.panic .assertion) := rfl
  simp [enableSlotAt, enableSlotBody, Controller.enableSlotAt, Controller.enableSlotBody, hread,
    hagain]

@[simp] theorem addressDeviceAt_calm (portIndex slotId routing speed : Nat)
    (parentHubSlotId parentPortIndex : Option Nat) :
    (addressDeviceAt portIndex slotId routing speed parentHubSlotId parentPortIndex).answer calm =
      Controller.addressDeviceAt portIndex slotId routing speed parentHubSlotId
        parentPortIndex := by
  simp [addressDeviceAt, Controller.addressDeviceAt]

@[simp] theorem resetConnectionAt_calm (portIdx : Nat) :
    (resetConnectionAt portIdx).answer calm = Controller.resetConnectionAt portIdx := by
  simp [resetConnectionAt, Controller.resetConnectionAt]

@[simp] theorem processInitPortDeviceEvent_calm (event : InitPortDevice) :
    (processInitPortDeviceEvent event).answer calm =
      Controller.processInitPortDeviceEvent event := by
  simp only [processInitPortDeviceEvent, Controller.processInitPortDeviceEvent, answer_bind,
    enableSlotAt_calm, lift_calm, addressDeviceAt_calm, answer_get]
  congr! with trbPtr completion _ trbPtr' completion' _ s
  split <;> simp_all

@[simp] theorem processPortStatusChangeEvent_calm (event : PortStatusChange) :
    (processPortStatusChangeEvent event).answer calm =
      Controller.processPortStatusChangeEvent event := by
  simp only [processPortStatusChangeEvent, Controller.processPortStatusChangeEvent, answer_bind,
    lift_calm, isPortConnectedAt_calm, withLock_calm]
  congr! with _ connecting phase
  cases phase <;>
    simp [processNotConnected, Controller.processNotConnected, processResettingPort,
      Controller.processResettingPort, processWaitingAddressed,
      Controller.processWaitingAddressed]

@[simp] theorem processAddressDeviceCompletion_calm (slotId : Nat) :
    (processAddressDeviceCompletion slotId).answer calm =
      Controller.processAddressDeviceCompletion slotId := by
  simp only [processAddressDeviceCompletion, Controller.processAddressDeviceCompletion,
    answer_bind, withDevice_calm, lift_calm]
  congr! with device
  cases device with
  | none => simp
  | some device =>
      simp only [answer_bind, lift_calm, answer_pure]
      congr! with _ waiting
      cases waiting <;> simp [resetWaiting, Controller.resetWaiting]

@[simp] theorem processCommandCompletionEvent_calm (event : CommandCompletion) :
    (processCommandCompletionEvent event).answer calm =
      Controller.processCommandCompletionEvent event := by
  simp only [processCommandCompletionEvent, Controller.processCommandCompletionEvent, answer_ite,
    answer_bind, answer_get, answer_pure]
  congr! with _ s
  split <;>
    simp_all [processEnableSlotCompletion, Controller.processEnableSlotCompletion]

end Volatile

/-- The handlers are what is left when no port register changes. -/
theorem Chain.run_calm (chain : Chain) : chain.run.answer calm = chain.handler := by
  cases chain with
  | ringEvent event =>
      cases event <;>
        simp [run, handler, Volatile.processEventRingEvent, processEventRingEvent]
  | userEvent =>
      simp only [run, handler, Volatile.processUserEvent, processUserEvent, answer_bind,
        Volatile.lift_calm]
      congr! with popped
      cases popped <;> simp
  | configurePort portIdx =>
      simp [run, handler, Volatile.configurePortAt, configurePortAt]

end LemolaOs.Xhci.Controller
