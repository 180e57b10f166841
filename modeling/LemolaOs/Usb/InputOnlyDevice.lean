import LemolaOs.Usb.EndpointSelection
import LemolaOs.Usb.Host

/-!
# The devices of `InputOnlyDriver`

A keyboard or a mouse is brought to `Running` by a state machine, one state a call. The
asynchronous machine is a copy of the other in which the panic for a missing endpoint has
another text. Logging, and the state that is kept for it, are left out.
-/

namespace LemolaOs.Usb

open Attempt (get lift fail)

/-- The constants that `InputOnlyDriver` is generic in. Both drivers have two endpoints. -/
structure InputParams where
  maxEndpoints : Nat
  settleDelay : Nat
  configBufferLen : Nat
  nInTransferBytes : Nat
  maxEndpoints_pos : 0 < maxEndpoints

/-- `BootKeyboardDriver`. -/
def InputParams.bootKeyboard : InputParams := ⟨2, 2, 256, 8, by decide⟩

/-- `MouseDriver`. -/
def InputParams.mouse : InputParams := ⟨2, 2, 256, 3, by decide⟩

inductive DeviceState where
  | addressed
  | waitForSettle (deadline : Nat)
  | getConfig
  | setConfig (configIndex : UInt8)
  | setProtocol
  | setIdle
  | running
  deriving DecidableEq, Repr

structure InputOnlyDevice (P : InputParams) where
  addr : UInt8
  ep0 : Endpoint
  endpoints : Vector (Option Endpoint) P.maxEndpoints
  state : DeviceState
  endpointSearcher : List UInt8 → Rust (Option EndpointInfo)

variable {P : InputParams} {σ κ : Type}

instance : HasEp0 (InputOnlyDevice P) where
  ep0 := InputOnlyDevice.ep0
  setEp0 ep d := { d with ep0 := ep }
  setEp0_ep0 _ := rfl

/-- The code of the driver. The log has the calls of the callback. -/
abbrev InputStep (P : InputParams) (σ α : Type) :=
  DriverStep (InputOnlyDevice P) σ (UInt8 × List UInt8) α

namespace InputOnlyDevice

def new (addr maxPacketSize : UInt8)
    (endpointSearcher : List UInt8 → Rust (Option EndpointInfo)) : InputOnlyDevice P where
  addr := addr
  ep0 := .new addr 0 0 .control .in maxPacketSize.toUInt16
  endpoints := Vector.replicate P.maxEndpoints none
  state := .addressed
  endpointSearcher := endpointSearcher

/-- `self.endpoints[0]`. -/
def endpoint0 (d : InputOnlyDevice P) : Option Endpoint := d.endpoints.get ⟨0, P.maxEndpoints_pos⟩

/-- `self.endpoints[0] = ep`. -/
def setEndpoint0 (ep : Option Endpoint) (d : InputOnlyDevice P) : InputOnlyDevice P :=
  { d with endpoints := d.endpoints.set 0 ep P.maxEndpoints_pos }

def setState (state : DeviceState) (d : InputOnlyDevice P) : InputOnlyDevice P :=
  { d with state := state }

/-- `host.in_transfer(ep, &mut b)` with the endpoint of the record. -/
def inTransfer (host : Host σ) (ep : Endpoint) :
    InputStep P σ (Except TransferError (Nat → UInt8)) :=
  fun m => do
    let (answer, s) ← host.inTransfer ep P.nInTransferBytes m.host
    .ok (.ok (answer.result.map fun _ => answer.buffer),
      { m with device := m.device.setEndpoint0 (some (ep.after answer)), host := s })

/-- `fsm`, in state `GetConfig`. -/
def getConfig (types : UsbTypes) (notFound : String) (host : Host σ) : InputStep P σ Unit := do
  let configBuf ← readConfiguration types P.configBufferLen host
  let m ← get
  let found ← lift (m.device.endpointSearcher configBuf)
  match found with
  | none => lift (.error (.message notFound))
  | some info =>
      modifyDevice fun d => d.setEndpoint0 <| some <|
        .new d.addr (info.endpoint.bEndpointAddress &&& 0x7f) info.interfaceNum .interrupt .in
          info.endpoint.wMaxPacketSize
      modifyDevice (setState (.setConfig 1))

/-- `fsm`, in state `Running`. -/
def running (host : Host σ) : InputStep P σ Unit := do
  let m ← get
  match m.device.endpoint0 with
  | none => fail (.permanent "no boot keyboard")
  | some ep =>
      match ← inTransfer host ep with
      | .error (.permanent msg) => fail (.permanent msg)
      | .error (.retry _) => return
      | .ok buffer => report (m.device.addr, bytesOf buffer P.nInTransferBytes)

/-- The request of `fsm` in state `SetProtocol`. -/
def setProtocolRequest (ep : Endpoint) : ControlRequest :=
  ⟨⟨.hostToDevice, .usbClass, .interface⟩, .setInterface, 0, 0, ep.interfaceNum.toUInt16⟩

/-- The request of `fsm` in state `SetIdle`. -/
def setIdleRequest : ControlRequest :=
  ⟨⟨.hostToDevice, .usbClass, .interface⟩, .getInterface, 0, 0, 0⟩

/-- The code of `fsm` and of `async_fsm`, with the text for a missing endpoint. -/
def fsmWith (notFound : String) (types : UsbTypes) (host : Host σ) (millis : Nat) :
    InputStep P σ Unit := do
  let m ← get
  match m.device.state with
  | .addressed =>
      let deadline ← lift (usizeAdd millis P.settleDelay)
      modifyDevice (setState (.waitForSettle deadline))
  | .waitForSettle deadline =>
      if deadline < millis then
        let request := standardRequest .deviceToHost .getDescriptor 0 deviceDescriptorType
        let (len, _) ← controlTransfer host request (some types.deviceDescriptorSize)
        check (len = types.deviceDescriptorSize)
        modifyDevice (setState .getConfig)
  | .getConfig => getConfig types notFound host
  | .setConfig configIndex =>
      let _ ← controlTransfer host
        (standardRequest .hostToDevice .setConfiguration configIndex 0) none
      modifyDevice (setState .setProtocol)
  | .setProtocol =>
      match m.device.endpoint0 with
      | some ep =>
          let _ ← controlTransfer host (setProtocolRequest ep) none
          modifyDevice (setState .setIdle)
      | none => fail (.permanent "no boot keyboard")
  | .setIdle =>
      let _ ← controlTransfer host setIdleRequest none
      modifyDevice (setState .running)
  | .running => running host

def fsm (types : UsbTypes) (host : Host σ) (millis : Nat) : InputStep P σ Unit :=
  fsmWith "no interface found" types host millis

def asyncFsm (types : UsbTypes) (host : Host σ) (millis : Nat) : InputStep P σ Unit :=
  fsmWith "no boot keyboard found" types host millis

section Atomic

open Attempt

variable {host : Host σ} {view : InputOnlyDevice P → κ}

/-- An IN transfer is answered, or the host panics. -/
theorem inTransfer_meets {m : Machine (InputOnlyDevice P) σ (UInt8 × List UInt8)} {ep : Endpoint}
    {post : Post Panic TransferError _ (Except TransferError (Nat → UInt8))}
    (hpanicked : ∀ p, host.inTransfer ep P.nInTransferBytes m.host = .error p → post.panicked p)
    (hanswered : ∀ answer s, host.inTransfer ep P.nInTransferBytes m.host = .ok (answer, s) →
      post.returned (answer.result.map fun _ => answer.buffer)
        { m with device := m.device.setEndpoint0 (some (ep.after answer)), host := s }) :
    (inTransfer host ep).Meets m post := by
  rw [Meets, inTransfer]
  cases hcall : host.inTransfer ep P.nInTransferBytes m.host with
  | error p => exact hpanicked p hcall
  | ok answered => exact hanswered answered.1 answered.2 hcall

/-- Nothing that an IN transfer makes of the endpoint is seen. -/
def HidesIn (host : Host σ) (view : InputOnlyDevice P → κ) : Prop :=
  ∀ (d : InputOnlyDevice P) ep len s answer s', d.endpoint0 = some ep →
    host.inTransfer ep len s = .ok (answer, s') →
    view (d.setEndpoint0 (some (ep.after answer))) = view d

theorem atomic_getConfig (h : host.HidesControl view) (types : UsbTypes) (notFound : String) :
    Atomic (Unchanged view) (getConfig types notFound host) := by
  refine (keeps_readConfiguration h types _).atomic_bind fun configBuf => ?_
  refine keeps_get.atomic_bind fun m => ?_
  refine (keeps_lift _).atomic_bind fun found => ?_
  cases found with
  | none => exact atomic_lift _
  | some info => exact fun s => trivial

/-- The only failure behind a change is that of the IN transfer itself. -/
theorem atomic_running (hin : HidesIn host view) : Atomic (Unchanged view) (running host) := by
  intro m
  refine meets_get_bind.mpr ?_
  cases hep : m.device.endpoint0 with
  | none => exact rfl
  | some ep =>
      refine meets_bind.mpr (inTransfer_meets (fun _ _ => trivial) fun answer s hcall => ?_)
      cases answer.result with
      | ok len => trivial
      | error e =>
          cases e with
          | retry reason => trivial
          | permanent reason => exact hin m.device ep _ m.host answer s hep hcall

/-- Where a call fails, it has changed nothing yet but what the host does to its endpoints. -/
theorem atomic_fsmWith (h : host.HidesControl view) (hin : HidesIn host view) (types : UsbTypes)
    (notFound : String) (millis : Nat) :
    Atomic (Unchanged view) (fsmWith notFound types host millis) := by
  refine keeps_get.atomic_bind fun m => ?_
  cases m.device.state with
  | addressed => exact (keeps_lift _).atomic_bind fun _ => atomic_modify _
  | waitForSettle deadline =>
      dsimp only
      split
      · refine (keeps_controlTransfer h _ _).atomic_bind fun result => ?_
        exact (keeps_check _).atomic_bind fun _ => atomic_modify _
      · exact (keeps_pure _).atomic
  | getConfig => exact atomic_getConfig h types notFound
  | setConfig configIndex =>
      exact (keeps_controlTransfer h _ _).atomic_bind fun _ => atomic_modify _
  | setProtocol =>
      cases m.device.endpoint0 with
      | none => exact (keeps_fail _).atomic
      | some ep => exact (keeps_controlTransfer h _ _).atomic_bind fun _ => atomic_modify _
  | setIdle => exact (keeps_controlTransfer h _ _).atomic_bind fun _ => atomic_modify _
  | running => exact atomic_running hin

end Atomic

end InputOnlyDevice

end LemolaOs.Usb
