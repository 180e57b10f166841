import LemolaOs.Library.Attempt
import LemolaOs.Usb.Descriptor
import LemolaOs.Usb.Transfer

/-!
# The host of a class driver

A class driver talks to its device through a host, the traits `USBHost` and `AsyncUSBHost`.
The host is handed an endpoint of the device record, in which it may set the two data toggles,
and a buffer, which it may fill with anything. What the awaits of the asynchronous driver
admit is part of the behaviour of the host: the record is borrowed by the driver meanwhile.

The driver's code is an `Attempt` on a `Machine`: the device record, the state of the host, and
a log of what the driver reports to others.
-/

namespace LemolaOs.Usb

/-- `usb_host::RequestDirection`. -/
inductive RequestDirection where
  | hostToDevice
  | deviceToHost
  deriving DecidableEq, Repr

/-- `usb_host::RequestKind`. `usbClass` is `Class`. -/
inductive RequestKind where
  | standard
  | usbClass
  | vendor
  deriving DecidableEq, Repr

/-- `usb_host::RequestRecipient`. -/
inductive RequestRecipient where
  | device
  | interface
  | endpoint
  | other
  deriving DecidableEq, Repr

/-- `usb_host::RequestType`. -/
structure RequestType where
  direction : RequestDirection
  kind : RequestKind
  recipient : RequestRecipient
  deriving DecidableEq, Repr

/-- The byte that a request type is in memory. -/
def RequestType.toByte (type : RequestType) : Nat :=
  (match type.direction with
    | .hostToDevice => 0
    | .deviceToHost => 0x80) +
  (match type.kind with
    | .standard => 0
    | .usbClass => 0x20
    | .vendor => 0x40) +
  match type.recipient with
    | .device => 0
    | .interface => 1
    | .endpoint => 2
    | .other => 3

/-- `usb_host::RequestCode`, those that the drivers use. -/
inductive RequestCode where
  | getStatus
  | clearFeature
  | setFeature
  | getDescriptor
  | setConfiguration
  | getInterface
  | setInterface
  deriving DecidableEq, Repr

/-- The arguments of `control_transfer` that make up the request. `WValue` is its two bytes. -/
structure ControlRequest where
  requestType : RequestType
  requestCode : RequestCode
  valueLo : UInt8
  valueHi : UInt8
  index : UInt16
  deriving DecidableEq, Repr

/-- The two bytes of `WValue` in memory. -/
def ControlRequest.value (request : ControlRequest) : UInt16 :=
  request.valueLo.toUInt16 ||| (request.valueHi.toUInt16 <<< 8)

/-- What a transfer leaves: its result, the contents of the buffer and the toggles of the
endpoint. -/
structure Answer where
  result : Except TransferError Nat
  buffer : Nat → UInt8
  inToggle : Bool
  outToggle : Bool

/-- `USBHost`, with the methods that the drivers call. A buffer is given by its length. -/
structure Host (σ : Type) where
  controlTransfer : Endpoint → ControlRequest → Option Nat → σ → Rust (Answer × σ)
  inTransfer : Endpoint → Nat → σ → Rust (Answer × σ)

/-- The further methods of `AsyncUSBHost`. -/
structure AsyncHost (σ : Type) extends Host σ where
  registerHub : UInt8 → σ → Rust (Except TransferError Unit × σ)
  assignAddress : UInt8 → UInt8 → Bool → σ → Rust (Except TransferError Unit × σ)

/-- What the host has made of the endpoint that it was handed. -/
def Endpoint.after (ep : Endpoint) (answer : Answer) : Endpoint :=
  { ep with inToggle := answer.inToggle, outToggle := answer.outToggle }

/-- A device record has an endpoint 0 for control transfers. -/
class HasEp0 (δ : Type) where
  ep0 : δ → Endpoint
  setEp0 : Endpoint → δ → δ
  setEp0_ep0 : ∀ d, setEp0 (ep0 d) d = d

/-- A device record `δ`, the state `σ` of the host and a log of entries `γ`. -/
structure Machine (δ σ γ : Type) where
  device : δ
  host : σ
  log : List γ

/-- The code of a class driver. -/
abbrev DriverStep (δ σ γ α : Type) := Attempt Panic TransferError (Machine δ σ γ) α

variable {δ σ γ κ : Type}

/-- Change the device record. -/
def modifyDevice (f : δ → δ) : DriverStep δ σ γ Unit :=
  Attempt.modify fun m => { m with device := f m.device }

/-- Add an entry to the log. -/
def report (entry : γ) : DriverStep δ σ γ Unit :=
  Attempt.modify fun m => { m with log := m.log ++ [entry] }

/-- `assert!`. -/
def check (p : Bool) : DriverStep δ σ γ Unit := Attempt.lift (debugAssert p)

/-- The machine when a control transfer has been answered. -/
def Machine.answered [HasEp0 δ] (m : Machine δ σ γ) (answer : Answer) (s : σ) : Machine δ σ γ :=
  { m with
    device := HasEp0.setEp0 ((HasEp0.ep0 m.device).after answer) m.device
    host := s }

/-- `host.control_transfer(&mut self.ep0, ..)?`: the number of bytes and the buffer. -/
def controlTransfer [HasEp0 δ] (host : Host σ) (request : ControlRequest) (bufLen : Option Nat) :
    DriverStep δ σ γ (Nat × (Nat → UInt8)) :=
  fun m => do
    let (answer, s) ← host.controlTransfer (HasEp0.ep0 m.device) request bufLen m.host
    .ok (answer.result.map (·, answer.buffer), m.answered answer s)

/-- A call of the host that does not involve the device record, and whose result is unwrapped. -/
def callHost (call : σ → Rust (Except TransferError Unit × σ)) : DriverStep δ σ γ Unit :=
  fun m => do
    match ← call m.host with
    | (.ok (), s) => .ok (.ok (), { m with host := s })
    | (.error _, _) => .error (.message "called `Result::unwrap()` on an `Err` value")

/-- A standard request to the device. -/
def standardRequest (direction : RequestDirection) (code : RequestCode) (valueLo valueHi : UInt8) :
    ControlRequest :=
  ⟨⟨direction, .standard, .device⟩, code, valueLo, valueHi, 0⟩

/-- `DescriptorType::Device as u8`. -/
def deviceDescriptorType : UInt8 := 1

/-- `DescriptorType::Configuration as u8`. -/
def configurationDescriptorType : UInt8 := 2

/-- `usb_host::ConfigurationDescriptor`, with the fields that are used. -/
structure ConfigurationDescriptor where
  wTotalLength : UInt16
  bConfigurationValue : UInt8
  deriving DecidableEq, Repr

/-- What the drivers use of the crate `usb_host` besides: the size of a device descriptor, and
how a configuration descriptor is read from memory. -/
structure UsbTypes extends UsbHost where
  deviceDescriptorSize : Nat
  configuration : List UInt8 → ConfigurationDescriptor

/-- The layout of the specification. -/
def UsbTypes.usb2 : UsbTypes where
  toUsbHost := .usb2
  deviceDescriptorSize := 18
  configuration bytes :=
    ⟨(bytes.getD 2 0).toUInt16 ||| ((bytes.getD 3 0).toUInt16 <<< 8), bytes.getD 5 0⟩

/-- The first `len` bytes of a buffer. -/
def bytesOf (buffer : Nat → UInt8) (len : Nat) : List UInt8 := (List.range len).map buffer

@[simp] theorem length_bytesOf (buffer : Nat → UInt8) (len : Nat) :
    (bytesOf buffer len).length = len := by
  rw [bytesOf, List.length_map, List.length_range]

/-- Both drivers read the configuration the same way: first the descriptor of the configuration
alone, then all of it. The length is compared with that of the buffer twice. -/
def readConfiguration [HasEp0 δ] (types : UsbTypes) (configBufferLen : Nat) (host : Host σ) :
    DriverStep δ σ γ (List UInt8) := do
  let request := standardRequest .deviceToHost .getDescriptor 0 configurationDescriptorType
  let (len, descBuf) ← controlTransfer host request (some (types.size .configuration))
  check (len = types.size .configuration)
  let confDesc := types.configuration (bytesOf descBuf (types.size .configuration))
  let wTotalLength := confDesc.wTotalLength.toNat
  if wTotalLength > configBufferLen then
    Attempt.fail (.permanent "config descriptor too large")
  else if configBufferLen < wTotalLength then
    Attempt.fail (.permanent "config descriptor too large")
  else
    let (len, configBuf) ← controlTransfer host request (some wTotalLength)
    check (len = wTotalLength)
    return bytesOf configBuf wTotalLength

section Rules

open Attempt

variable [HasEp0 δ] {host : Host σ} {m : Machine δ σ γ} {request : ControlRequest}
  {bufLen : Option Nat} {post : Post Panic TransferError (Machine δ σ γ) (Nat × (Nat → UInt8))}

/-- A control transfer is answered, or the host panics. -/
theorem controlTransfer_meets
    (hpanicked : ∀ p, host.controlTransfer (HasEp0.ep0 m.device) request bufLen m.host = .error p →
      post.panicked p)
    (hanswered : ∀ answer s,
      host.controlTransfer (HasEp0.ep0 m.device) request bufLen m.host = .ok (answer, s) →
      (∀ e, answer.result = .error e → post.failed e (m.answered answer s)) ∧
        ∀ len, answer.result = .ok len →
          post.returned (len, answer.buffer) (m.answered answer s)) :
    (controlTransfer host request bufLen).Meets m post := by
  rw [Meets, controlTransfer]
  cases hcall : host.controlTransfer (HasEp0.ep0 m.device) request bufLen m.host with
  | error p => exact hpanicked p hcall
  | ok answered =>
      obtain ⟨answer, s⟩ := answered
      obtain ⟨hfailed, hreturned⟩ := hanswered answer s hcall
      rw [Rust.ok_bind]
      dsimp only
      cases hresult : answer.result with
      | error e => exact hfailed e hresult
      | ok len => exact hreturned len hresult

omit [HasEp0 δ] in
theorem check_meets {p : Bool} {post : Post Panic TransferError (Machine δ σ γ) Unit}
    (hreturned : p = true → post.returned () m) (hpanicked : p = false → post.panicked .assertion) :
    (check p).Meets m post := by
  cases p with
  | false => exact hpanicked rfl
  | true => exact hreturned rfl

end Rules

section Unchanged

open Attempt

/-- The device record looks the same. -/
def Unchanged (view : δ → κ) (m m' : Machine δ σ γ) : Prop := view m'.device = view m.device

instance (view : δ → κ) : Std.Refl (Unchanged (σ := σ) (γ := γ) view) := ⟨fun _ => rfl⟩

instance (view : δ → κ) : IsTrans (Machine δ σ γ) (Unchanged view) :=
  ⟨fun _ _ _ h h' => h'.trans h⟩

variable {view : δ → κ}

theorem keeps_check (p : Bool) :
    Keeps (Unchanged view) (check p : DriverStep δ σ γ Unit) := keeps_lift _

theorem keeps_report (entry : γ) :
    Keeps (Unchanged view) (report entry : DriverStep δ σ γ Unit) := keeps_modify fun _ => rfl

theorem keeps_callHost (call : σ → Rust (Except TransferError Unit × σ)) :
    Keeps (Unchanged view) (callHost call : DriverStep δ σ γ Unit) := by
  intro m
  rw [Meets, callHost]
  cases call m.host with
  | error p => trivial
  | ok answered =>
      obtain ⟨result, s⟩ := answered
      cases result with
      | error e => trivial
      | ok => exact rfl

/-- Nothing that a control transfer makes of endpoint 0 is seen. -/
def Host.HidesControl [HasEp0 δ] (host : Host σ) (view : δ → κ) : Prop :=
  ∀ d request bufLen s answer s',
    host.controlTransfer (HasEp0.ep0 d) request bufLen s = .ok (answer, s') →
    view (HasEp0.setEp0 ((HasEp0.ep0 d).after answer) d) = view d

variable [HasEp0 δ] {host : Host σ}

theorem keeps_controlTransfer (h : host.HidesControl view) (request : ControlRequest)
    (bufLen : Option Nat) :
    Keeps (Unchanged (γ := γ) view) (controlTransfer host request bufLen) := by
  intro m
  refine controlTransfer_meets (fun _ _ => trivial) fun answer s hcall => ?_
  have hview : Unchanged view m (m.answered answer s) := h m.device _ _ _ answer s hcall
  exact ⟨fun _ _ => hview, fun _ _ => hview⟩

theorem keeps_readConfiguration (h : host.HidesControl view) (types : UsbTypes)
    (configBufferLen : Nat) :
    Keeps (Unchanged (γ := γ) view) (readConfiguration types configBufferLen host) := by
  refine (keeps_controlTransfer h _ _).bind fun (len, descBuf) => ?_
  refine (keeps_check _).bind fun _ => ?_
  dsimp only
  split
  · exact keeps_fail _
  · -- the second comparison is gone with the first
    refine (keeps_controlTransfer h _ _).bind fun (len, configBuf) => ?_
    exact (keeps_check _).bind fun _ => keeps_pure _

end Unchanged

end LemolaOs.Usb
