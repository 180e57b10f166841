import LemolaOs.Library.Loops
import LemolaOs.Usb.Host
import LemolaOs.Usb.Searchers

/-!
# What the kernel learns of a device

`start_initialization` of `kernel/src/usb/device.rs`, up to the point where the class drivers come
in: it reads the descriptor of the device, reads it again as often as the transfer ring has TRBs,
and reads the configuration, from which it selects interfaces and an endpoint. Every request goes
over the control pipe and is tried again when it fails, at most a hundred times.

`ControlPort` is the pipe with the device behind it, which `DevicePipe.served_follows` makes of the
TRBs and events of the pipe. `told` says what a device has told of itself, without requests and
failures and without the memory behind the configuration; with a device that answers at last, and
whose configuration is a chain of descriptors, it is what `start_initialization` learns
(`identify_eq`), down to the descriptors that the device is made of (`device_identified`).
-/

namespace LemolaOs.Usb

open Xhci (completionCode success shortPacket)

/-- A control transfer as `async_control_transfer` sees it: the event that it has waited for, and
what is in the buffer then. -/
structure ControlPort (σ : Type) where
  transfer : ControlRequest → Nat → (Nat → UInt8) → σ → CompletedTransfer × (Nat → UInt8) × σ

/-- What the functions return to their caller. -/
structure Identified where
  deviceDescriptor : List UInt8
  descriptors : List Descriptor
  selection : Selection

section Requests

variable {σ : Type}

/-- `async_control_transfer`. -/
def asyncControlTransfer (port : ControlPort σ) (request : ControlRequest) (bufLen : Nat) :
    (Nat → UInt8) × σ → Rust (Except TransferError Nat × (Nat → UInt8) × σ) :=
  fun (buf, s) => do
    let (trb, buf, s) := port.transfer request bufLen buf s
    let result ← controlTransferResult (some bufLen) trb
    return (result, buf, s)

/-- `request_descriptor`. The buffer stays the same from one attempt to the next. -/
def requestDescriptor (port : ControlPort σ) (descriptorType descriptorIndex : UInt8)
    (bufLen : Nat) : (Nat → UInt8) × σ → Rust (Nat × (Nat → UInt8) × σ) :=
  let request := standardRequest .deviceToHost .getDescriptor descriptorIndex descriptorType
  retry (.message "too many retries")
    (fun p => do
      let (length, p) ← asyncControlTransfer port request bufLen p
      return (length.toOption, p))
    100

/-- `request_device_descriptor`. `fresh` is what memory holds that is not initialized. -/
def requestDeviceDescriptor (types : UsbTypes) (port : ControlPort σ) (fresh : σ → Nat → UInt8)
    (s : σ) : Rust (List UInt8 × σ) := do
  let (length, buf, s) ←
    requestDescriptor port deviceDescriptorType 0 types.deviceDescriptorSize (fresh s, s)
  debugAssert (length == types.deviceDescriptorSize)
  return (bytesOf buf types.deviceDescriptorSize, s)

/-- `request_config_descriptor_and_rest`. -/
def requestConfigDescriptorAndRest (types : UsbTypes) (port : ControlPort σ)
    (fresh : σ → Nat → UInt8) (s : σ) : Rust (List Descriptor × σ) := do
  let (length, buf, s) ←
    requestDescriptor port configurationDescriptorType 0 (types.size .configuration) (fresh s, s)
  debugAssert (length == types.size .configuration)
  let configDescriptor := types.configuration (bytesOf buf (types.size .configuration))
  let wTotalLength := configDescriptor.wTotalLength.toNat
  let (length, buf, s) ←
    requestDescriptor port configurationDescriptorType 0 wTotalLength (fresh s, s)
  debugAssert (length == wTotalLength)
  let descriptors ← configDescriptorAndRest types.toUsbHost (bytesOf buf wTotalLength)
  return (descriptors, s)

/-- `start_initialization` before it turns to the class drivers. -/
def identify (types : UsbTypes) (port : ControlPort σ) (fresh : σ → Nat → UInt8) (bufferLen : Nat)
    (s : σ) : Rust (Identified × σ) := do
  let (deviceDescriptor, s) ← requestDeviceDescriptor types port fresh s
  -- ensure transfer ring is correctly working.
  let s ← (List.range bufferLen).foldlM (fun s _ => do
    let (_, s) ← requestDeviceDescriptor types port fresh s
    return s) s
  let (descriptors, s) ← requestConfigDescriptorAndRest types port fresh s
  return (⟨deviceDescriptor, descriptors, .of descriptors⟩, s)

end Requests

/-- The number of bytes that a configuration says it has. -/
def toldLength (types : UsbTypes) (config : List UInt8) : Nat :=
  (types.configuration (config.take (types.size .configuration))).wTotalLength.toNat

/-- What a device has told of itself, if it is enough. It depends on the bytes of the device
alone. -/
def told (types : UsbTypes) (device config : List UInt8) : Rust Identified :=
  if types.deviceDescriptorSize ≤ device.length ∧ types.size .configuration ≤ config.length ∧
      toldLength types config ≤ config.length then do
    let descriptors ←
      configDescriptorAndRest types.toUsbHost.alone (config.take (toldLength types config))
    return ⟨device.take types.deviceDescriptorSize, descriptors, .of descriptors⟩
  else .error .assertion

/-- The transfer was a success, all of it or part of it. -/
def CompletedTransfer.Ended (trb : CompletedTransfer) : Prop :=
  trb.completionCode = success ∨ trb.completionCode = shortPacket

/-- The device has `data` for the requests of a type. A request that is answered brings the
beginning of it, as much as there is room for; and no more than a hundred in a row fail. -/
structure Tells {σ : Type} (port : ControlPort σ) (failures : σ → Nat) (type : UInt8)
    (data : List UInt8) : Prop where
  limited : ∀ s, failures s ≤ 100
  fails : ∀ bufLen buf s trb buf' s', bufLen ≤ 65535 →
    port.transfer (standardRequest .deviceToHost .getDescriptor 0 type) bufLen buf s =
      (trb, buf', s') → ¬ trb.Ended → failures s' < failures s
  answers : ∀ bufLen buf s trb buf' s', bufLen ≤ 65535 →
    port.transfer (standardRequest .deviceToHost .getDescriptor 0 type) bufLen buf s =
      (trb, buf', s') → trb.Ended →
        Completes bufLen trb ∧ bufLen - trb.trbTransferLength = min bufLen data.length ∧
          bytesOf buf' (min bufLen data.length) = data.take bufLen

section Answered

variable {σ : Type} {port : ControlPort σ} {failures : σ → Nat} {type : UInt8}
  {data : List UInt8} {bufLen : Nat}

/-- A transfer that did not end well is an error for the caller. -/
theorem controlTransferResult_of_not_ended {trb : CompletedTransfer} (h : ¬ trb.Ended)
    (length : Option Nat) : ∃ e, controlTransferResult length trb = .ok (.error e) := by
  rw [CompletedTransfer.Ended, not_or] at h
  rw [controlTransferResult]
  cases hcode : completionCode trb.completionCode with
  | none => exact ⟨_, rfl⟩
  | some code =>
      have heq : code = trb.completionCode := by
        rw [completionCode] at hcode
        split at hcode
        · exact (Option.some_inj.mp hcode).symm
        · cases hcode
      subst heq
      dsimp only
      rw [if_neg h.2, if_neg h.1]
      exact ⟨_, rfl⟩

theorem asyncControlTransfer_eq {request : ControlRequest} {p q : (Nat → UInt8) × σ}
    {trb : CompletedTransfer} (h : port.transfer request bufLen p.1 p.2 = (trb, q)) :
    asyncControlTransfer port request bufLen p = do
      let result ← controlTransferResult (some bufLen) trb
      return (result, q) := by
  simp only [asyncControlTransfer, h]

/-- One attempt fails, or has what the device tells. -/
theorem Tells.attempt (tells : Tells port failures type data) (hlen : bufLen ≤ 65535)
    (p : (Nat → UInt8) × σ) :
    (∃ e q,
      asyncControlTransfer port (standardRequest .deviceToHost .getDescriptor 0 type) bufLen p =
        .ok (.error e, q) ∧ failures q.2 < failures p.2) ∨
      ∃ q,
        asyncControlTransfer port (standardRequest .deviceToHost .getDescriptor 0 type) bufLen p =
          .ok (.ok (min bufLen data.length), q) ∧
        bytesOf q.1 (min bufLen data.length) = data.take bufLen := by
  generalize htransfer : port.transfer (standardRequest .deviceToHost .getDescriptor 0 type) bufLen
    p.1 p.2 = answered
  obtain ⟨trb, q⟩ := answered
  rw [asyncControlTransfer_eq htransfer]
  by_cases hended : trb.Ended
  · obtain ⟨hcompletes, hlength, hbytes⟩ := tells.answers _ _ _ _ _ _ hlen htransfer hended
    refine .inr ⟨q, ?_, hbytes⟩
    rw [controlTransferResult_eq hlen hcompletes, hlength]
    rfl
  · obtain ⟨e, herror⟩ := controlTransferResult_of_not_ended hended (some bufLen)
    refine .inl ⟨e, q, ?_, tells.fails _ _ _ _ _ _ hlen htransfer hended⟩
    rw [herror]
    rfl

theorem requestDescriptor_spec (tells : Tells port failures type data) (hlen : bufLen ≤ 65535)
    (p : (Nat → UInt8) × σ) :
    ∃ length q, requestDescriptor port type 0 bufLen p = .ok (length, q) ∧
      length = min bufLen data.length ∧
      bytesOf q.1 (min bufLen data.length) = data.take bufLen := by
  refine retry_returns (fun p => failures p.2) _ (fun p => ?_) (tells.limited p.2)
  obtain ⟨e, q, hcall, hlt⟩ | ⟨q, hcall, hbytes⟩ := tells.attempt hlen p
  · refine .inl ⟨q, ?_, hlt⟩
    rw [hcall]
    rfl
  · refine .inr ⟨_, q, ?_, rfl, hbytes⟩
    rw [hcall]
    rfl

end Answered

section Identify

variable {σ : Type} {port : ControlPort σ} {failures : σ → Nat} {types : UsbTypes}
  {fresh : σ → Nat → UInt8} {device config : List UInt8}

variable (fresh) in
/-- The descriptor of the device is what the device tells, if that is enough. -/
theorem requestDeviceDescriptor_spec (tells : Tells port failures deviceDescriptorType device)
    (hsize : types.deviceDescriptorSize ≤ 65535) (s : σ) :
    (types.deviceDescriptorSize ≤ device.length →
        ∃ s', requestDeviceDescriptor types port fresh s =
          .ok (device.take types.deviceDescriptorSize, s')) ∧
      (¬ types.deviceDescriptorSize ≤ device.length →
        requestDeviceDescriptor types port fresh s = .error .assertion) := by
  obtain ⟨length, ⟨buf, s'⟩, hrequest, hlength, hbytes⟩ :=
    requestDescriptor_spec tells hsize (fresh s, s)
  rw [requestDeviceDescriptor, hrequest, Rust.ok_bind]
  dsimp only
  constructor
  · intro henough
    rw [Nat.min_eq_left henough] at hlength hbytes
    refine ⟨s', ?_⟩
    rw [hlength, hbytes, debugAssert, beq_self_eq_true]
    rfl
  · intro hshort
    have hne : (length == types.deviceDescriptorSize) = false := by
      rw [beq_eq_false_iff_ne, hlength]
      omega
    rw [hne]
    rfl

variable (fresh) in
theorem requestDeviceDescriptors_spec (tells : Tells port failures deviceDescriptorType device)
    (hsize : types.deviceDescriptorSize ≤ 65535)
    (henough : types.deviceDescriptorSize ≤ device.length) (rounds : List Nat) (s : σ) :
    ∃ s', rounds.foldlM (fun s _ => do
      let (_, s) ← requestDeviceDescriptor types port fresh s
      return s) s = (.ok s' : Rust σ) := by
  induction rounds generalizing s with
  | nil => exact ⟨s, rfl⟩
  | cons round rounds ih =>
      obtain ⟨s₁, hrequest⟩ :=
        (requestDeviceDescriptor_spec fresh tells hsize s).1 henough
      obtain ⟨s', hrest⟩ := ih s₁
      refine ⟨s', ?_⟩
      rw [List.foldlM_cons, hrequest]
      exact hrest

variable (fresh) in
/-- The configuration is read twice, and the second time as much of it as it said the first. -/
theorem requestConfigDescriptorAndRest_eq
    (tells : Tells port failures configurationDescriptorType config)
    (hsize : types.size .configuration ≤ 65535) (s : σ) :
    (requestConfigDescriptorAndRest types port fresh s).map Prod.fst =
      if types.size .configuration ≤ config.length ∧ toldLength types config ≤ config.length then
        configDescriptorAndRest types.toUsbHost (config.take (toldLength types config))
      else .error .assertion := by
  obtain ⟨length, ⟨buf, s₁⟩, hfirst, hlength, hbytes⟩ :=
    requestDescriptor_spec tells hsize (fresh s, s)
  rw [requestConfigDescriptorAndRest, hfirst, Rust.ok_bind]
  dsimp only
  by_cases henough : types.size .configuration ≤ config.length
  · rw [Nat.min_eq_left henough] at hlength hbytes
    have htotal :
        (types.configuration (config.take (types.size .configuration))).wTotalLength.toNat ≤
          65535 := by
      have hlt := UInt16.toNat_lt
        (types.configuration (config.take (types.size .configuration))).wTotalLength
      omega
    obtain ⟨length₂, ⟨buf₂, s₂⟩, hsecond, hlength₂, hbytes₂⟩ :=
      requestDescriptor_spec tells htotal (fresh s₁, s₁)
    rw [hlength, hbytes, debugAssert, beq_self_eq_true, if_pos rfl, Rust.ok_bind, hsecond,
      Rust.ok_bind]
    dsimp only
    rw [toldLength]
    generalize (types.configuration (config.take (types.size .configuration))).wTotalLength.toNat =
      total at hlength₂ hbytes₂ ⊢
    by_cases htold : total ≤ config.length
    · rw [Nat.min_eq_left htold] at hlength₂ hbytes₂
      rw [if_pos ⟨henough, htold⟩, hlength₂, hbytes₂, debugAssert, beq_self_eq_true, if_pos rfl,
        Rust.ok_bind]
      cases configDescriptorAndRest types.toUsbHost (config.take total) <;> rfl
    · have hne : (length₂ == total) = false := by
        rw [beq_eq_false_iff_ne, hlength₂]
        omega
      rw [if_neg fun h => htold h.2, hne]
      rfl
  · have hne : (length == types.size .configuration) = false := by
      rw [beq_eq_false_iff_ne, hlength]
      omega
    rw [if_neg fun h => henough h.1, hne]
    rfl

/-- Neither the failures nor what was in memory shows in what has been learned. -/
theorem identify_eq (usb2 : types.toUsbHost.FollowsUsb2)
    (device_tells : Tells port failures deviceDescriptorType device)
    (config_tells : Tells port failures configurationDescriptorType config)
    (hdevice : types.deviceDescriptorSize ≤ 65535) (hconfig : types.size .configuration ≤ 65535)
    (chain : toldLength types config ≤ config.length →
      Chain types.toUsbHost (config.take (toldLength types config))) (bufferLen : Nat) (s : σ) :
    (identify types port fresh bufferLen s).map Prod.fst = told types device config := by
  obtain ⟨hfirst, hshort⟩ := requestDeviceDescriptor_spec fresh device_tells hdevice s
  rw [identify, told]
  by_cases henough : types.deviceDescriptorSize ≤ device.length
  · obtain ⟨s₁, hrequest⟩ := hfirst henough
    obtain ⟨s₂, hrounds⟩ := requestDeviceDescriptors_spec fresh device_tells hdevice
      henough (List.range bufferLen) s₁
    have hrest := requestConfigDescriptorAndRest_eq fresh config_tells hconfig s₂
    rw [hrequest, Rust.ok_bind]
    dsimp only
    rw [hrounds, Rust.ok_bind]
    simp only [henough, true_and]
    split_ifs at hrest ⊢
    next htold =>
      rw [← configDescriptorAndRest_alone usb2 (chain htold.2), ← hrest]
      cases requestConfigDescriptorAndRest types port fresh s₂ <;> rfl
    · generalize requestConfigDescriptorAndRest types port fresh s₂ = result at hrest ⊢
      cases result with
      | error e =>
          rw [show e = .assertion from Except.error.inj hrest]
          rfl
      | ok _ => cases hrest
  · rw [hshort henough, if_neg fun h => henough h.1]
    rfl

/-- A configuration of well-formed descriptors tells these. -/
theorem told_encode (usb2 : types.toUsbHost.FollowsUsb2) (hsize : types.deviceDescriptorSize = 18)
    {descriptors : List RawDescriptor} (hdevice : 18 ≤ device.length)
    (hlength : 9 ≤ (encode descriptors).length)
    (htold : toldLength types (encode descriptors) = (encode descriptors).length) :
    told types device (encode descriptors) = .ok
      { deviceDescriptor := device.take 18
        descriptors := descriptors.map RawDescriptor.descriptor
        selection := .of (descriptors.map RawDescriptor.descriptor) } := by
  obtain ⟨refs, hcollect, -, hread⟩ := descriptorIter_encode usb2.alone descriptors
  have hparsed : configDescriptorAndRest types.toUsbHost.alone (encode descriptors) =
      .ok (descriptors.map RawDescriptor.descriptor) := by
    rw [configDescriptorAndRest, hcollect]
    exact congrArg Except.ok hread
  rw [told, hsize, usb2.size_configuration, htold, if_pos ⟨hdevice, hlength, Nat.le_refl _⟩,
    List.take_length, hparsed]
  rfl

/-- A device that answers at last is seen as it is. If its configuration, as far as it says that it
goes, is a chain of descriptors, then whether `start_initialization` gets to the class drivers, and
with what, depends on the bytes alone that the device has for its two descriptors; and if these are
well-formed descriptors one after the other, of the length that the first of them says, then it gets
there with exactly these, in order. -/
theorem device_identified (port : ControlPort σ) (failures : σ → Nat) (types : UsbTypes)
    (usb2 : types.toUsbHost.FollowsUsb2) (hsize : types.deviceDescriptorSize = 18)
    (fresh : σ → Nat → UInt8) (device config : List UInt8)
    (device_tells : Tells port failures deviceDescriptorType device)
    (config_tells : Tells port failures configurationDescriptorType config)
    (bufferLen : Nat) (s : σ) :
    ((toldLength types config ≤ config.length →
        Chain types.toUsbHost (config.take (toldLength types config))) →
      (identify types port fresh bufferLen s).map Prod.fst = told types device config) ∧
      ∀ descriptors : List RawDescriptor, config = encode descriptors → 18 ≤ device.length →
        9 ≤ config.length → toldLength types config = config.length →
        (identify types port fresh bufferLen s).map Prod.fst = .ok
          { deviceDescriptor := device.take 18
            descriptors := descriptors.map RawDescriptor.descriptor
            selection := .of (descriptors.map RawDescriptor.descriptor) } := by
  have hconfig := usb2.size_configuration
  have hseen (chain : toldLength types config ≤ config.length →
      Chain types.toUsbHost (config.take (toldLength types config))) :
      (identify types port fresh bufferLen s).map Prod.fst = told types device config :=
    identify_eq usb2 device_tells config_tells (by omega) (by omega) chain bufferLen s
  refine ⟨hseen, ?_⟩
  rintro descriptors rfl hdevice hlength htold
  rw [hseen fun _ => ?_, told_encode usb2 hsize hdevice hlength htold]
  rw [htold, List.take_length]
  exact chain_encode usb2 descriptors

end Identify

/-- A device that answers every other request. -/
def flaky (tell : UInt8 → List UInt8) : ControlPort Bool where
  transfer request bufLen buf failing :=
    let data := tell request.valueHi
    if failing then (⟨4, bufLen, 0⟩, buf, false)
    else (⟨if bufLen ≤ data.length then success else shortPacket, bufLen - data.length, 0⟩,
      fun i => data.getD i (buf i), true)

theorem tells_flaky (tell : UInt8 → List UInt8) (type : UInt8) :
    Tells (flaky tell) Bool.toNat type (tell type) where
  limited failing := (Bool.toNat_le failing).trans (by decide)
  fails bufLen buf failing trb buf' failing' _ htransfer hended := by
    cases failing with
    | true =>
        cases htransfer
        decide
    | false =>
        cases htransfer
        exfalso
        apply hended
        rw [CompletedTransfer.Ended]
        dsimp only
        split
        · exact .inl rfl
        · exact .inr rfl
  answers bufLen buf failing trb buf' failing' _ htransfer hended := by
    cases failing with
    | true =>
        cases htransfer
        obtain hcode | hcode := hended <;> cases hcode
    | false =>
        have hanswer : (trb, buf', failing') =
            (⟨if bufLen ≤ (tell type).length then success else shortPacket,
              bufLen - (tell type).length, 0⟩, fun i => (tell type).getD i (buf i), true) :=
          htransfer.symm
        cases hanswer
        refine ⟨⟨hended, Nat.sub_le .., fun hcode => ?_⟩, ?_, ?_⟩
        · dsimp only at hcode ⊢
          split at hcode
          · omega
          · cases hcode
        · dsimp only
          omega
        · apply List.ext_getElem
          · simp
          · intro i _ hi
            rw [List.length_take] at hi
            have hin : i < (tell type).length := by omega
            simp [bytesOf, List.getD_eq_getElem?_getD, List.getElem?_eq_getElem hin]

/-- The descriptors of a keyboard. -/
def keyboardTells (type : UInt8) : List UInt8 :=
  if type = 2 then
    encode (⟨2, [34, 0, 1, 1, 0, 0xa0, 50], by decide, by decide⟩ :: keyboardDescriptors)
  else [18, 1, 0, 2, 0, 0, 0, 8, 0x5e, 4, 0x50, 7, 0, 1, 1, 2, 0, 1]

theorem device_identified_keyboard :
    (identify .usb2 (flaky keyboardTells) (fun _ _ => 0) 32 true).map (fun p => p.1.descriptors) =
      .ok [.configuration, .interface ⟨0, 3, 1, 1⟩, .unknown, .endpoint ⟨0x81, 3, 8, 10⟩] := by
  have hseen := (device_identified (flaky keyboardTells) Bool.toNat .usb2
    UsbHost.usb2_followsUsb2 rfl (fun _ _ => 0) _ _ (tells_flaky keyboardTells 1)
    (tells_flaky keyboardTells 2) 32 true).2 _ rfl (by decide) (by decide) (by decide)
  generalize identify .usb2 (flaky keyboardTells) (fun _ _ => 0) 32 true = result at hseen ⊢
  cases result with
  | error e => cases hseen
  | ok p =>
      have hfirst := Except.ok.inj hseen
      exact congrArg (fun i : Identified => Except.ok i.descriptors) hfirst

end LemolaOs.Usb
