import LemolaOs.Usb.HubDevice
import LemolaOs.Usb.InputOnlyDevice

/-!
# Class driver steps that fail

The machines of the class drivers assign to the device record behind everything that may fail.
What a failed step can leave in the record is what the host has put there: the data toggles of
the endpoint that it was handed. A host that does not touch them leaves the record as it was.
-/

namespace LemolaOs.Usb

variable {P : InputParams} {σ : Type}

/-- The endpoint, as far as it is the driver's. -/
def Endpoint.withoutToggles (ep : Endpoint) : Endpoint :=
  { ep with inToggle := false, outToggle := false }

/-- The record, as far as it is the driver's. -/
def InputOnlyDevice.withoutToggles (d : InputOnlyDevice P) : InputOnlyDevice P :=
  { d with ep0 := d.ep0.withoutToggles, endpoints := d.endpoints.map (·.map (·.withoutToggles)) }

@[inherit_doc InputOnlyDevice.withoutToggles]
def HubDevice.withoutToggles (d : HubDevice) : HubDevice := { d with ep0 := d.ep0.withoutToggles }

/-- No transfer of the host sets a toggle. This is so for the host of the repository, which
reads the number, the type and the address of an endpoint only. -/
structure Host.LeavesToggles (host : Host σ) : Prop where
  controlTransfer : ∀ ep request bufLen s answer s',
    host.controlTransfer ep request bufLen s = .ok (answer, s') → ep.after answer = ep
  inTransfer : ∀ ep len s answer s',
    host.inTransfer ep len s = .ok (answer, s') → ep.after answer = ep

/-- A device before and after a failed step with the host. -/
structure LeftAsBefore {δ κ : Type} (withoutToggles : δ → κ) (host : Host σ) (before after : δ) :
    Prop where
  record : withoutToggles after = withoutToggles before
  toggles : host.LeavesToggles → after = before

theorem InputOnlyDevice.hidesControl_withoutToggles (host : Host σ) :
    host.HidesControl (InputOnlyDevice.withoutToggles (P := P)) := by
  intro d request bufLen s answer s' _
  rfl

theorem HubDevice.hidesControl_withoutToggles (host : Host σ) :
    host.HidesControl HubDevice.withoutToggles := by
  intro d request bufLen s answer s' _
  rfl

/-- A transfer that leaves the toggles is hidden from the whole record. -/
theorem Host.LeavesToggles.hidesControl {δ : Type} [HasEp0 δ] {host : Host σ}
    (h : host.LeavesToggles) : host.HidesControl (id : δ → δ) := by
  intro d request bufLen s answer s' hcall
  rw [h.controlTransfer _ _ _ _ _ _ hcall, HasEp0.setEp0_ep0]

namespace InputOnlyDevice

theorem setEndpoint0_endpoint0 (d : InputOnlyDevice P) : d.setEndpoint0 d.endpoint0 = d := by
  have hset : d.endpoints.set 0 d.endpoint0 P.maxEndpoints_pos = d.endpoints := by
    refine Vector.ext fun i hi => ?_
    rw [Vector.getElem_set]
    split
    next h =>
      subst h
      rfl
    next => rfl
  rw [setEndpoint0, hset]

theorem hidesIn_withoutToggles (host : Host σ) :
    HidesIn host (withoutToggles (P := P)) := by
  intro d ep len s answer s' hep _
  have hset : (d.endpoints.set 0 (some (ep.after answer)) P.maxEndpoints_pos).map
      (·.map (·.withoutToggles)) = d.endpoints.map (·.map (·.withoutToggles)) := by
    refine Vector.ext fun i hi => ?_
    rw [Vector.getElem_map, Vector.getElem_map, Vector.getElem_set]
    split
    next h =>
      subst h
      exact congrArg (·.map (·.withoutToggles)) hep.symm
    next => rfl
  simp only [withoutToggles, setEndpoint0, hset]

/-- A transfer that leaves the toggles is hidden from the whole record. -/
theorem hidesIn_of_leavesToggles {host : Host σ} (h : host.LeavesToggles) :
    HidesIn host (id : InputOnlyDevice P → InputOnlyDevice P) := by
  intro d ep len s answer s' hep hcall
  rw [h.inTransfer _ _ _ _ _ hcall, ← hep, setEndpoint0_endpoint0]

/-- A step of either machine that fails leaves the record as before. -/
theorem fsmWith_leftAsBefore {notFound : String} {types : UsbTypes} {host : Host σ} {millis : Nat}
    {m t : Machine (InputOnlyDevice P) σ (UInt8 × List UInt8)} {e : TransferError}
    (h : fsmWith notFound types host millis m = .ok (.error e, t)) :
    LeftAsBefore withoutToggles host m.device t.device where
  record := (atomic_fsmWith (hidesControl_withoutToggles host) (hidesIn_withoutToggles host) types
    notFound millis).rel h
  toggles hleaves := (atomic_fsmWith hleaves.hidesControl (hidesIn_of_leavesToggles hleaves) types
    notFound millis).rel h

end InputOnlyDevice

theorem HubDevice.fsm_leftAsBefore {types : UsbTypes} {host : AsyncHost σ}
    {m t : Machine HubDevice σ (UInt8 × Bool)} {e : TransferError}
    (h : fsm types host m = .ok (.error e, t)) :
    LeftAsBefore withoutToggles host.toHost m.device t.device where
  record := (atomic_fsm (hidesControl_withoutToggles host.toHost) types).rel h
  toggles hleaves := (atomic_fsm hleaves.hidesControl types).rel h

/-- A step of a class driver that fails leaves the record as before. -/
theorem failed_step_leftAsBefore (P : InputParams) (types : UsbTypes) (host : Host σ)
    (asyncHost : AsyncHost σ) (millis : Nat) :
    (∀ m e t, InputOnlyDevice.fsm (P := P) types host millis m = .ok (.error e, t) →
      LeftAsBefore InputOnlyDevice.withoutToggles host m.device t.device) ∧
    (∀ m e t, InputOnlyDevice.asyncFsm (P := P) types asyncHost.toHost millis m =
        .ok (.error e, t) →
      LeftAsBefore InputOnlyDevice.withoutToggles asyncHost.toHost m.device t.device) ∧
    ∀ m e t, HubDevice.fsm types asyncHost m = .ok (.error e, t) →
      LeftAsBefore HubDevice.withoutToggles asyncHost.toHost m.device t.device :=
  ⟨fun _ _ _ h => InputOnlyDevice.fsmWith_leftAsBefore h,
    fun _ _ _ h => InputOnlyDevice.fsmWith_leftAsBefore h,
    fun _ _ _ h => HubDevice.fsm_leftAsBefore h⟩

/-- A host that sets the toggles of any endpoint, and fails. -/
def failingHost (e : TransferError) : AsyncHost Unit where
  controlTransfer _ _ _ s := .ok (⟨.error e, fun _ => 0, true, true⟩, s)
  inTransfer _ _ s := .ok (⟨.error e, fun _ => 0, true, true⟩, s)
  registerHub _ s := .ok (.ok (), s)
  assignAddress _ _ _ s := .ok (.ok (), s)

/-- A keyboard that reports on endpoint 1. -/
def runningKeyboard : InputOnlyDevice .bootKeyboard :=
  ((InputOnlyDevice.new 1 8 fun _ => .ok none).setEndpoint0
    (some (.new 1 1 0 .interrupt .in 8))).setState .running

/-- The request for the configuration is answered by an error. -/
theorem failed_step_leftAsBefore_getConfig :
    LeftAsBefore InputOnlyDevice.withoutToggles (failingHost (.retry "busy")).toHost
      (runningKeyboard.setState .getConfig)
      { runningKeyboard.setState .getConfig with
        ep0 := { runningKeyboard.ep0 with inToggle := true, outToggle := true } } :=
  (failed_step_leftAsBefore .bootKeyboard .usb2 (failingHost (.retry "busy")).toHost
    (failingHost (.retry "busy")) 0).1 ⟨runningKeyboard.setState .getConfig, (), []⟩
    (.retry "busy") ⟨_, (), []⟩ rfl

/-- A failed transfer may leave another toggle in the endpoint of the record. -/
theorem failed_transfer_sets_toggle :
    ¬ ∀ (P : InputParams) (types : UsbTypes) (asyncHost : AsyncHost Unit) (millis : Nat),
      (∀ m e t, InputOnlyDevice.fsm (P := P) types asyncHost.toHost millis m = .ok (.error e, t) →
        t.device.state = m.device.state ∧ t.device.endpoints = m.device.endpoints) ∧
      (∀ m e t, InputOnlyDevice.asyncFsm (P := P) types asyncHost.toHost millis m =
          .ok (.error e, t) →
        t.device.state = m.device.state ∧ t.device.endpoints = m.device.endpoints) ∧
      ∀ m e t, HubDevice.fsm types asyncHost m = .ok (.error e, t) →
        t.device.state = m.device.state ∧
          t.device.configDescriptor = m.device.configDescriptor ∧
          t.device.numberOfPorts = m.device.numberOfPorts ∧
          t.device.powerOn2PowerGood = m.device.powerOn2PowerGood := by
  intro h
  obtain ⟨-, hendpoints⟩ := (h .bootKeyboard .usb2 (failingHost (.permanent "stall")) 0).1
    ⟨runningKeyboard, (), []⟩ (.permanent "stall") ⟨_, (), []⟩ rfl
  have h0 := congrArg (fun endpoints => endpoints.toList.map (·.map (·.inToggle))) hendpoints
  revert h0
  decide

end LemolaOs.Usb
