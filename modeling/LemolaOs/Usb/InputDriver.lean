import LemolaOs.Library.Fuel
import LemolaOs.Library.Transition
import LemolaOs.Usb.InputOnlyDevice

/-!
# The loop of `InputOnlyDriver`

`tick_until_running_state` counts a clock of its own and calls the machines of the devices
whenever the clock is at a multiple of one million. The clock is advanced by each call too.

A device that the machine has brought to `SetConfig`, or further, has an endpoint: so it is
in every state that can be reached by calls, whatever the hosts have answered.
-/

namespace LemolaOs.Usb

open Attempt (get)

/-- `usb_host::DriverError`. -/
inductive DriverError where
  | retry (address : UInt8) (reason : String)
  | permanent (address : UInt8) (reason : String)
  deriving DecidableEq, Repr

/-- The driver in the loop: its table of devices, its host, the calls of its callback and the
clock. `Ticking.driver` is the driver without the clock. -/
structure Ticking (P : InputParams) (σ : Type) where
  devices : List (Option (InputOnlyDevice P))
  host : σ
  log : List (UInt8 × List UInt8)
  millis : Nat

namespace Ticking

variable {P : InputParams} {σ : Type}

/-- The condition of the loop. -/
def pending (s : Ticking P σ) : Bool :=
  s.devices.any fun d => d.elim false fun dd => dd.state != .running

/-- `millis += 1`. -/
def tickClock : Attempt Panic DriverError (Ticking P σ) Unit := fun s => do
  let millis ← usizeAdd s.millis 1
  .ok (.ok (), { s with millis := millis })

/-- The body of the inner loop, for the device at an index of the table. -/
def tickDevice (types : UsbTypes) (host : Host σ) (i : Nat) :
    Attempt Panic DriverError (Ticking P σ) Unit := fun s =>
  match s.devices[i]? with
  | none | some none => .ok (.ok (), s)
  | some (some device) =>
      if device.state = .running then .ok (.ok (), s)
      else do
        let (result, m) ← InputOnlyDevice.fsm types host s.millis ⟨device, s.host, s.log⟩
        let s := { s with devices := s.devices.set i (some m.device), host := m.host, log := m.log }
        match result with
        | .error (.permanent e) => .ok (.error (.permanent m.device.addr e), s)
        | .error (.retry _) | .ok () => tickClock s

/-- The inner loop. -/
def tickDevices (types : UsbTypes) (host : Host σ) : Attempt Panic DriverError (Ticking P σ) Unit :=
  do
    let s ← get
    (List.range' 0 s.devices.length).forM (tickDevice types host)

/-- The body of the loop. -/
def tickBody (types : UsbTypes) (host : Host σ) : Attempt Panic DriverError (Ticking P σ) Unit := do
  tickClock
  let s ← get
  if s.millis % 1000000 ≠ 0 then return
  else tickDevices types host

/-- The loop, with a bound on its rounds. -/
def tickLoop (types : UsbTypes) (host : Host σ) :
    (fuel : Nat) → Ticking P σ → Fueled Panic (Except DriverError Unit × Ticking P σ)
  | 0, _ => .out
  | fuel + 1, s =>
      if s.pending then do
        let (result, s) ← Fueled.lift (tickBody types host s)
        match result with
        | .error e => Fueled.lift (.ok (.error e, s))
        | .ok () => tickLoop types host fuel s
      else Fueled.lift (.ok (.ok (), s))

/-- The beginning of the loop. -/
def start (devices : List (Option (InputOnlyDevice P))) (s : σ) : Ticking P σ := ⟨devices, s, [], 0⟩

/-- The states between the rounds of the loop. -/
def rounds (types : UsbTypes) (host : Host σ) (s₀ : Ticking P σ) : System (Ticking P σ) Unit where
  init s := s = s₀
  step s _ t := s.pending ∧ ∃ result, tickBody types host s = .ok (result, t)

end Ticking

/-- `InputOnlyDriver::tick_until_running_state`. -/
def tickUntilRunningState {P : InputParams} {σ : Type} (types : UsbTypes) (host : Host σ)
    (devices : List (Option (InputOnlyDevice P))) (s : σ) (fuel : Nat) :
    Fueled Panic (Except DriverError Unit × Ticking P σ) :=
  Ticking.tickLoop types host fuel (.start devices s)

/-- The states from `SetConfig` on. -/
def DeviceState.fromSetConfig : DeviceState → Bool
  | .addressed | .waitForSettle _ | .getConfig => false
  | .setConfig _ | .setProtocol | .setIdle | .running => true

namespace InputOnlyDevice

variable {P : InputParams} {σ : Type}

/-- A device that was brought to its state by calls of either machine, with any hosts and at any
times. -/
inductive Reached (types : UsbTypes) : InputOnlyDevice P → Prop where
  | new (addr maxPacketSize : UInt8) (endpointSearcher : List UInt8 → Rust (Option EndpointInfo)) :
      Reached types (new addr maxPacketSize endpointSearcher)
  | fsmWith {σ : Type} {notFound : String} {host : Host σ} {millis : Nat}
      {m m' : Machine (InputOnlyDevice P) σ (UInt8 × List UInt8)}
      {result : Except TransferError Unit}
      (hm : Reached types m.device) (h : fsmWith notFound types host millis m = .ok (result, m')) :
      Reached types m'.device

/-- From `SetConfig` on there is an endpoint. -/
def Found (d : InputOnlyDevice P) : Prop := d.state.fromSetConfig = true → d.endpoint0.isSome = true

/-- What a call of the machine keeps. -/
def keepsFound {α : Type} :
    Attempt.Post Panic TransferError (Machine (InputOnlyDevice P) σ (UInt8 × List UInt8)) α :=
  ⟨fun _ m => m.device.Found, fun _ m => m.device.Found, fun _ => True⟩

@[simp] theorem endpoint0_setEndpoint0 (d : InputOnlyDevice P) (ep : Option Endpoint) :
    (d.setEndpoint0 ep).endpoint0 = ep := Vector.getElem_set_self _

@[simp] theorem endpoint0_setState (d : InputOnlyDevice P) (state : DeviceState) :
    (d.setState state).endpoint0 = d.endpoint0 := rfl

section Found

open Attempt

variable {types : UsbTypes} {host : Host σ} {notFound : String} {millis : Nat}
  {m m' : Machine (InputOnlyDevice P) σ (UInt8 × List UInt8)}

/-- The part of the record that `Found` is about. -/
def stateAndEndpoints (d : InputOnlyDevice P) :
    DeviceState × Vector (Option Endpoint) P.maxEndpoints :=
  (d.state, d.endpoints)

theorem hidesControl_stateAndEndpoints :
    host.HidesControl (stateAndEndpoints (P := P)) := fun _ _ _ _ _ _ _ => rfl

theorem Found.congr {d d' : InputOnlyDevice P} (h : d.Found)
    (heq : d'.stateAndEndpoints = d.stateAndEndpoints) : d'.Found := by
  obtain ⟨hstate, hendpoints⟩ := Prod.mk.inj heq
  rw [Found, endpoint0, hstate, hendpoints]
  exact h

/-- A transfer, and what follows. -/
theorem transfer_keepsFound {request : ControlRequest} {bufLen : Option Nat}
    {f : Nat × (Nat → UInt8) → InputStep P σ Unit} (h : m.device.Found)
    (hf : ∀ result t, t.device.stateAndEndpoints = m.device.stateAndEndpoints →
      (f result).Meets t keepsFound) :
    (controlTransfer host request bufLen >>= f).Meets m keepsFound :=
  (keeps_controlTransfer hidesControl_stateAndEndpoints request bufLen).bind_meets hf
    (fun _ _ ht => h.congr ht) fun _ => trivial

/-- A transfer, and then another state behind `SetConfig`. -/
theorem transfer_setState_keepsFound {request : ControlRequest} {bufLen : Option Nat}
    {state : DeviceState} (hep : m.device.endpoint0.isSome = true) :
    (controlTransfer host request bufLen >>= fun _ =>
      modifyDevice (setState state) : InputStep P σ Unit).Meets m keepsFound := by
  refine transfer_keepsFound (fun _ => hep) fun result t ht => ?_
  have hendpoints : t.device.endpoints = m.device.endpoints := (Prod.mk.inj ht).2
  intro _
  rw [endpoint0_setState, endpoint0, hendpoints]
  exact hep

theorem running_keepsFound (h : m.device.Found) : (running host).Meets m keepsFound := by
  refine meets_get_bind.mpr ?_
  cases hep : m.device.endpoint0 with
  | none => exact h
  | some ep =>
      refine meets_bind.mpr (inTransfer_meets (fun _ _ => trivial) fun answer s _ => ?_)
      have hset : (m.device.setEndpoint0 (some (ep.after answer))).Found := fun _ => by
        rw [endpoint0_setEndpoint0]
        rfl
      cases answer.result with
      | ok len => exact hset
      | error e => cases e <;> exact hset

theorem getConfig_keepsFound (h : m.device.Found) :
    (getConfig types notFound host).Meets m keepsFound := by
  refine (keeps_readConfiguration hidesControl_stateAndEndpoints types _).bind_meets
    (fun configBuf t ht => ?_) (fun _ _ ht => h.congr ht) fun _ => trivial
  refine meets_get_bind.mpr (meets_bind.mpr ?_)
  cases t.device.endpointSearcher configBuf with
  | error p => trivial
  | ok found =>
      cases found with
      | none => trivial
      | some info => exact fun _ => by rw [endpoint0_setState, endpoint0_setEndpoint0]; rfl

theorem fsmWith_keepsFound (h : m.device.Found) :
    (fsmWith notFound types host millis).Meets m keepsFound := by
  refine meets_get_bind.mpr ?_
  cases hstate : m.device.state with
  | addressed =>
      refine meets_bind.mpr ?_
      cases usizeAdd millis P.settleDelay with
      | error p => trivial
      | ok deadline => exact nofun
  | waitForSettle deadline =>
      dsimp only
      split
      · refine transfer_keepsFound h fun result t ht => ?_
        exact meets_bind.mpr (check_meets (fun _ => nofun) fun _ => trivial)
      · exact h
  | getConfig => exact getConfig_keepsFound h
  | setConfig configIndex =>
      exact transfer_setState_keepsFound (h (by rw [hstate]; rfl))
  | setProtocol =>
      have hep : m.device.endpoint0.isSome = true := h (by rw [hstate]; rfl)
      obtain ⟨ep, heq⟩ := Option.isSome_iff_exists.mp hep
      rw [heq]
      exact transfer_setState_keepsFound hep
  | setIdle => exact transfer_setState_keepsFound (h (by rw [hstate]; rfl))
  | running => exact running_keepsFound h

/-- A reached device has found only what its descriptors say. -/
theorem Reached.found {d : InputOnlyDevice P} (h : Reached types d) : d.Found := by
  induction h with
  | new => exact nofun
  | @fsmWith _ _ _ _ _ _ result _ hrun hm =>
      cases result with
      | error e => exact (fsmWith_keepsFound hm).failed hrun
      | ok => exact (fsmWith_keepsFound hm).returned hrun

end Found

end InputOnlyDevice

end LemolaOs.Usb
