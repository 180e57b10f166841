import LemolaOs.Library.Transition
import LemolaOs.Usb.Descriptor
import LemolaOs.Usb.Transfer

/-!
# Configuring an interrupt endpoint

`init_transfer_ring_for_interrupt_at` of `kernel/src/usb/device.rs` installs a transfer ring for
the endpoint, asks the controller to configure it, and takes the presence of the ring for the
answer the next time. A ring stays where the controller has refused. The function then fails
once, and every later call says that there is nothing to do.
-/

namespace LemolaOs.Usb

open Xhci (completionCode success)

/-- The fields of an Endpoint Context that are set. -/
structure EndpointContext where
  endpointType : Nat
  trDequeuePointer : Nat
  dequeueCycleState : Bool
  errorCount : Nat
  maxPacketSize : UInt16
  averageTrbLength : Nat
  maxBurstSize : Nat
  maxPrimaryStreams : Nat
  maxEndpointServiceTimeIntervalPayloadLow : UInt16
  mult : Nat
  interval : UInt8
  deriving DecidableEq, Repr

/-- `Input32Byte`, as far as it is used here. -/
structure InputContext where
  addContextFlags : Nat → Bool
  endpoint : Nat → Option EndpointContext
  contextEntries : Nat

/-- `InputContextWrapper::new`: all zero. -/
def InputContext.new : InputContext := ⟨fun _ => false, fun _ => none, 0⟩

/-- `DeviceContextInfo`. A transfer ring is represented by the address of its buffer. -/
structure DeviceContextInfo where
  inputContext : InputContext
  transferRings : Nat → Option Nat

/-- `DeviceContextIndex::from(endpoint_descriptor)`. -/
def deviceContextIndex (endpointDescriptor : EndpointDescriptor) : Rust Nat :=
  let endpointNumber : UInt8 := endpointDescriptor.bEndpointAddress &&& 0xf
  let directionIn : UInt8 := endpointDescriptor.bEndpointAddress >>> 7
  let dci := endpointNumber * 2 + directionIn
  if dci < 32 then .ok dci.toNat else .error .assertion

namespace DeviceContextInfo

/-- `DeviceContextInfo::new`: the ring of the default control pipe, at `ring`. -/
def new (ring : Nat) : DeviceContextInfo :=
  ⟨.new, fun index => if index = 0 then some ring else none⟩

/-- `self.transfer_rings[dci.address() as usize - 1]`. -/
def ringIndex (dci : Nat) : Rust Nat := do
  let index ← usizeSub dci 1
  if index < 31 then return index else throw .outOfRange

def transferRingAt (device : DeviceContextInfo) (dci : Nat) : Rust (Option Nat) := do
  return device.transferRings (← ringIndex dci)

/-- `*self.transfer_ring_at_mut(dci) = Some(ring)`. -/
def setTransferRingAt (device : DeviceContextInfo) (dci ring : Nat) : Rust DeviceContextInfo := do
  let index ← ringIndex dci
  return { device with transferRings := Function.update device.transferRings index (some ring) }

def setAddContextFlag (device : DeviceContextInfo) (i : Nat) : DeviceContextInfo :=
  { device with inputContext := { device.inputContext with
      addContextFlags := Function.update device.inputContext.addContextFlags i true } }

def setEndpoint (device : DeviceContextInfo) (dci : Nat) (context : EndpointContext) :
    DeviceContextInfo :=
  { device with inputContext := { device.inputContext with
      endpoint := Function.update device.inputContext.endpoint dci (some context) } }

def setContextEntries (device : DeviceContextInfo) (entries : Nat) : DeviceContextInfo :=
  { device with inputContext := { device.inputContext with contextEntries := entries } }

@[simp] theorem setAddContextFlag_transferRings (device : DeviceContextInfo) (i : Nat) :
    (device.setAddContextFlag i).transferRings = device.transferRings := rfl

@[simp] theorem setEndpoint_transferRings (device : DeviceContextInfo) (dci : Nat)
    (context : EndpointContext) :
    (device.setEndpoint dci context).transferRings = device.transferRings := rfl

@[simp] theorem setContextEntries_transferRings (device : DeviceContextInfo) (entries : Nat) :
    (device.setContextEntries entries).transferRings = device.transferRings := rfl

end DeviceContextInfo

/-- The interval for the speed of the port, if the speed is known. -/
def intervalFor (portSpeed : Nat) (bInterval : UInt8) : Rust (Option UInt8) :=
  if portSpeed = 1 ∨ portSpeed = 2 then
    -- the most significant bit
    .ok (some ((if bInterval >>> 7 = 1 then 1 else 0) + 3))
  else if portSpeed = 3 ∨ portSpeed = 4 then
    if 1 ≤ bInterval then .ok (some (bInterval - 1)) else .error .overflow
  else .ok none

/-- The arguments of a call, and what it finds: the speed of the port, the ring that
`TransferRing::alloc_new` returns and the completion code of the command. -/
structure ConfigureCall where
  ep : Endpoint
  endpointDescriptor : EndpointDescriptor
  portSpeed : Nat
  newRing : Nat
  answer : Nat

/-- What a call returns, the device afterwards, and the Input Context of the
ConfigureEndpoint command that was issued, if one was. -/
structure ConfigureOutcome where
  result : Except TransferError Bool
  device : DeviceContextInfo
  command : Option InputContext

def initTransferRingForInterruptAt (device : DeviceContextInfo) (call : ConfigureCall) :
    Rust ConfigureOutcome := do
  let dci ← deviceContextIndex call.endpointDescriptor
  match ← device.transferRingAt dci with
  | some _ => return ⟨.ok false, device, none⟩
  | none =>
    let device := { device with inputContext := .new }
    let device := device.setAddContextFlag 0
    match call.ep.transferType with
    | .control | .isochronous | .bulk => throw (.message "not yet implemented")
    | .interrupt =>
      let device := device.setAddContextFlag dci
      let context : EndpointContext :=
        { endpointType := 7
          trDequeuePointer := call.newRing
          dequeueCycleState := true
          errorCount := 3
          maxPacketSize := call.ep.maxPacketSize
          averageTrbLength := 1
          maxBurstSize := 0
          maxPrimaryStreams := 0
          maxEndpointServiceTimeIntervalPayloadLow := call.ep.maxPacketSize
          mult := 0
          interval := 0 }
      match ← intervalFor call.portSpeed call.endpointDescriptor.bInterval with
      | none => return ⟨.error (.permanent "Unknown speed"), device.setEndpoint dci context, none⟩
      | some interval =>
        let device := device.setEndpoint dci { context with interval }
        let device ← device.setTransferRingAt dci call.newRing
        let device := device.setContextEntries dci
        -- the command is pushed, and its completion awaited
        if completionCode call.answer = some success then
          return ⟨.ok true, device, some device.inputContext⟩
        else return ⟨.error (.retry "CompletionCode error"), device, some device.inputContext⟩

/-- The call issues a ConfigureEndpoint command: there is no ring yet and the speed of the
port is known. -/
structure Configures (device : DeviceContextInfo) (call : ConfigureCall) (dci : Nat) : Prop where
  dci_eq : deviceContextIndex call.endpointDescriptor = .ok dci
  no_ring : device.transferRingAt dci = .ok none
  interrupt : call.ep.transferType = .interrupt
  speed : ∃ interval, intervalFor call.portSpeed call.endpointDescriptor.bInterval =
    .ok (some interval)

/-- A call that fails leaves no ring where there was none. -/
def AllOrNothing (device : DeviceContextInfo) (call : ConfigureCall) : Prop :=
  ∀ outcome dci e, initTransferRingForInterruptAt device call = .ok outcome →
    deviceContextIndex call.endpointDescriptor = .ok dci →
    outcome.result = .error e → device.transferRingAt dci = .ok none →
    outcome.device.transferRingAt dci = .ok none

variable {device device' : DeviceContextInfo} {call : ConfigureCall} {outcome : ConfigureOutcome}
  {dci other : Nat}

section Outcome

theorem ringIndex_eq_ok {index : Nat} :
    DeviceContextInfo.ringIndex dci = .ok index ↔ index < 31 ∧ dci = index + 1 := by
  simp only [DeviceContextInfo.ringIndex, Rust.bind_eq_ok, usizeSub_eq_ok]
  constructor
  · rintro ⟨_, ⟨hpos, rfl⟩, h⟩
    split at h
    next hlt =>
      cases h
      exact ⟨hlt, by omega⟩
    next => cases h
  · rintro ⟨hlt, rfl⟩
    exact ⟨index, ⟨by omega, rfl⟩, if_pos hlt⟩

theorem transferRingAt_eq_ok {ring : Option Nat} : device.transferRingAt dci = .ok ring ↔
    ∃ index < 31, dci = index + 1 ∧ device.transferRings index = ring := by
  simp only [DeviceContextInfo.transferRingAt, Rust.bind_eq_ok, ringIndex_eq_ok]
  constructor
  · rintro ⟨index, ⟨hlt, hdci⟩, h⟩
    cases h
    exact ⟨index, hlt, hdci, rfl⟩
  · rintro ⟨index, hlt, hdci, rfl⟩
    exact ⟨index, ⟨hlt, hdci⟩, rfl⟩

/-- All that a call can do: nothing where there is a ring, nothing but set up the context where
the speed is unknown, and otherwise install the ring, whatever the controller answers. -/
theorem outcome_cases (h : initTransferRingForInterruptAt device call = .ok outcome) :
    ∃ dci, deviceContextIndex call.endpointDescriptor = .ok dci ∧
      ((∃ ring, device.transferRingAt dci = .ok (some ring) ∧ outcome = ⟨.ok false, device, none⟩) ∨
      (device.transferRingAt dci = .ok none ∧
        intervalFor call.portSpeed call.endpointDescriptor.bInterval = .ok none ∧
        outcome.result = .error (.permanent "Unknown speed") ∧ outcome.command = none ∧
        outcome.device.transferRings = device.transferRings) ∨
      (Configures device call dci ∧ outcome.command.isSome ∧
        (∃ index, dci = index + 1 ∧ outcome.device.transferRings =
          Function.update device.transferRings index (some call.newRing)) ∧
        outcome.result = if completionCode call.answer = some success then .ok true
          else .error (.retry "CompletionCode error"))) := by
  simp only [initTransferRingForInterruptAt, Rust.bind_eq_ok] at h
  obtain ⟨dci, hdci, ring, hring, h⟩ := h
  refine ⟨dci, hdci, ?_⟩
  cases ring with
  | some ring =>
      cases h
      exact .inl ⟨ring, hring, rfl⟩
  | none =>
      right
      cases hep : call.ep.transferType with
      | control | isochronous | bulk =>
          rw [hep] at h
          cases h
      | interrupt =>
          rw [hep] at h
          simp only [Rust.bind_eq_ok] at h
          obtain ⟨interval, hinterval, h⟩ := h
          cases interval with
          | none =>
              cases h
              exact .inl ⟨hring, hinterval, rfl, rfl, rfl⟩
          | some interval =>
              simp only [DeviceContextInfo.setTransferRingAt, Rust.bind_eq_ok] at h
              obtain ⟨_, ⟨index, hindex, hset⟩, h⟩ := h
              cases hset
              refine .inr ⟨⟨hdci, hring, hep, interval, hinterval⟩, ?_⟩
              obtain ⟨-, hdci⟩ := ringIndex_eq_ok.mp hindex
              split at h
              next hsuccess =>
                cases h
                exact ⟨rfl, ⟨index, hdci, rfl⟩, (if_pos hsuccess).symm⟩
              next hrefused =>
                cases h
                exact ⟨rfl, ⟨index, hdci, rfl⟩, (if_neg hrefused).symm⟩

/-- A call that issues the command installs the ring, and returns what the controller says. -/
theorem outcome_of_configures (h : Configures device call dci) :
    ∃ outcome, initTransferRingForInterruptAt device call = .ok outcome ∧
      outcome.command.isSome ∧
      (∃ index, dci = index + 1 ∧ outcome.device.transferRings =
        Function.update device.transferRings index (some call.newRing)) ∧
      outcome.result = if completionCode call.answer = some success then .ok true
        else .error (.retry "CompletionCode error") := by
  obtain ⟨interval, hinterval⟩ := h.speed
  obtain ⟨index, hindex, hdci, -⟩ := transferRingAt_eq_ok.mp h.no_ring
  simp only [initTransferRingForInterruptAt, h.dci_eq, Rust.ok_bind, h.no_ring, h.interrupt,
    hinterval, DeviceContextInfo.setTransferRingAt, ringIndex_eq_ok.mpr ⟨hindex, hdci⟩]
  split
  · exact ⟨_, rfl, rfl, ⟨index, hdci, rfl⟩, rfl⟩
  · exact ⟨_, rfl, rfl, ⟨index, hdci, rfl⟩, rfl⟩

/-- A failed call leaves no ring exactly where it did not issue a command that was refused. -/
theorem allOrNothing_iff (device : DeviceContextInfo) (call : ConfigureCall) :
    AllOrNothing device call ↔
      ∀ dci, Configures device call dci → completionCode call.answer = some success := by
  constructor
  · intro h dci hconfigures
    by_contra hrefused
    obtain ⟨outcome, houtcome, -, ⟨index, hindex, hrings⟩, hresult⟩ :=
      outcome_of_configures hconfigures
    rw [if_neg hrefused] at hresult
    obtain ⟨i, -, hi, hring⟩ := transferRingAt_eq_ok.mp
      (h outcome _ _ houtcome hconfigures.dci_eq hresult hconfigures.no_ring)
    obtain rfl : i = index := by omega
    rw [hrings, Function.update_self] at hring
    cases hring
  · intro h outcome dci e houtcome hdci herror hnone
    obtain ⟨_, hdci', hcases⟩ := outcome_cases houtcome
    obtain rfl := Except.ok.inj (hdci'.symm.trans hdci)
    obtain ⟨ring, -, rfl⟩ | ⟨-, -, -, -, hrings⟩ | ⟨hconfigures, -, -, hresult⟩ := hcases
    · cases herror
    · rw [transferRingAt_eq_ok] at hnone ⊢
      rwa [hrings]
    · rw [if_pos (h _ hconfigures), herror] at hresult
      cases hresult

end Outcome

/-- What is known of a call that has returned. -/
structure ConfigureRecord where
  dci : Nat
  result : Except TransferError Bool
  command : Option InputContext
  answer : Nat

/-- The call issued a command for its endpoint, and the controller carried it out. -/
def ConfigureRecord.Succeeded (r : ConfigureRecord) : Prop :=
  r.command.isSome ∧ completionCode r.answer = some success

/-- A device and the calls that have been made for it. -/
structure Configuring where
  device : DeviceContextInfo
  history : List ConfigureRecord

/-- One call after the other for a new device. -/
def configureCalls : System Configuring ConfigureCall where
  init s := ∃ ring, s = ⟨.new ring, []⟩
  step s call t := ∃ outcome dci, initTransferRingForInterruptAt s.device call = .ok outcome ∧
    deviceContextIndex call.endpointDescriptor = .ok dci ∧
    t = ⟨outcome.device, s.history ++ [⟨dci, outcome.result, outcome.command, call.answer⟩]⟩

/-- The call is not for endpoint 0, the ring of which the device has from the beginning, and
no command of it is refused. -/
def NotRefused (s : Configuring) (call : ConfigureCall) : Prop :=
  deviceContextIndex call.endpointDescriptor ≠ .ok 1 ∧
    ∀ dci, Configures s.device call dci → completionCode call.answer = some success

/-- Whenever a call returned `Ok`, that call or an earlier one had configured the endpoint. -/
def Configured (history : List ConfigureRecord) : Prop :=
  ∀ before r after b, history = before ++ r :: after → r.result = .ok b →
    ∃ r' ∈ before ++ [r], r'.dci = r.dci ∧ r'.Succeeded

section Runs

variable {s : Configuring} {history : List ConfigureRecord} {r : ConfigureRecord}

theorem Configured.append (h : Configured history)
    (hr : ∀ b, r.result = .ok b → ∃ r' ∈ history ++ [r], r'.dci = r.dci ∧ r'.Succeeded) :
    Configured (history ++ [r]) := by
  intro before q after b hsplit hq
  obtain rfl | ⟨after, last, rfl⟩ := List.eq_nil_or_concat after
  · obtain ⟨rfl, hlast⟩ := List.append_inj' hsplit rfl
    cases hlast
    exact hr b hq
  · have hconcat : before ++ q :: (after ++ [last]) = (before ++ q :: after) ++ [last] := by simp
    rw [List.concat_eq_append, hconcat] at hsplit
    exact h before q after b (List.append_inj' hsplit rfl).1 hq

/-- What the rings say in a run without refusals: there is one for an endpoint other than 0
only if the endpoint was configured. -/
structure RingsTell (s : Configuring) : Prop where
  rings : ∀ index ring, s.device.transferRings index = some ring → index ≠ 0 →
    ∃ r ∈ s.history, r.dci = index + 1 ∧ r.Succeeded
  configured : Configured s.history

theorem RingsTell.step {t : Configuring} (hs : RingsTell s)
    (h : (configureCalls.guard NotRefused).step s call t) : RingsTell t := by
  obtain ⟨⟨hep0, hanswer⟩, outcome, dci, houtcome, hdci, rfl⟩ := h
  obtain ⟨dci', hdci', hcases⟩ := outcome_cases houtcome
  obtain rfl : dci' = dci := Except.ok.inj (hdci'.symm.trans hdci)
  have hkeep : ∀ index ring, s.device.transferRings index = some ring → index ≠ 0 →
      ∃ q ∈ s.history ++ [⟨dci', outcome.result, outcome.command, call.answer⟩],
        q.dci = index + 1 ∧ q.Succeeded := by
    intro index ring hring hindex
    obtain ⟨q, hq, hsucceeded⟩ := hs.rings index ring hring hindex
    exact ⟨q, List.mem_append_left _ hq, hsucceeded⟩
  obtain ⟨ring, hring, rfl⟩ | ⟨-, -, hresult, -, hrings⟩ |
    ⟨hconfigures, hcommand, ⟨index, hindex, hrings⟩, -⟩ := hcases
  · -- The ring that is there tells of the call that has configured the endpoint.
    obtain ⟨index, -, hindex, hpresent⟩ := transferRingAt_eq_ok.mp hring
    refine ⟨hkeep, hs.configured.append fun b _ => ?_⟩
    obtain ⟨q, hq, hqdci, hsucceeded⟩ :=
      hkeep index ring hpresent fun hzero => hep0 (by rw [hdci, hindex, hzero])
    exact ⟨q, hq, hqdci.trans hindex.symm, hsucceeded⟩
  · refine ⟨fun i ring hring => hkeep i ring (hrings ▸ hring), hs.configured.append ?_⟩
    intro b hb
    rw [hresult] at hb
    cases hb
  · have hsucceeded : ConfigureRecord.Succeeded
        ⟨dci', outcome.result, outcome.command, call.answer⟩ := ⟨hcommand, hanswer _ hconfigures⟩
    refine ⟨fun i ring hring hi => ?_, hs.configured.append fun b _ => ?_⟩
    · dsimp only at hring
      rw [hrings] at hring
      by_cases heq : i = index
      · subst heq
        exact ⟨_, List.mem_append_right _ List.mem_cons_self, hindex, hsucceeded⟩
      · rw [Function.update_of_ne heq] at hring
        exact hkeep i ring hring hi
    · exact ⟨_, List.mem_append_right _ List.mem_cons_self, rfl, hsucceeded⟩

theorem ringsTell_of_reachable (hs : (configureCalls.guard NotRefused).Reachable s) :
    RingsTell s := by
  refine hs.invariant ?_ fun _ _ _ _ hs h => hs.step h
  rintro _ ⟨ring, rfl⟩
  refine ⟨fun index ring hring hindex => ?_, fun before r after b hsplit => ?_⟩
  · rw [DeviceContextInfo.new] at hring
    simp [hindex] at hring
  · exact absurd hsplit.symm (by simp)

/-- A call is all or nothing iff no command of it is refused, and in a run of such calls, none
of them for endpoint 0, `Ok` tells of a command that was carried out. -/
theorem configuration_iff (device : DeviceContextInfo) (call : ConfigureCall) (s : Configuring)
    (hs : (configureCalls.guard NotRefused).Reachable s) :
    (AllOrNothing device call ↔
      ∀ dci, Configures device call dci → completionCode call.answer = some success) ∧
    Configured s.history :=
  ⟨allOrNothing_iff device call, (ringsTell_of_reachable hs).configured⟩

/-- Endpoint 1 IN of a full-speed device, and the answer of the controller. -/
def callAnswered (answer : Nat) : ConfigureCall where
  ep := .new 1 1 0 .interrupt .in 8
  endpointDescriptor := ⟨0x81, 3, 8, 10⟩
  portSpeed := 1
  newRing := 0x8000
  answer := answer

theorem deviceContextIndex_callAnswered (answer : Nat) :
    deviceContextIndex (callAnswered answer).endpointDescriptor = .ok 3 :=
  show deviceContextIndex ⟨0x81, 3, 8, 10⟩ = .ok 3 by decide

theorem configures_callAnswered (answer : Nat) :
    Configures (.new 0x4000) (callAnswered answer) 3 where
  dci_eq := deviceContextIndex_callAnswered answer
  no_ring := transferRingAt_eq_ok.mpr ⟨2, by decide, rfl, rfl⟩
  interrupt := rfl
  speed := ⟨3, show intervalFor 1 10 = .ok (some 3) by decide⟩

theorem configuration_iff_success : ∃ s : Configuring,
    (AllOrNothing (.new 0x4000) (callAnswered 1) ↔
      ∀ dci, Configures (.new 0x4000) (callAnswered 1) dci → completionCode 1 = some success) ∧
    Configured s.history ∧ s.history.length = 1 := by
  obtain ⟨outcome, houtcome, -⟩ := outcome_of_configures (configures_callAnswered 1)
  have hdci := deviceContextIndex_callAnswered 1
  have hep0 : deviceContextIndex (callAnswered 1).endpointDescriptor ≠ .ok 1 := by
    rw [hdci]
    decide
  have hreachable : (configureCalls.guard NotRefused).Reachable
      ⟨outcome.device, [] ++ [⟨3, outcome.result, outcome.command, 1⟩]⟩ :=
    .step (.init ⟨0x4000, rfl⟩) ⟨⟨hep0, fun _ _ => rfl⟩, outcome, 3, houtcome, hdci, rfl⟩
  obtain ⟨hiff, hconfigured⟩ := configuration_iff (.new 0x4000) (callAnswered 1) _ hreachable
  exact ⟨_, hiff, hconfigured, rfl⟩

/-- Refused with a TRB error, the first call fails. The second says that nothing is to do. -/
theorem refused_then_ok :
    ¬ ((∀ device call, AllOrNothing device call) ∧
      ∀ s, configureCalls.Reachable s → Configured s.history) := by
  rintro ⟨-, h⟩
  obtain ⟨first, hfirst, -, ⟨index, hindex, hrings⟩, -⟩ :=
    outcome_of_configures (configures_callAnswered 5)
  have hdci := deviceContextIndex_callAnswered 5
  have hagain : initTransferRingForInterruptAt first.device (callAnswered 5) =
      .ok ⟨.ok false, first.device, none⟩ := by
    have hpresent : first.device.transferRingAt 3 = .ok (some (callAnswered 5).newRing) :=
      transferRingAt_eq_ok.mpr ⟨index, by omega, hindex, by rw [hrings, Function.update_self]⟩
    rw [initTransferRingForInterruptAt, hdci, Rust.ok_bind, hpresent]
    rfl
  have hreachable : configureCalls.Reachable ⟨first.device,
      ([] ++ [⟨3, first.result, first.command, 5⟩]) ++ [⟨3, .ok false, none, 5⟩]⟩ :=
    .step (.step (.init ⟨0x4000, rfl⟩) ⟨first, 3, hfirst, hdci, rfl⟩) ⟨_, 3, hagain, hdci, rfl⟩
  obtain ⟨r, hr, -, -, hsuccess⟩ := h _ hreachable [⟨3, first.result, first.command, 5⟩]
    ⟨3, .ok false, none, 5⟩ [] false rfl rfl
  have hanswer : r.answer = 5 := by
    obtain rfl | rfl : r = ⟨3, first.result, first.command, 5⟩ ∨ r = ⟨3, .ok false, none, 5⟩ := by
      simpa using hr
    · rfl
    · rfl
  rw [hanswer] at hsuccess
  exact absurd hsuccess (by decide)

end Runs

end LemolaOs.Usb
