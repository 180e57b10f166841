import LemolaOs.Usb.InputDriver

/-!
# A device with a host that gives in

The host answers a transfer with success, or with a Retry error of which it has a limited
number left; a request for the configuration it answers with bytes of a configuration that
suits the device. A call of the machine then either brings the device to its next state, or
costs one Retry, or finds that the device has not settled yet.
-/

namespace LemolaOs.Usb

open Attempt

variable {P : InputParams} {σ : Type}

/-- The request for the configuration, or the beginning of it. -/
def configurationRequest : ControlRequest :=
  standardRequest .deviceToHost .getDescriptor 0 configurationDescriptorType

/-- Bytes that begin with a configuration descriptor which says how many they are. -/
structure IsConfiguration (types : UsbTypes) (configBufferLen : Nat) (bytes : List UInt8) :
    Prop where
  size_le : types.size .configuration ≤ bytes.length
  wTotalLength :
    (types.configuration (bytes.take (types.size .configuration))).wTotalLength.toNat = bytes.length
  length_le : bytes.length ≤ configBufferLen

/-- A host with at most `rest` Retry errors left, and otherwise success with the length of the
request. The device at an address has the configuration `config`, which is not changed by reading
it. -/
structure Obliging (host : Host σ) (rest : σ → Nat) (config : σ → UInt8 → List UInt8) : Prop where
  answers : ∀ ep request bufLen s, ∃ answer s',
    host.controlTransfer ep request bufLen s = .ok (answer, s') ∧
      ((answer.result = .ok (bufLen.getD 0) ∧ rest s' ≤ rest s) ∨
        ((∃ reason, answer.result = .error (.retry reason)) ∧ rest s' < rest s))
  configuration : ∀ ep len s answer s',
    host.controlTransfer ep configurationRequest (some len) s = .ok (answer, s') →
      answer.result = .ok len → len ≤ (config s ep.address).length →
        bytesOf answer.buffer len = (config s ep.address).take len ∧
          config s' ep.address = config s ep.address

/-- The configuration of the device has the endpoint that its searcher looks for. -/
structure Suited (types : UsbTypes) (config : σ → UInt8 → List UInt8) (d : InputOnlyDevice P) :
    Prop where
  isConfiguration : ∀ s, IsConfiguration types P.configBufferLen (config s d.ep0.address)
  found : ∀ s, ∃ info, d.endpointSearcher (config s d.ep0.address) = .ok (some info)

namespace InputOnlyDevice

/-- The state to which a call at `millis` brings a device. -/
def nextState (P : InputParams) (millis : Nat) : DeviceState → DeviceState
  | .addressed => .waitForSettle (millis + P.settleDelay)
  | .waitForSettle _ => .getConfig
  | .getConfig => .setConfig 1
  | .setConfig _ => .setProtocol
  | .setProtocol => .setIdle
  | .setIdle | .running => .running

/-- What the machine never changes of a record. -/
structure SameDevice (d d' : InputOnlyDevice P) : Prop where
  endpointSearcher : d'.endpointSearcher = d.endpointSearcher
  address : d'.ep0.address = d.ep0.address

/-- The three outcomes of a call at `millis`, with the Retry errors that are left. -/
inductive Moves (P : InputParams) (millis : Nat) :
    DeviceState → Nat → DeviceState → Nat → Prop where
  | advance {state : DeviceState} {r r' : Nat} (hle : r' ≤ r) :
      Moves P millis state r (nextState P millis state) r'
  | retry {state : DeviceState} {r r' : Nat} (hlt : r' < r) : Moves P millis state r state r'
  | settle {deadline r : Nat} (hle : millis ≤ deadline) :
      Moves P millis (.waitForSettle deadline) r (.waitForSettle deadline) r

theorem Moves.rest_le {millis r r' : Nat} {state state' : DeviceState}
    (h : Moves P millis state r state' r') : r' ≤ r := by
  cases h with
  | advance hle => exact hle
  | retry hlt => exact Nat.le_of_lt hlt
  | settle => exact Nat.le_refl _

theorem SameDevice.suited {types : UsbTypes} {config : σ → UInt8 → List UInt8}
    {d d' : InputOnlyDevice P} (hsame : SameDevice d d') (h : Suited types config d) :
    Suited types config d' where
  isConfiguration s := by
    rw [hsame.address]
    exact h.isConfiguration s
  found s := by
    rw [hsame.address, hsame.endpointSearcher]
    exact h.found s

variable {types : UsbTypes} {host : Host σ} {rest : σ → Nat} {config : σ → UInt8 → List UInt8}
  {millis : Nat} {m : Machine (InputOnlyDevice P) σ (UInt8 × List UInt8)}

/-- A call that began with `m` and ends with `m'`. -/
def Moved (rest : σ → Nat) (millis : Nat)
    (m m' : Machine (InputOnlyDevice P) σ (UInt8 × List UInt8)) : Prop :=
  SameDevice m.device m'.device ∧
    Moves P millis m.device.state (rest m.host) m'.device.state (rest m'.host)

/-- A call returns or has to be repeated. -/
def moves (rest : σ → Nat) (millis : Nat)
    (m : Machine (InputOnlyDevice P) σ (UInt8 × List UInt8)) {α : Type} :
    Attempt.Post Panic TransferError (Machine (InputOnlyDevice P) σ (UInt8 × List UInt8)) α where
  returned _ m' := Moved rest millis m m'
  failed e m' := (∃ reason, e = .retry reason) ∧ Moved rest millis m m'
  panicked _ := False

/-- A control transfer succeeds, or costs a Retry. -/
theorem transfer_meets (h : Obliging host rest config) {request : ControlRequest}
    {bufLen : Option Nat} {post : Post Panic TransferError _ (Nat × (Nat → UInt8))}
    (hreturned : ∀ answer s,
      host.controlTransfer m.device.ep0 request bufLen m.host = .ok (answer, s) →
      answer.result = .ok (bufLen.getD 0) → rest s ≤ rest m.host →
      post.returned (bufLen.getD 0, answer.buffer) (m.answered answer s))
    (hfailed : ∀ reason answer s, rest s < rest m.host →
      post.failed (.retry reason) (m.answered answer s)) :
    (controlTransfer host request bufLen).Meets m post := by
  obtain ⟨answer, s, hcall, hresult⟩ := h.answers m.device.ep0 request bufLen m.host
  refine controlTransfer_meets (fun p hp => ?_) fun answer' s' hanswer => ?_
  · nomatch hcall.symm.trans hp
  · cases hcall.symm.trans hanswer
    obtain ⟨hok, hle⟩ | ⟨⟨reason, herror⟩, hlt⟩ := hresult
    · refine ⟨fun e he => (nomatch hok.symm.trans he), fun len hlen => ?_⟩
      cases hok.symm.trans hlen
      exact hreturned answer s hcall hok hle
    · refine ⟨fun e he => ?_, fun len hlen => nomatch herror.symm.trans hlen⟩
      cases herror.symm.trans he
      exact hfailed reason answer s hlt

/-- A call that makes one transfer. -/
theorem transfer_setState_moves (h : Obliging host rest config) {request : ControlRequest}
    {state : DeviceState} (hnext : nextState P millis m.device.state = state) :
    (controlTransfer host request none >>= fun _ =>
      modifyDevice (setState state) : InputStep P σ Unit).Meets m (moves rest millis m) := by
  refine meets_bind.mpr
    (transfer_meets h (fun answer s _ _ hle => ?_) fun reason answer s hlt => ?_)
  · subst hnext
    exact And.intro ⟨rfl, rfl⟩ (.advance hle)
  · exact ⟨⟨reason, rfl⟩, ⟨rfl, rfl⟩, .retry hlt⟩

/-- The configuration is read, or one of the two transfers has to be repeated. -/
theorem readConfiguration_meets (h : Obliging host rest config)
    (hconfig : ∀ s, IsConfiguration types P.configBufferLen (config s m.device.ep0.address))
    {post : Post Panic TransferError (Machine (InputOnlyDevice P) σ (UInt8 × List UInt8))
      (List UInt8)}
    (hreturned : ∀ m', SameDevice m.device m'.device → m'.device.state = m.device.state →
      rest m'.host ≤ rest m.host → post.returned (config m.host m.device.ep0.address) m')
    (hfailed : ∀ reason m', SameDevice m.device m'.device → m'.device.state = m.device.state →
      rest m'.host < rest m.host → post.failed (.retry reason) m') :
    (readConfiguration types P.configBufferLen host).Meets m post := by
  obtain ⟨hsize, htotal, hlen⟩ := hconfig m.host
  refine meets_bind.mpr (transfer_meets h (fun answer s hcall hok hle => ?_)
    fun reason answer s hlt => hfailed reason _ ⟨rfl, rfl⟩ rfl hlt)
  obtain ⟨hbytes, hsame⟩ := h.configuration _ _ _ _ _ hcall hok hsize
  refine meets_bind.mpr (check_meets (fun _ => ?_) fun hne => absurd hne (by simp))
  have hread : (types.configuration
      (bytesOf answer.buffer (types.size .configuration))).wTotalLength.toNat =
        (config m.host m.device.ep0.address).length := by rw [hbytes, htotal]
  dsimp only
  rw [hread, if_neg (by omega), if_neg (by omega)]
  refine meets_bind.mpr (transfer_meets h (fun answer' s' hcall' hok' hle' => ?_)
    fun reason answer' s' hlt => hfailed reason _ ⟨rfl, rfl⟩ rfl (lt_of_lt_of_le hlt hle))
  have hsame' : config s m.device.ep0.address = config m.host m.device.ep0.address := hsame
  obtain ⟨hbytes', -⟩ := h.configuration _ _ _ _ _ hcall' hok' (le_of_eq (congrArg _ hsame'.symm))
  have hall : bytesOf answer'.buffer (config m.host m.device.ep0.address).length =
      config m.host m.device.ep0.address := by
    rw [hbytes']
    change (config s m.device.ep0.address).take _ = _
    rw [hsame', List.take_length]
  refine meets_bind.mpr (check_meets (fun _ => ?_) fun hne => absurd hne (by simp))
  refine meets_pure.mpr ?_
  rw [hall]
  exact hreturned _ ⟨rfl, rfl⟩ rfl (le_trans hle' hle)

theorem getConfig_moves {notFound : String} (h : Obliging host rest config)
    (hsuited : Suited types config m.device) (hstate : m.device.state = .getConfig) :
    (getConfig types notFound host).Meets m (moves rest millis m) := by
  refine meets_bind.mpr (readConfiguration_meets h hsuited.isConfiguration
    (fun m' hsame hstate' hle => ?_) fun reason m' hsame hstate' hlt => ?_)
  · obtain ⟨info, hinfo⟩ := hsuited.found m.host
    rw [← hsame.endpointSearcher] at hinfo
    refine meets_get_bind.mpr ?_
    rw [hinfo]
    refine And.intro ⟨hsame.endpointSearcher, hsame.address⟩ ?_
    rw [hstate]
    exact .advance hle
  · refine ⟨⟨reason, rfl⟩, hsame, ?_⟩
    rw [hstate']
    exact .retry hlt

/-- A call with an obliging host, of a device that is not yet running. -/
theorem fsmWith_moves {notFound : String} (h : Obliging host rest config)
    (hsuited : Suited types config m.device) (hfound : m.device.Found)
    (hclock : m.device.state = .addressed → millis + P.settleDelay < usizeSize)
    (hrunning : m.device.state ≠ .running) :
    (fsmWith notFound types host millis).Meets m (moves rest millis m) := by
  refine meets_get_bind.mpr ?_
  cases hstate : m.device.state with
  | addressed =>
      have hsum : usizeAdd millis P.settleDelay = .ok (millis + P.settleDelay) :=
        usizeAdd_eq_ok.mpr ⟨hclock hstate, rfl⟩
      dsimp only
      rw [hsum]
      refine And.intro ⟨rfl, rfl⟩ ?_
      rw [hstate]
      exact .advance (Nat.le_refl _)
  | waitForSettle deadline =>
      dsimp only
      split
      next =>
        refine meets_bind.mpr (transfer_meets h (fun answer s _ _ hle => ?_)
          fun reason answer s hlt => ?_)
        · refine meets_bind.mpr (check_meets (fun _ => ?_) fun hne => absurd hne (by simp))
          refine And.intro ⟨rfl, rfl⟩ ?_
          rw [hstate]
          exact .advance hle
        · exact ⟨⟨reason, rfl⟩, ⟨rfl, rfl⟩, .retry hlt⟩
      next hle =>
        refine And.intro ⟨rfl, rfl⟩ ?_
        rw [hstate]
        exact .settle (Nat.le_of_not_lt hle)
  | getConfig => exact getConfig_moves h hsuited hstate
  | setConfig configIndex => exact transfer_setState_moves h (by rw [hstate]; rfl)
  | setProtocol =>
      have hep : m.device.endpoint0.isSome = true := hfound (by rw [hstate]; rfl)
      obtain ⟨ep, heq⟩ := Option.isSome_iff_exists.mp hep
      rw [heq]
      exact transfer_setState_moves h (by rw [hstate]; rfl)
  | setIdle => exact transfer_setState_moves h (by rw [hstate]; rfl)
  | running => exact absurd hstate hrunning

end InputOnlyDevice

end LemolaOs.Usb
