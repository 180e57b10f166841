import LemolaOs.Usb.HubDevice
import LemolaOs.Xhci.Route

/-!
# Which ports of a hub are announced

`HubDevice::fsm` is called again and again, with transfers that fail anywhere. The device
behind a port is announced by `async_assign_address`, which pushes an event for the
controller to take up. This is the last thing that a call does for a port, so that a call
that is repeated has not announced anything.

What a port was last found to be is read off the log: each entry is a connection status that
was read, which is the first `GET_STATUS` of a call; the second one, of a port that was reset,
is read for the speed and not logged. The last entry of a port counts. The ring of user events
is shared with other tasks, which push and pop while the hub waits for a transfer and between
its calls. It carries its history, what it has received and from whom, and by construction it
holds what it has received and not handed out.
-/

namespace LemolaOs.Usb

open Attempt
open Xhci (InitPortDevice nextRoute completionCode success)

/-- Who pushes on the ring of user events. -/
inductive Sender where
  | hub
  | others
  deriving DecidableEq, Repr

/-- `UserEventRing`, with its history. -/
structure UserEventRing where
  data : List InitPortDevice
  /-- All events that were pushed, and by whom. -/
  received : List (Sender × InitPortDevice)
  /-- How many events were popped. -/
  popped : Nat
  data_eq : data = (received.map (·.2)).drop popped
  popped_le : popped ≤ received.length
  deriving DecidableEq

namespace UserEventRing

def new : UserEventRing := ⟨[], [], 0, rfl, le_rfl⟩

/-- `push`: at the back. -/
def push (sender : Sender) (event : InitPortDevice) (ring : UserEventRing) : UserEventRing where
  data := ring.data ++ [event]
  received := ring.received ++ [(sender, event)]
  popped := ring.popped
  data_eq := by
    have hle : ring.popped ≤ (ring.received.map (·.2)).length := by
      rw [List.length_map]
      exact ring.popped_le
    rw [List.map_append, List.drop_append_of_le_length hle, ← ring.data_eq]
    rfl
  popped_le := by
    rw [List.length_append]
    exact Nat.le_add_right_of_le ring.popped_le

/-- `pop`: off the front. -/
def pop (ring : UserEventRing) : UserEventRing where
  data := ring.data.drop 1
  received := ring.received
  popped := min (ring.popped + 1) ring.received.length
  data_eq := by
    rw [ring.data_eq, List.drop_drop]
    obtain hlt | hge := Nat.lt_or_ge ring.popped ring.received.length
    · rw [Nat.min_eq_left hlt]
    · have hend : (ring.received.map (·.2)).length ≤ ring.popped := by rwa [List.length_map]
      rw [Nat.min_eq_right (Nat.le_succ_of_le hge), List.drop_of_length_le (Nat.le_succ_of_le hend),
        List.drop_of_length_le (List.length_map _).le]
  popped_le := Nat.min_le_right _ _

/-- What the ring has received from the hub. -/
def fromHub (ring : UserEventRing) : List InitPortDevice :=
  (ring.received.filter (·.1 = .hub)).map (·.2)

@[simp] theorem fromHub_push_hub (event : InitPortDevice) (ring : UserEventRing) :
    (ring.push .hub event).fromHub = ring.fromHub ++ [event] := by
  simp [fromHub, push]

@[simp] theorem fromHub_push_others (event : InitPortDevice) (ring : UserEventRing) :
    (ring.push .others event).fromHub = ring.fromHub := by
  simp [fromHub, push]

@[simp] theorem fromHub_pop (ring : UserEventRing) : ring.pop.fromHub = ring.fromHub := rfl

end UserEventRing

/-- What another task does at the ring of user events. -/
inductive RingMove where
  | push (event : InitPortDevice)
  | pop
  deriving DecidableEq, Repr

def RingMove.apply : RingMove → UserEventRing → UserEventRing
  | .push event, ring => ring.push .others event
  | .pop, ring => ring.pop

@[simp] theorem RingMove.fromHub_apply (move : RingMove) (ring : UserEventRing) :
    (move.apply ring).fromHub = ring.fromHub := by
  cases move with
  | push event => exact ring.fromHub_push_others event
  | pop => exact ring.fromHub_pop

/-- What the hub uses of a `DeviceContextInfo`. The transfers and the command are those of
`transport`. -/
structure HubContextInfo (τ : Type) where
  portIndex : Nat
  routing : Nat
  transport : τ
  userEventRing : UserEventRing

/-- Transfers, the completion code of an Evaluate Context command, and what other tasks do at
the ring of user events while the hub waits. -/
structure Transport (τ : Type) extends Host τ where
  evaluateContext : τ → Nat × τ
  meanwhile : τ → List RingMove

/-- Each control transfer is answered, either successfully or with a Retry error. -/
def Transport.Answers {τ : Type} (transport : Transport τ) : Prop :=
  ∀ ep request bufLen s, ∃ answer s',
    transport.controlTransfer ep request bufLen s = .ok (answer, s') ∧
      ((∃ len, answer.result = .ok len) ∨ ∃ reason, answer.result = .error (.retry reason))

namespace HubContextInfo

variable {τ : Type}

/-- The hub's turn comes again, when the transport is in state `s`. -/
def resumed (transport : Transport τ) (s : τ) (info : HubContextInfo τ) : HubContextInfo τ :=
  { info with
    transport := s
    userEventRing := (transport.meanwhile s).foldl (fun ring move => move.apply ring)
      info.userEventRing }

@[simp] theorem fromHub_resumed (transport : Transport τ) (s : τ) (info : HubContextInfo τ) :
    (info.resumed transport s).userEventRing.fromHub = info.userEventRing.fromHub := by
  have hmoves (moves : List RingMove) (ring : UserEventRing) :
      (moves.foldl (fun ring move => move.apply ring) ring).fromHub = ring.fromHub := by
    induction moves generalizing ring with
    | nil => rfl
    | cons move moves ih => rw [List.foldl_cons, ih, RingMove.fromHub_apply]
  exact hmoves _ _

/-- The hub pushes an event. -/
def push (event : InitPortDevice) (info : HubContextInfo τ) : HubContextInfo τ :=
  { info with userEventRing := info.userEventRing.push .hub event }

/-- The event of `async_assign_address` for the device at a port. -/
def initPortDevice (info : HubContextInfo τ) (port : Nat) (deviceIsLowSpeed : Bool) :
    InitPortDevice :=
  ⟨info.portIndex % 256, nextRoute info.routing port, if deviceIsLowSpeed then 1 else 0, none, none⟩

def asyncAssignAddress (portIndex : UInt8) (deviceIsLowSpeed : Bool) (info : HubContextInfo τ) :
    Rust (Except TransferError Unit × HubContextInfo τ) := do
  let port ← nextPort portIndex
  .ok (.ok (), info.push (info.initPortDevice port.toNat deviceIsLowSpeed))

def asyncRegisterHub (transport : Transport τ) (info : HubContextInfo τ) :
    Rust (Except TransferError Unit × HubContextInfo τ) := do
  let received := transport.evaluateContext info.transport
  match completionCode received.1 with
  | none => .error (.message "called `Result::unwrap()` on an `Err` value")
  | some code =>
      debugAssert (code = success)
      .ok (.ok (), info.resumed transport received.2)

/-- A transfer changes the transport only; other tasks use the ring until it is done. -/
def transfer {α : Type} (transport : Transport τ) (call : τ → Rust (α × τ))
    (info : HubContextInfo τ) : Rust (α × HubContextInfo τ) := do
  let (a, s) ← call info.transport
  .ok (a, info.resumed transport s)

/-- `DeviceContextInfo` as a host. -/
def host (transport : Transport τ) : AsyncHost (HubContextInfo τ) where
  controlTransfer ep request bufLen :=
    transfer transport (transport.controlTransfer ep request bufLen)
  inTransfer ep len := transfer transport (transport.inTransfer ep len)
  registerHub _ := asyncRegisterHub transport
  assignAddress _ := asyncAssignAddress

end HubContextInfo

/-- A hub, its host and what was read of its ports. -/
abbrev HubMachine (τ : Type) := Machine HubDevice (HubContextInfo τ) (UInt8 × Bool)

/-- The hub is driven, or another task uses the ring of user events between two calls. -/
inductive HubMove where
  | fsm
  | others (move : RingMove)
  deriving DecidableEq, Repr

/-- All runs of a hub, from its beginning. -/
def hubSystem {τ : Type} (types : UsbTypes) (transport : Transport τ) :
    System (HubMachine τ) HubMove where
  init m := ∃ address maxPacketSize portIndex routing s ring,
    ring.fromHub = [] ∧ m = ⟨.new address maxPacketSize, ⟨portIndex, routing, s, ring⟩, []⟩
  step m move m' :=
    match move with
    | .fsm => ∃ result, HubDevice.fsm types (HubContextInfo.host transport) m = .ok (result, m')
    | .others move => m' =
        { m with host := { m.host with userEventRing := move.apply m.host.userEventRing } }

/-- What was last read of the connection status of a port. -/
def lastRead (log : List (UInt8 × Bool)) (port : Nat) : Option Bool :=
  ((log.filter (·.1.toNat = port)).getLast?).map (·.2)

/-- The ports below `n` that were last found to have a device. -/
def connectedPorts (log : List (UInt8 × Bool)) (n : Nat) : List Nat :=
  (List.range n).filter fun port => lastRead log port = some true

/-- All ports below `n` have been read, and the ring has received an event of this hub for
each of those with a device, in order, and no other event of it. -/
structure Enumerated {τ : Type} (n : Nat) (m : HubMachine τ) : Prop where
  read : ∀ port, port < n → (lastRead m.log port).isSome
  received : ∃ deviceIsLowSpeed : Nat → Bool, m.host.userEventRing.fromHub =
    (connectedPorts m.log n).map fun port =>
      m.host.initPortDevice (port + 1) (deviceIsLowSpeed port)

section Log

variable {log : List (UInt8 × Bool)} {portIndex : UInt8} {connected : Bool} {port n : Nat}

theorem lastRead_append_self :
    lastRead (log ++ [(portIndex, connected)]) portIndex.toNat = some connected := by
  simp [lastRead]

theorem lastRead_append_of_ne (h : portIndex.toNat ≠ port) :
    lastRead (log ++ [(portIndex, connected)]) port = lastRead log port := by
  simp [lastRead, h]

/-- The read of a port does not matter to those before it. -/
theorem connectedPorts_append :
    connectedPorts (log ++ [(portIndex, connected)]) portIndex.toNat =
      connectedPorts log portIndex.toNat := by
  refine List.filter_congr fun port hport => ?_
  have hlt := List.mem_range.mp hport
  rw [lastRead_append_of_ne (by omega)]

theorem connectedPorts_succ_of_connected (h : lastRead log n = some true) :
    connectedPorts log (n + 1) = connectedPorts log n ++ [n] := by
  simp [connectedPorts, List.range_succ, h]

theorem connectedPorts_succ_of_not_connected (h : lastRead log n = some false) :
    connectedPorts log (n + 1) = connectedPorts log n := by
  simp [connectedPorts, List.range_succ, h]

end Log

namespace Enumerated

variable {τ : Type} {m : HubMachine τ} {portIndex : UInt8} {connected : Bool} {n : Nat}

theorem zero (hreceived : m.host.userEventRing.fromHub = []) : Enumerated 0 m where
  read _ h := absurd h (Nat.not_lt_zero _)
  received := ⟨fun _ => false, hreceived⟩

/-- A port is read. -/
theorem read_port (h : Enumerated portIndex.toNat m) :
    Enumerated portIndex.toNat { m with log := m.log ++ [(portIndex, connected)] } where
  read port hport := by
    rw [lastRead_append_of_ne (by omega)]
    exact h.read port hport
  received := by
    obtain ⟨deviceIsLowSpeed, hreceived⟩ := h.received
    refine ⟨deviceIsLowSpeed, ?_⟩
    rw [connectedPorts_append]
    exact hreceived

theorem read_succ {known : Bool} (h : Enumerated n m) (hread : lastRead m.log n = some known) :
    ∀ port, port < n + 1 → (lastRead m.log port).isSome := by
  intro port hport
  obtain hlt | rfl := Nat.lt_succ_iff_lt_or_eq.mp hport
  · exact h.read port hlt
  · rw [hread]
    rfl

/-- The port has no device. -/
theorem succ_of_not_connected (h : Enumerated n m) (hread : lastRead m.log n = some false) :
    Enumerated (n + 1) m where
  read := h.read_succ hread
  received := by
    rw [connectedPorts_succ_of_not_connected hread]
    exact h.received

/-- The device at the port is announced. -/
theorem succ_of_connected (h : Enumerated n m) (hread : lastRead m.log n = some true)
    (deviceIsLowSpeed : Bool) :
    Enumerated (n + 1)
      { m with host := m.host.push (m.host.initPortDevice (n + 1) deviceIsLowSpeed) } where
  read := h.read_succ hread
  received := by
    obtain ⟨known, hreceived⟩ := h.received
    refine ⟨Function.update known n deviceIsLowSpeed, ?_⟩
    have hbefore : (connectedPorts m.log n).map (fun port =>
        m.host.initPortDevice (port + 1) (Function.update known n deviceIsLowSpeed port)) =
        m.host.userEventRing.fromHub := by
      rw [hreceived]
      refine List.map_congr_left fun port hport => ?_
      have hlt := List.mem_range.mp (List.mem_filter.mp hport).1
      rw [Function.update_of_ne (by omega)]
    rw [connectedPorts_succ_of_connected hread, List.map_append]
    have hlast : Function.update known n deviceIsLowSpeed n = deviceIsLowSpeed :=
      Function.update_self _ _ _
    have hring :
        (m.host.push (m.host.initPortDevice (n + 1) deviceIsLowSpeed)).userEventRing.fromHub =
          m.host.userEventRing.fromHub ++ [m.host.initPortDevice (n + 1) deviceIsLowSpeed] :=
      UserEventRing.fromHub_push_hub _ _
    simp only [List.map_cons, List.map_nil, hlast, hring]
    exact congrArg (· ++ [m.host.initPortDevice (n + 1) deviceIsLowSpeed]) hbefore.symm

/-- Neither the device nor what others do at the ring matters. -/
theorem other (h : Enumerated n m) (d : HubDevice) {info : HubContextInfo τ}
    (hring : info.userEventRing.fromHub = m.host.userEventRing.fromHub)
    (hevent : info.initPortDevice = m.host.initPortDevice) :
    Enumerated n { m with device := d, host := info } where
  read := h.read
  received := by
    obtain ⟨deviceIsLowSpeed, hreceived⟩ := h.received
    exact ⟨deviceIsLowSpeed, by simp only [hring, hreceived, hevent]⟩

end Enumerated

/-- The number of ports that a hub is through with. -/
def HubDevice.portsDone (d : HubDevice) : Nat :=
  match d.state with
  | .initPort portIndex => portIndex.toNat
  | .running => d.numberOfPorts.toNat
  | .addressed | .getConfig | .setConfig | .getHubDescriptor => 0

/-- The invariant of a hub. -/
structure HubInvariant {τ : Type} (m : HubMachine τ) : Prop where
  portsDone_le : m.device.portsDone ≤ m.device.numberOfPorts.toNat
  enumerated : Enumerated m.device.portsDone m

section Step

variable {τ : Type} {types : UsbTypes} {transport : Transport τ} {m : HubMachine τ}
  {α : Type} {post : Post Panic TransferError (HubMachine τ) α}

/-- What a call ends with: the invariant, and no overflow. -/
def keepsInvariant : Post Panic TransferError (HubMachine τ) α :=
  ⟨fun _ m => HubInvariant m, fun _ m => HubInvariant m, fun p => p ≠ .overflow⟩

/-- What may have changed while a transfer was awaited: endpoint 0, the transport, and the
ring by other tasks. -/
structure Awaited (m m' : HubMachine τ) : Prop where
  device : ∃ ep0, m'.device = { m.device with ep0 }
  log : m'.log = m.log
  ring : m'.host.userEventRing.fromHub = m.host.userEventRing.fromHub
  event : m'.host.initPortDevice = m.host.initPortDevice

theorem Awaited.trans {m₁ m₂ : HubMachine τ} (h₁ : Awaited m m₁) (h₂ : Awaited m₁ m₂) :
    Awaited m m₂ := by
  obtain ⟨ep0₁, hdevice₁⟩ := h₁.device
  obtain ⟨ep0₂, hdevice₂⟩ := h₂.device
  refine ⟨⟨ep0₂, by rw [hdevice₂, hdevice₁]⟩, h₂.log.trans h₁.log, h₂.ring.trans h₁.ring,
    h₂.event.trans h₁.event⟩

theorem Awaited.numberOfPorts {m' : HubMachine τ} (h : Awaited m m') :
    m'.device.numberOfPorts = m.device.numberOfPorts := by
  obtain ⟨ep0, hdevice⟩ := h.device
  rw [hdevice]

theorem Enumerated.awaited {n : Nat} {m' : HubMachine τ} (h : Enumerated n m)
    (hm' : Awaited m m') : Enumerated n m' := by
  obtain ⟨device, host, log⟩ := m'
  obtain ⟨-, rfl, hring, hevent⟩ := hm'
  exact h.other device hring hevent

theorem HubInvariant.awaited {m' : HubMachine τ} (h : HubInvariant m) (hm' : Awaited m m') :
    HubInvariant m' := by
  have hdone : m'.device.portsDone = m.device.portsDone := by
    obtain ⟨ep0, hdevice⟩ := hm'.device
    rw [hdevice]
    rfl
  refine ⟨?_, ?_⟩
  · rw [hdone, hm'.numberOfPorts]
    exact h.portsDone_le
  · rw [hdone]
    exact h.enumerated.awaited hm'

/-- A transfer is answered, with whatever bytes, or fails. -/
theorem transfer_meets (h : transport.Answers) {request : ControlRequest}
    {bufLen : Option Nat} {post : Post Panic TransferError (HubMachine τ) (Nat × (Nat → UInt8))}
    (hreturned : ∀ result m', Awaited m m' → post.returned result m')
    (hfailed : ∀ e m', Awaited m m' → post.failed e m') :
    (controlTransfer (HubContextInfo.host transport).toHost request bufLen).Meets m post := by
  obtain ⟨answer, s, hcall, -⟩ := h m.device.ep0 request bufLen m.host.transport
  have hhost : (HubContextInfo.host transport).controlTransfer m.device.ep0 request bufLen
      m.host = .ok (answer, m.host.resumed transport s) := by
    simp only [HubContextInfo.host, HubContextInfo.transfer, hcall, Rust.ok_bind]
  have hring := HubContextInfo.fromHub_resumed transport s m.host
  refine controlTransfer_meets (fun p hp => ?_) fun answer' info hanswer => ?_
  · nomatch hhost.symm.trans hp
  · cases hhost.symm.trans hanswer
    exact ⟨fun e _ => hfailed e _ ⟨⟨_, rfl⟩, rfl, hring, rfl⟩,
      fun _ _ => hreturned _ _ ⟨⟨_, rfl⟩, rfl, hring, rfl⟩⟩

theorem portTransfer_meets (h : transport.Answers) {direction : RequestDirection} {byte : Nat}
    {code : RequestCode} {selector portIndex : UInt8} {bufLen : Option Nat}
    {post : Post Panic TransferError (HubMachine τ) (Nat × (Nat → UInt8))}
    (hbyte : (RequestType.mk direction .usbClass .other).toByte = byte)
    (hreturned : ∀ result m', Awaited m m' → post.returned result m')
    (hfailed : ∀ e m', Awaited m m' → post.failed e m') :
    (HubDevice.portTransfer (HubContextInfo.host transport).toHost direction byte code selector
      portIndex bufLen).Meets m post := by
  rw [HubDevice.portTransfer, meets_bind, check, hbyte, decide_eq_true rfl]
  exact transfer_meets h hreturned hfailed

theorem readConfiguration_meets (h : transport.Answers) {configBufferLen : Nat}
    {post : Post Panic TransferError (HubMachine τ) (List UInt8)}
    (hreturned : ∀ configBuf m', Awaited m m' → post.returned configBuf m')
    (hfailed : ∀ e m', Awaited m m' → post.failed e m')
    (hpanicked : post.panicked .assertion) :
    (readConfiguration types configBufferLen (HubContextInfo.host transport).toHost).Meets m
      post := by
  refine meets_bind.mpr (transfer_meets h (fun result m₁ h₁ => ?_) hfailed)
  refine meets_bind.mpr (check_meets (fun _ => ?_) fun _ => hpanicked)
  dsimp only
  split
  · exact hfailed _ m₁ h₁
  · refine meets_bind.mpr (transfer_meets h (fun result m₂ h₂ => ?_) fun e m₂ h₂ => ?_)
    · refine meets_bind.mpr (check_meets (fun _ => ?_) fun _ => hpanicked)
      exact hreturned _ m₂ (h₁.trans h₂)
    · exact hfailed e m₂ (h₁.trans h₂)

theorem storeConfiguration_eq (types : UsbTypes) (configBuf : List UInt8)
    (descriptors : List DescriptorRef) (d : HubDevice) : ∃ configDescriptor,
      HubDevice.storeConfiguration types configBuf descriptors d =
        { d with configDescriptor := configDescriptor } := by
  induction descriptors generalizing d with
  | nil => exact ⟨d.configDescriptor, rfl⟩
  | cons descriptor descriptors ih =>
      cases descriptor with
      | configuration offset =>
          exact ih { d with
            configDescriptor := some (types.configuration (types.pointee configBuf offset)) }
      | interface => exact ih d
      | endpoint => exact ih d
      | unknown => exact ih d

theorem asyncRegisterHub_eq_ok {info info' : HubContextInfo τ}
    {result : Except TransferError Unit}
    (h : HubContextInfo.asyncRegisterHub transport info = .ok (result, info')) :
    result = .ok () ∧ ∃ s, info' = info.resumed transport s := by
  rw [HubContextInfo.asyncRegisterHub] at h
  split at h
  next => cases h
  next =>
    obtain ⟨-, -, heq⟩ := Rust.bind_eq_ok.mp h
    cases heq
    exact ⟨rfl, _, rfl⟩

theorem asyncRegisterHub_ne_overflow {info : HubContextInfo τ} :
    HubContextInfo.asyncRegisterHub transport info ≠ .error .overflow := by
  intro h
  rw [HubContextInfo.asyncRegisterHub] at h
  split at h
  next => cases h
  next =>
    rw [Rust.bind_eq_error, debugAssert] at h
    obtain h | ⟨-, -, h⟩ := h
    · split at h <;> cases h
    · cases h

variable {portIndex : UInt8}

/-- A hub that has not come to its ports. -/
theorem getConfig_meets (h : transport.Answers) (hm : HubInvariant m)
    (henumerated : Enumerated 0 m) :
    (HubDevice.getConfig types (HubContextInfo.host transport).toHost).Meets m
      keepsInvariant := by
  refine meets_bind.mpr (readConfiguration_meets h (fun configBuf m' h' => ?_)
    (fun e m' h' => hm.awaited h') nofun)
  refine meets_bind.mpr ?_
  cases hcollect : (DescriptorIter.new configBuf).collect types.toUsbHost with
  | error p =>
      rw [DescriptorIter.collect_error hcollect]
      exact nofun
  | ok descriptors =>
      obtain ⟨configDescriptor, hstore⟩ :=
        storeConfiguration_eq types configBuf descriptors m'.device
      simp only [meets_lift_ok, modifyDevice, meets_bind, meets_modify]
      rw [hstore]
      exact ⟨Nat.zero_le _, (henumerated.awaited h').other _ rfl rfl⟩

theorem setConfig_meets (h : transport.Answers) (hm : HubInvariant m)
    (henumerated : Enumerated 0 m) :
    (HubDevice.setConfig (HubContextInfo.host transport)).Meets m keepsInvariant := by
  refine meets_bind.mpr ?_
  cases hconfig : m.device.configDescriptor with
  | none =>
      simp only [meets_get, hconfig, meets_lift_error]
      rintro ⟨⟩
  | some confDesc =>
      simp only [meets_get, hconfig]
      refine meets_bind.mpr (transfer_meets h (fun result m' h' => ?_)
        fun e m' h' => hm.awaited h')
      refine meets_bind.mpr ?_
      rw [Meets, callHost]
      cases hcall : (HubContextInfo.host transport).registerHub m.device.address m'.host with
      | error p =>
          rintro rfl
          exact asyncRegisterHub_ne_overflow hcall
      | ok answered =>
          obtain ⟨registered, info⟩ := answered
          obtain ⟨rfl, s', rfl⟩ := asyncRegisterHub_eq_ok hcall
          have hring := HubContextInfo.fromHub_resumed transport s' m'.host
          exact ⟨Nat.zero_le _, (henumerated.awaited h').other _ hring rfl⟩

theorem getHubDescriptor_meets (h : transport.Answers) (hm : HubInvariant m)
    (henumerated : Enumerated 0 m) :
    (HubDevice.getHubDescriptor (HubContextInfo.host transport).toHost).Meets m
      keepsInvariant := by
  rw [HubDevice.getHubDescriptor, meets_bind]
  refine check_meets (fun _ => ?_) nofun
  dsimp only
  rw [meets_bind]
  refine check_meets (fun _ => ?_) nofun
  refine meets_bind.mpr (transfer_meets h (fun result m' h' => ?_)
    fun e m' h' => hm.awaited h')
  exact ⟨Nat.zero_le _, (henumerated.awaited h').other _ rfl rfl⟩

/-- A port below another has a successor. -/
theorem nextPort_eq_ok {numberOfPorts : UInt8} (h : portIndex < numberOfPorts) :
    nextPort portIndex = .ok (portIndex + 1) ∧ (portIndex + 1).toNat = portIndex.toNat + 1 := by
  have hlt : portIndex.toNat < numberOfPorts.toNat := UInt8.lt_iff_toNat_lt.mp h
  have hbound := numberOfPorts.toNat_lt
  have hone : (1 : UInt8).toNat = 1 := by decide
  refine ⟨if_pos (by omega), ?_⟩
  rw [UInt8.toNat_add, hone, Nat.mod_eq_of_lt (by omega)]

/-- The port is done. -/
theorem toNextPort_meets (hlt : portIndex < m.device.numberOfPorts)
    (henumerated : Enumerated (portIndex.toNat + 1) m) :
    (HubDevice.toNextPort portIndex : HubStep (HubContextInfo τ) Unit).Meets m
      keepsInvariant := by
  obtain ⟨hnext, htoNat⟩ := nextPort_eq_ok hlt
  refine meets_bind.mpr ?_
  rw [hnext, meets_lift_ok]
  have hle : portIndex.toNat + 1 ≤ m.device.numberOfPorts.toNat :=
    Nat.succ_le_of_lt (UInt8.lt_iff_toNat_lt.mp hlt)
  rw [← htoNat] at henumerated hle
  exact ⟨hle, henumerated.read, henumerated.received⟩

/-- The device at the port is announced, and the port is done. -/
theorem announce_meets (hlt : portIndex < m.device.numberOfPorts)
    (henumerated : Enumerated portIndex.toNat m)
    (hread : lastRead m.log portIndex.toNat = some true)
    (address : UInt8) (deviceIsLowSpeed : Bool) :
    (do callHost ((HubContextInfo.host transport).assignAddress address portIndex
          deviceIsLowSpeed)
        HubDevice.toNextPort portIndex : HubStep (HubContextInfo τ) Unit).Meets m
      keepsInvariant := by
  obtain ⟨hnext, htoNat⟩ := nextPort_eq_ok hlt
  have hassign : (HubContextInfo.host transport).assignAddress address portIndex
      deviceIsLowSpeed m.host = .ok (.ok (),
        m.host.push (m.host.initPortDevice (portIndex.toNat + 1) deviceIsLowSpeed)) := by
    simp only [HubContextInfo.host, HubContextInfo.asyncAssignAddress, hnext, Rust.ok_bind,
      htoNat]
  refine meets_bind.mpr ?_
  rw [Meets, callHost, hassign]
  exact toNextPort_meets hlt (henumerated.succ_of_connected hread deviceIsLowSpeed)

/-- A port with a device: a transfer that fails leaves it to the next call. -/
theorem initConnectedPort_meets (h : transport.Answers) (hm : HubInvariant m)
    (hlt : portIndex < m.device.numberOfPorts) (henumerated : Enumerated portIndex.toNat m)
    (hread : lastRead m.log portIndex.toNat = some true) :
    (HubDevice.initConnectedPort (HubContextInfo.host transport) portIndex).Meets m
      keepsInvariant := by
  refine meets_bind.mpr (portTransfer_meets h rfl (fun _ m₁ h₁ => ?_)
    fun e m₁ h₁ => hm.awaited h₁)
  refine meets_bind.mpr (portTransfer_meets h rfl (fun _ m₂ h₂ => ?_)
    fun e m₂ h₂ => hm.awaited (h₁.trans h₂))
  have hawaited := h₁.trans h₂
  refine meets_bind.mpr (portTransfer_meets h rfl (fun (_, status) m₃ h₃ => ?_)
    fun e m₃ h₃ => hm.awaited (hawaited.trans h₃))
  have hawaited := hawaited.trans h₃
  refine meets_get_bind.mpr ?_
  rw [← hawaited.numberOfPorts] at hlt
  rw [← hawaited.log] at hread
  exact announce_meets hlt (henumerated.awaited hawaited) hread _ _

/-- A port is read, which makes no difference to the ports before it, and then is done or left
to the next call. -/
theorem initPort_meets (h : transport.Answers) (hm : HubInvariant m)
    (hstate : m.device.state = .initPort portIndex) (hlt : portIndex < m.device.numberOfPorts) :
    (HubDevice.initPort (HubContextInfo.host transport) portIndex).Meets m keepsInvariant := by
  refine meets_bind.mpr (portTransfer_meets h rfl (fun _ m₁ h₁ => ?_)
    fun e m₁ h₁ => hm.awaited h₁)
  refine meets_bind.mpr (portTransfer_meets h rfl (fun _ m₂ h₂ => ?_)
    fun e m₂ h₂ => hm.awaited (h₁.trans h₂))
  have hawaited := h₁.trans h₂
  refine meets_bind.mpr (portTransfer_meets h rfl (fun (_, status) m₃ h₃ => ?_)
    fun e m₃ h₃ => hm.awaited (hawaited.trans h₃))
  have hawaited := hawaited.trans h₃
  have hm₃ := hm.awaited hawaited
  have hdone : m₃.device.portsDone = portIndex.toNat := by
    obtain ⟨ep0, hdevice⟩ := hawaited.device
    rw [HubDevice.portsDone, hdevice, hstate]
  have henumerated : Enumerated portIndex.toNat m₃ := hdone ▸ hm₃.enumerated
  rw [← hawaited.numberOfPorts] at hlt
  dsimp only
  generalize (status 0 &&& 0x01 != 0) = connected
  refine meets_bind.mpr (meets_modify.mpr ?_)
  have hread : Enumerated portIndex.toNat { m₃ with log := m₃.log ++ [(portIndex, connected)] } :=
    henumerated.read_port
  have hlast : lastRead (m₃.log ++ [(portIndex, connected)]) portIndex.toNat = some connected :=
    lastRead_append_self
  have hm' : HubInvariant { m₃ with log := m₃.log ++ [(portIndex, connected)] } :=
    ⟨hm₃.portsDone_le, hdone.symm ▸ hread⟩
  cases connected with
  | true => exact initConnectedPort_meets h hm' hlt hread hlast
  | false => exact toNextPort_meets hlt (hread.succ_of_not_connected hlast)

/-- A call keeps the invariant, and no port index overflows. -/
theorem fsm_meets (h : transport.Answers) (hm : HubInvariant m) :
    (HubDevice.fsm types (HubContextInfo.host transport)).Meets m keepsInvariant := by
  refine meets_get_bind.mpr ?_
  have henumerated := hm.enumerated
  rw [HubDevice.portsDone] at henumerated
  cases hstate : m.device.state with
  | addressed =>
      rw [hstate] at henumerated
      refine meets_modify.mpr ?_
      exact ⟨Nat.zero_le _, henumerated.read, henumerated.received⟩
  | getConfig => exact getConfig_meets h hm (by rwa [hstate] at henumerated)
  | setConfig => exact setConfig_meets h hm (by rwa [hstate] at henumerated)
  | getHubDescriptor => exact getHubDescriptor_meets h hm (by rwa [hstate] at henumerated)
  | initPort portIndex =>
      rw [hstate] at henumerated
      dsimp only
      split
      next hlt => exact initPort_meets h hm hstate hlt
      next hlt =>
        -- the ports done are all there are
        have hle := hm.portsDone_le
        rw [HubDevice.portsDone, hstate] at hle
        have hge := UInt8.le_iff_toNat_le.mp (UInt8.not_lt.mp hlt)
        have hall : Enumerated m.device.numberOfPorts.toNat m :=
          Nat.le_antisymm hle hge ▸ henumerated
        refine meets_modify.mpr ?_
        exact ⟨Nat.le_refl _, hall.read, hall.received⟩
  | running => exact hm

end Step

section Run

variable {τ : Type} {types : UsbTypes} {transport : Transport τ} {m : HubMachine τ}

/-- The invariant holds in every run. -/
theorem HubInvariant.of_reachable (h : transport.Answers)
    (hm : (hubSystem types transport).Reachable m) : HubInvariant m := by
  refine hm.invariant ?_ ?_
  · rintro m ⟨address, maxPacketSize, portIndex, routing, s, ring, hring, rfl⟩
    exact ⟨Nat.zero_le _, .zero hring⟩
  · intro m move m' _ hinv hstep
    cases move with
    | fsm =>
        obtain ⟨result, hrun⟩ := hstep
        cases result with
        | error e => exact (fsm_meets h hinv).failed hrun
        | ok => exact (fsm_meets h hinv).returned hrun
    | others move =>
        obtain rfl := hstep
        exact ⟨hinv.portsDone_le, hinv.enumerated.other _ (move.fromHub_apply _) rfl⟩

end Run

end LemolaOs.Usb
