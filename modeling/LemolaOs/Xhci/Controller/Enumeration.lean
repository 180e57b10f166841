import LemolaOs.Xhci.Controller.PollForever

/-!
# Enumeration never meets a wrong phase

Devices are plugged to root ports, hubs announce devices behind them, and the
hardware answers every command once. As long as no device behind a hub is taken up
while a root port is being enumerated, at most one command is in flight at any time,
and the phase of the port that has the right to address tells which: this is the
invariant between handlers. A handler that waits has the only command in flight.

The checks that panic about phases then never fail. Without the condition they do:
the completion for the root port is put aside while the handler for the hub waits,
and by the time it is processed that handler has taken away the right to address.
-/

namespace LemolaOs.Xhci.Controller

open Code Resumption

/-- The command completions among the events. -/
def completions (events : List Event) : List CommandCompletion :=
  events.filterMap fun event =>
    match event with
    | .commandCompletion completion => some completion
    | _ => none

@[simp] theorem completions_nil : completions [] = [] := rfl

@[simp] theorem completions_append (events events' : List Event) :
    completions (events ++ events') = completions events ++ completions events' :=
  List.filterMap_append

theorem completions_cons_completion (completion : CommandCompletion) (events : List Event) :
    completions (.commandCompletion completion :: events) = completion :: completions events := rfl

theorem completions_cons_other {event : Event}
    (h : ∀ completion, event ≠ .commandCompletion completion)
    (events : List Event) : completions (event :: events) = completions events := by
  cases event with
  | commandCompletion completion => exact absurd rfl (h completion)
  | _ => rfl

theorem completions_concat_other {event : Event}
    (h : ∀ completion, event ≠ .commandCompletion completion) (events : List Event) :
    completions (events ++ [event]) = completions events := by
  rw [completions_append, completions_cons_other h, completions_nil, List.append_nil]

theorem completions_cons (event : Event) (events : List Event) :
    completions (event :: events) = completions [event] ++ completions events :=
  completions_append [event] events

/-- A correct answer to the command in a slot of the command ring: `EnableSlot` and
`AddressDevice` succeed, the one with a slot that is not in use, the other for its slot. -/
def Answers (s : Controller) (completion : CommandCompletion) : Prop :=
  match s.commandAt completion.commandTrbPointer with
  | some .enableSlot => completion.completionCode = success ∧ s.device completion.slotId = none
  | some (.addressDevice slotId) =>
      completion.completionCode = success ∧ completion.slotId = slotId
  | _ => True

instance (s : Controller) (completion : CommandCompletion) : Decidable (s.Answers completion) :=
  match h : s.commandAt completion.commandTrbPointer with
  | some .enableSlot =>
      decidable_of_iff (completion.completionCode = success ∧ s.device completion.slotId = none)
        (by rw [Answers, h])
  | some (.addressDevice slotId) =>
      decidable_of_iff (completion.completionCode = success ∧ completion.slotId = slotId)
        (by rw [Answers, h])
  | some (.disableSlot _) | some (.configureEndpoint _) | some (.evaluateContext _) | some .other
  | none => isTrue (by rw [Answers, h]; trivial)

/-- The state after an answer. -/
@[simps] def answered (s : Controller) (completion : CommandCompletion) : Controller :=
  { s with
    outstanding := s.outstanding.erase completion.commandTrbPointer
    events := s.events ++ [.commandCompletion completion] }

/-- The state after a device was plugged to a root port. -/
@[simps] def connected (s : Controller) (portIdx : Nat) (portsc : PortSc) : Controller :=
  { s with
    portsc := Function.update s.portsc portIdx portsc
    events := s.events ++ [.portStatusChange ⟨portIdx + 1⟩] }

/-- The moves of the hardware and of the rest of the kernel. A command is answered at most
once, since it is no longer outstanding afterwards. -/
inductive Hardware : Controller → Controller → Prop where
  /-- A device is plugged to a root port. -/
  | connect {s : Controller} (portIdx : Nat) (portsc : PortSc)
      (hconnected : portsc.currentConnectStatus = true)
      (hchange : portsc.connectStatusChange = true) :
      Hardware s (s.connected portIdx portsc)
  | complete {s : Controller} (completion : CommandCompletion)
      (houtstanding : completion.commandTrbPointer ∈ s.outstanding)
      (hanswers : s.Answers completion) :
      Hardware s (s.answered completion)
  /-- Any other event. -/
  | post {s : Controller} (event : Event)
      (h : ∀ completion, event ≠ .commandCompletion completion) :
      Hardware s (s.setEvents (s.events ++ [event]))
  /-- The hub driver announces a device. -/
  | announce {s : Controller} (device : InitPortDevice) :
      Hardware s (s.setUserEvents (s.userEvents ++ [device]))
  /-- The memory of the transfer rings and the plans of the devices. -/
  | devices {s : Controller} (transferAt : Nat → Option TransferTrb)
      (initialization : Nat → List HostOp) :
      Hardware s { s with transferAt := transferAt, initialization := initialization }

/-- A port is past the reset of its connection. -/
def PortConfigPhase.Past : PortConfigPhase → Prop
  | .notConnected | .waitingAddressed | .resettingPort => False
  | _ => True

/-- Enabled ports are connected, and so are the ports under enumeration. -/
structure PortsConnected (s : Controller) : Prop where
  enabled : ∀ p, (s.portsc p).portEnabled = true → (s.portsc p).currentConnectStatus = true
  past : ∀ p, PortConfigPhase.Past (s.portConfigPhase p) →
    (s.portsc p).currentConnectStatus = true

/-- No command is in flight. -/
structure Settled (s : Controller) : Prop where
  outstanding : s.outstanding = []
  events : completions s.events = []
  popped : completions s.popped = []

/-- Only the command in slot `i` of the command ring is in flight: it is outstanding, or the
answer is still in the event ring. -/
structure OnlyInFlight (s : Controller) (i : Nat) : Prop where
  popped : completions s.popped = []
  place : (s.outstanding = [i] ∧ completions s.events = []) ∨
    (s.outstanding = [] ∧ ∃ completion, completions s.events = [completion] ∧
      completion.commandTrbPointer = i ∧ s.Answers completion)

/-- A handler is at work: no port is ready without being known. -/
structure Busy (s : Controller) : Prop where
  ports : PortsConnected s
  ready : ∀ p, s.portConfigPhase p = .notConnected → ¬ (s.portsc p).Ready

/-- The command in slot `i` is for the port `p` that has the right to address, and its phase
says which command it is. -/
def CommandFor (s : Controller) (i p : Nat) : Prop :=
  (s.portConfigPhase p = .enablingSlot ∧ s.commandAt i = some .enableSlot) ∨
  (s.portConfigPhase p = .addressingDevice ∧ ∃ slotId device,
    s.commandAt i = some (.addressDevice slotId) ∧ s.device slotId = some device ∧
    device.rootHubPortNumber = p + 1)

/-- The invariant between handlers. -/
structure Between (s : Controller) : Prop where
  ports : PortsConnected s
  ready : ∀ p, s.portConfigPhase p = .notConnected → (s.portsc p).Ready →
    s.addressingPortIndex = some p
  inFlight :
    (Settled s ∧ ∀ p, s.addressingPortIndex = some p → s.portConfigPhase p = .notConnected) ∨
    ∃ i p, OnlyInFlight s i ∧ s.addressingPortIndex = some p ∧ CommandFor s i p

/-- What may be in flight while a handler waits. -/
def InFlightFor (s : Controller) : Future → Prop
  | .command i => OnlyInFlight s i
  | .transfer _ => Settled s

/-- Nobody else changes the phases, the devices or the command ring. -/
structure SameCommands (s t : Controller) : Prop where
  phase : t.portConfigPhase = s.portConfigPhase
  token : t.addressingPortIndex = s.addressingPortIndex
  device : t.device = s.device
  command : t.commandAt = s.commandAt

/-- The protocol of the handlers: one command at a time, and no panic about phases. -/
def enumeration : Protocol Controller Future Event Fault where
  waiting future s := Busy s ∧ InFlightFor s future
  resumed future s event t := Busy t ∧ Settled t ∧ SameCommands s t ∧
    future.waitsFor event = true
  failing e := ¬ e.PhaseError

theorem enumeration_tame : Tame enumeration := fun _ h => h

variable {s t : Controller} {portIdx : Nat}

namespace SameCommands

theorem trans {u : Controller} (h : SameCommands s t) (h' : SameCommands t u) : SameCommands s u :=
  ⟨h'.phase.trans h.phase, h'.token.trans h.token, h'.device.trans h.device,
    h'.command.trans h.command⟩

theorem answers (h : SameCommands s t) {completion : CommandCompletion}
    (hanswers : s.Answers completion) : t.Answers completion := by
  rw [Answers, h.command, h.device]
  exact hanswers

theorem commandFor (h : SameCommands s t) {i p : Nat} (hcmd : CommandFor s i p) :
    CommandFor t i p := by
  rw [CommandFor, h.phase, h.command, h.device]
  exact hcmd

end SameCommands

theorem Hardware.sameCommands (h : Hardware s t) : SameCommands s t := by
  cases h <;> exact ⟨rfl, rfl, rfl, rfl⟩

/-- The hardware changes a port only by plugging a device to it. -/
theorem Hardware.portsc_eq_or (h : Hardware s t) (p : Nat) :
    t.portsc p = s.portsc p ∨
      (t.portsc p).currentConnectStatus = true ∧ (t.portsc p).connectStatusChange = true := by
  cases h with
  | connect portIdx portsc hconnected hchange =>
      by_cases heq : p = portIdx
      · subst heq
        right
        simpa using ⟨hconnected, hchange⟩
      · left
        simp [Function.update_of_ne heq]
  | _ => exact .inl rfl

theorem PortsConnected.hardware (h : PortsConnected s) (hmove : Hardware s t) :
    PortsConnected t where
  enabled p hp := by
    obtain heq | hplugged := hmove.portsc_eq_or p
    · rw [heq] at hp ⊢
      exact h.enabled p hp
    · exact hplugged.1
  past p hp := by
    obtain heq | hplugged := hmove.portsc_eq_or p
    · rw [heq]
      rw [hmove.sameCommands.phase] at hp
      exact h.past p hp
    · exact hplugged.1

/-- A port that has just been connected is not ready. -/
theorem Hardware.ready (hmove : Hardware s t) {p : Nat} (h : (t.portsc p).Ready) :
    (s.portsc p).Ready := by
  obtain heq | hplugged := hmove.portsc_eq_or p
  · rwa [heq] at h
  · rw [PortSc.Ready, hplugged.2] at h
    cases h.2

theorem Busy.hardware (h : Busy s) (hmove : Hardware s t) : Busy t where
  ports := h.ports.hardware hmove
  ready p hp hready := by
    rw [hmove.sameCommands.phase] at hp
    exact h.ready p hp (hmove.ready hready)

theorem Settled.hardware (h : Settled s) (hmove : Hardware s t) : Settled t := by
  cases hmove with
  | connect portIdx portsc _ _ =>
      exact ⟨h.outstanding, by simp [h.events, completions_cons_other], h.popped⟩
  | complete completion houtstanding _ =>
      rw [h.outstanding] at houtstanding
      exact absurd houtstanding List.not_mem_nil
  | post event hevent =>
      exact ⟨h.outstanding, by simp [h.events, completions_cons_other hevent], h.popped⟩
  | announce device => exact ⟨h.outstanding, h.events, h.popped⟩
  | devices _ _ => exact ⟨h.outstanding, h.events, h.popped⟩

theorem OnlyInFlight.hardware {i : Nat} (h : OnlyInFlight s i) (hmove : Hardware s t) :
    OnlyInFlight t i := by
  have hplace := h.place
  cases hmove with
  | connect portIdx portsc _ _ =>
      refine ⟨h.popped, ?_⟩
      simpa [completions_cons_other, Answers] using hplace
  | complete completion houtstanding hanswers =>
      obtain ⟨hout, hevents⟩ | ⟨hout, _⟩ := hplace
      · rw [hout, List.mem_singleton] at houtstanding
        refine ⟨h.popped, .inr ⟨?_, completion, ?_, houtstanding, hanswers⟩⟩
        · simp [hout, houtstanding]
        · simp [hevents, completions_cons_completion]
      · rw [hout] at houtstanding
        exact absurd houtstanding List.not_mem_nil
  | post event hevent =>
      refine ⟨h.popped, ?_⟩
      simpa [completions_cons_other hevent, Answers] using hplace
  | announce device => exact ⟨h.popped, hplace⟩
  | devices _ _ => exact ⟨h.popped, hplace⟩

theorem Between.hardware (h : Between s) (hmove : Hardware s t) : Between t where
  ports := h.ports.hardware hmove
  ready p hp hready := by
    rw [hmove.sameCommands.phase] at hp
    rw [hmove.sameCommands.token]
    exact h.ready p hp (hmove.ready hready)
  inFlight := by
    obtain ⟨hsettled, htoken⟩ | ⟨i, p, hflight, htoken, hcmd⟩ := h.inFlight
    · left
      rw [hmove.sameCommands.phase, hmove.sameCommands.token]
      exact ⟨hsettled.hardware hmove, htoken⟩
    · right
      rw [hmove.sameCommands.token]
      exact ⟨i, p, hflight.hardware hmove, htoken, hmove.sameCommands.commandFor hcmd⟩

/-- What the future of a waiting handler finds is the answer to the only command in flight,
or no completion at all. -/
theorem InFlightFor.poll_none {future : Future} (h : InFlightFor s future)
    (hpoll : pollFuture future s = (none, t)) : InFlightFor t future := by
  obtain ⟨_, rfl⟩ | ⟨event, events, hevents, hother, rfl⟩ := pollFuture_none hpoll
  · exact h
  have hcompletion : ∀ completion, event ≠ .commandCompletion completion := by
    rintro completion rfl
    cases future with
    | transfer waitOn =>
        have hnone := Settled.events h
        rw [hevents, completions_cons_completion] at hnone
        cases hnone
    | command i =>
        obtain ⟨_, hnone⟩ | ⟨_, answer, hanswer, hptr, _⟩ := OnlyInFlight.place h
        · rw [hevents, completions_cons_completion] at hnone
          cases hnone
        · rw [hevents, completions_cons_completion] at hanswer
          simp only [List.cons.injEq] at hanswer
          simp [Future.waitsFor, hanswer.1, hptr] at hother
  have hrest : completions s.events = completions events := by
    rw [hevents, completions_cons_other hcompletion]
  have haside : completions (s.popped ++ [event]) = completions s.popped :=
    completions_concat_other hcompletion _
  cases future with
  | transfer waitOn =>
      have hs : Settled s := h
      exact ⟨hs.outstanding, hrest ▸ hs.events, haside.trans hs.popped⟩
  | command i =>
      have hs : OnlyInFlight s i := h
      have hplace := hs.place
      rw [hrest] at hplace
      exact ⟨haside.trans hs.popped, hplace⟩

theorem InFlightFor.poll_some {future : Future} {event : Event} (h : InFlightFor s future)
    (hpoll : pollFuture future s = (some event, t)) : Settled t := by
  obtain ⟨hmine, events, hevents, rfl⟩ := pollFuture_some hpoll
  cases future with
  | transfer waitOn =>
      have hcompletion : ∀ completion, event ≠ .commandCompletion completion := by
        rintro completion rfl
        simp [Future.waitsFor] at hmine
      have hs : Settled s := h
      have hnone := hs.events
      rw [hevents, completions_cons_other hcompletion] at hnone
      exact ⟨hs.outstanding, hnone, hs.popped⟩
  | command i =>
      cases event with
      | commandCompletion completion =>
          have hs : OnlyInFlight s i := h
          obtain ⟨_, hnone⟩ | ⟨hout, answer, hanswer, _, _⟩ := hs.place
          · rw [hevents, completions_cons_completion] at hnone
            cases hnone
          · rw [hevents, completions_cons_completion] at hanswer
            exact ⟨hout, (List.cons.inj hanswer).2, hs.popped⟩
      | _ => simp [Future.waitsFor] at hmine

theorem Busy.congr (h : Busy s) (hphase : t.portConfigPhase = s.portConfigPhase)
    (hports : t.portsc = s.portsc) : Busy t where
  ports := ⟨fun p => by rw [hports]; exact h.ports.enabled p,
    fun p => by rw [hports, hphase]; exact h.ports.past p⟩
  ready p := by
    rw [hports, hphase]
    exact h.ready p

theorem pollForever_respects_enumeration :
    (pollForever Hardware).Respects enumeration Between where
  env_inv h hmove := h.hardware hmove
  env_waiting {future s t} h hmove := by
    refine ⟨h.1.hardware hmove, ?_⟩
    cases future with
    | command i => exact OnlyInFlight.hardware h.2 hmove
    | transfer waitOn => exact Settled.hardware h.2 hmove
  env_resumed _ hmove hresumed :=
    ⟨hresumed.1, hresumed.2.1, hmove.sameCommands.trans hresumed.2.2.1, hresumed.2.2.2⟩
  poll_waiting {future s t} h hpoll := by
    refine ⟨?_, h.2.poll_none hpoll⟩
    obtain ⟨_, rfl⟩ | ⟨_, _, _, _, rfl⟩ := pollFuture_none hpoll
    · exact h.1
    · exact h.1.congr rfl rfl
  poll_resumed {future s t event u} _ hpoll hresumed := by
    obtain ⟨_, rfl⟩ | ⟨_, _, _, _, rfl⟩ := pollFuture_none hpoll
    · exact hresumed
    · exact ⟨hresumed.1, hresumed.2.1, ⟨hresumed.2.2.1.phase, hresumed.2.2.1.token,
        hresumed.2.2.1.device, hresumed.2.2.1.command⟩, hresumed.2.2.2⟩
  poll_ready {future s t event} h hpoll := by
    have hsettled := h.2.poll_some hpoll
    obtain ⟨hmine, _, _, rfl⟩ := pollFuture_some hpoll
    exact ⟨h.1.congr rfl rfl, hsettled, ⟨rfl, rfl, rfl, rfl⟩, hmine⟩

/-- Issuing a command when none is in flight. -/
theorem Settled.issue (h : Settled s) (cmd : Command) :
    OnlyInFlight (s.issue cmd) s.commandIndex where
  popped := h.popped
  place := .inl ⟨by simp [h.outstanding], h.events⟩

theorem Settled.congr (h : Settled s) (hout : t.outstanding = s.outstanding)
    (hevents : t.events = s.events) (hpopped : t.popped = s.popped) : Settled t :=
  ⟨hout.trans h.outstanding, by rw [hevents, h.events], by rw [hpopped, h.popped]⟩

/-- While a device is initialised. -/
structure Initializing (s : Controller) (portIdx : Nat) : Prop where
  busy : Busy s
  settled : Settled s
  phase : s.portConfigPhase portIdx = .initializingDevice

theorem hostOpOk_enumeration {slotId : Nat} (op : HostOp) (h : Initializing s portIdx) :
    HostOpOk enumeration slotId s (Initializing · portIdx) op := by
  cases op with
  | registers => exact h
  | command cmd =>
      exact ⟨⟨h.busy.congr rfl rfl, h.settled.issue cmd⟩, fun _ t hr =>
        ⟨hr.1, hr.2.1, by rw [hr.2.2.1.phase]; exact h.phase⟩⟩
  | transfer waitOn =>
      exact ⟨⟨h.busy, h.settled⟩, fun _ t hr =>
        ⟨hr.1, hr.2.1, by rw [hr.2.2.1.phase]; exact h.phase⟩⟩
  | assignAddress device =>
      exact ⟨h.busy.congr rfl rfl, h.settled.congr rfl rfl rfl, h.phase⟩
  | addDevice kind address =>
      exact fun _ => ⟨h.busy.congr rfl rfl, h.settled.congr rfl rfl rfl, h.phase⟩
  | unwrapFailed => trivial

/-- No command is in flight, and no other port than `portIdx` is ready without being known. -/
structure Clear (s : Controller) (portIdx : Nat) : Prop where
  ports : PortsConnected s
  ready : ∀ p, p ≠ portIdx → s.portConfigPhase p = .notConnected → ¬ (s.portsc p).Ready
  settled : Settled s

theorem PortsConnected.setPhase (h : PortsConnected s) {phase : PortConfigPhase}
    (hphase : PortConfigPhase.Past phase → (s.portsc portIdx).currentConnectStatus = true) :
    PortsConnected (s.setPhase portIdx phase) where
  enabled := h.enabled
  past p hp := by
    by_cases heq : p = portIdx
    · subst heq
      simp only [setPhase_portConfigPhase, Function.update_self] at hp
      exact hphase hp
    · simp only [setPhase_portConfigPhase, Function.update_of_ne heq] at hp
      exact h.past p hp

/-- A reset leaves a port connected. -/
theorem PortsConnected.reset (h : PortsConnected s) (hreset : (s.portsc portIdx).Resettable) :
    PortsConnected (s.setPort portIdx (s.portsc portIdx).afterReset) where
  enabled p hp := by
    by_cases heq : p = portIdx
    · subst heq
      simpa [PortSc.afterReset] using hreset.1
    · simp only [setPort_portsc, Function.update_of_ne heq] at hp ⊢
      exact h.enabled p hp
  past p hp := by
    by_cases heq : p = portIdx
    · subst heq
      simpa [PortSc.afterReset] using hreset.1
    · simp only [setPort_portsc, Function.update_of_ne heq]
      exact h.past p hp

namespace Clear

theorem reset (h : Clear s portIdx) (hreset : (s.portsc portIdx).Resettable) :
    Clear (s.setPort portIdx (s.portsc portIdx).afterReset) portIdx where
  ports := h.ports.reset hreset
  ready p hne hp := by
    simp only [setPort_portsc, Function.update_of_ne hne]
    exact h.ready p hne hp
  settled := h.settled.congr rfl rfl rfl

/-- Another port, one that waits, is reset. -/
theorem resetWaiting (h : Clear s portIdx) {next : Nat}
    (hnext : s.portConfigPhase next = .waitingAddressed) (hreset : (s.portsc next).Resettable) :
    Clear (s.setPort next (s.portsc next).afterReset) portIdx where
  ports := h.ports.reset hreset
  ready p hne hp := by
    have hother : p ≠ next := by
      rintro rfl
      simp [hnext] at hp
    simp only [setPort_portsc, Function.update_of_ne hother]
    exact h.ready p hne hp
  settled := h.settled.congr rfl rfl rfl

theorem setAddressing (h : Clear s portIdx) (index : Option Nat) :
    Clear (s.setAddressing index) portIdx :=
  ⟨⟨h.ports.enabled, h.ports.past⟩, h.ready, h.settled.congr rfl rfl rfl⟩

/-- The port goes on to a phase of its enumeration. -/
theorem busy (h : Clear s portIdx) {phase : PortConfigPhase} (hne : phase ≠ .notConnected)
    (hconnected : (s.portsc portIdx).currentConnectStatus = true) :
    Busy (s.setPhase portIdx phase) where
  ports := h.ports.setPhase fun _ => hconnected
  ready p hp := by
    by_cases heq : p = portIdx
    · subst heq
      simp [hne] at hp
    · simp only [setPhase_portConfigPhase, Function.update_of_ne heq] at hp
      exact h.ready p heq hp

/-- The right to address is with a port that has only been reset. -/
theorem between (h : Clear s portIdx) (htoken : s.addressingPortIndex = some portIdx)
    (hphase : s.portConfigPhase portIdx = .notConnected) : Between s where
  ports := h.ports
  ready p hp hready := by
    by_cases heq : p = portIdx
    · rw [heq]
      exact htoken
    · exact absurd hready (h.ready p heq hp)
  inFlight := by
    refine .inl ⟨h.settled, ?_⟩
    intro p hp
    rw [htoken, Option.some.injEq] at hp
    rwa [← hp]

/-- A slot is enabled for the port that has the right to address. -/
theorem enableSlot (h : Clear s portIdx) (htoken : s.addressingPortIndex = some portIdx)
    (hconnected : (s.portsc portIdx).currentConnectStatus = true) :
    Between ((s.setPhase portIdx .enablingSlot).issue .enableSlot) := by
  have hbusy : Busy (s.setPhase portIdx .enablingSlot) := h.busy (by decide) hconnected
  have hsettled : Settled (s.setPhase portIdx .enablingSlot) := h.settled.congr rfl rfl rfl
  refine ⟨⟨hbusy.ports.enabled, hbusy.ports.past⟩, ?_, ?_⟩
  · intro p hp hready
    exact absurd hready (hbusy.ready p hp)
  · exact .inr ⟨s.commandIndex, portIdx, hsettled.issue _, htoken, .inl ⟨by simp, by simp⟩⟩

end Clear

namespace Between

/-- If no other port has the right to address and this one does not use it, no command is in
flight. -/
theorem settled (h : Between s)
    (hfree : s.addressingPortIndex = some portIdx ∨ s.addressingPortIndex = none)
    (henabling : s.portConfigPhase portIdx ≠ .enablingSlot)
    (haddressing : s.portConfigPhase portIdx ≠ .addressingDevice) : Settled s := by
  obtain ⟨hsettled, _⟩ | ⟨i, p, _, htoken, hcmd⟩ := h.inFlight
  · exact hsettled
  · obtain hself | hnone := hfree
    · rw [hself, Option.some.injEq] at htoken
      subst htoken
      obtain hcmd | hcmd := hcmd
      · exact absurd hcmd.1 henabling
      · exact absurd hcmd.1 haddressing
    · rw [hnone] at htoken
      cases htoken

theorem clear (h : Between s)
    (hfree : s.addressingPortIndex = some portIdx ∨ s.addressingPortIndex = none)
    (henabling : s.portConfigPhase portIdx ≠ .enablingSlot)
    (haddressing : s.portConfigPhase portIdx ≠ .addressingDevice) : Clear s portIdx where
  ports := h.ports
  settled := h.settled hfree henabling haddressing
  ready p hne hp hready := by
    have htoken := h.ready p hp hready
    obtain hself | hnone := hfree
    · rw [hself, Option.some.injEq] at htoken
      exact hne htoken.symm
    · rw [hnone] at htoken
      cases htoken

/-- The port takes the right to address. -/
theorem take (h : Between s)
    (hfree : s.addressingPortIndex = some portIdx ∨ s.addressingPortIndex = none)
    (henabling : s.portConfigPhase portIdx ≠ .enablingSlot)
    (haddressing : s.portConfigPhase portIdx ≠ .addressingDevice) :
    Clear (s.setAddressing (some portIdx)) portIdx :=
  (h.clear hfree henabling haddressing).setAddressing _

/-- A port waits because another one has the right. -/
theorem wait (h : Between s) (hself : s.addressingPortIndex ≠ some portIdx) :
    Between (s.setPhase portIdx .waitingAddressed) where
  ports := h.ports.setPhase fun hpast => absurd hpast (by simp [PortConfigPhase.Past])
  ready p hp hready := by
    by_cases heq : p = portIdx
    · subst heq
      simp at hp
    · simp only [setPhase_portConfigPhase, Function.update_of_ne heq] at hp
      exact h.ready p hp hready
  inFlight := by
    have hother : ∀ p, s.addressingPortIndex = some p →
        (s.setPhase portIdx .waitingAddressed).portConfigPhase p = s.portConfigPhase p := by
      intro p hp
      have hne : p ≠ portIdx := by
        rintro rfl
        exact hself hp
      simp [Function.update_of_ne hne]
    obtain ⟨hsettled, htoken⟩ | ⟨i, p, hflight, htoken, hcmd⟩ := h.inFlight
    · refine .inl ⟨hsettled.congr rfl rfl rfl, ?_⟩
      intro p hp
      rw [hother p hp]
      exact htoken p hp
    · refine .inr ⟨i, p, ⟨hflight.popped, hflight.place⟩, htoken, ?_⟩
      rw [CommandFor, hother p htoken]
      exact hcmd

/-- An event that is no completion has been put aside, or taken. -/
theorem congr (h : Between s) (hports : t.portsc = s.portsc) (hsame : SameCommands s t)
    (hout : t.outstanding = s.outstanding) (hevents : completions t.events = completions s.events)
    (hpopped : completions t.popped = completions s.popped) : Between t where
  ports := ⟨fun p => by rw [hports]; exact h.ports.enabled p,
    fun p => by rw [hports, hsame.phase]; exact h.ports.past p⟩
  ready p := by
    rw [hports, hsame.phase, hsame.token]
    exact h.ready p
  inFlight := by
    rw [hsame.phase, hsame.token]
    obtain ⟨hsettled, htoken⟩ | ⟨i, p, hflight, htoken, hcmd⟩ := h.inFlight
    · left
      exact ⟨⟨hout.trans hsettled.outstanding, hevents.trans hsettled.events,
        hpopped.trans hsettled.popped⟩, htoken⟩
    · refine .inr ⟨i, p, ⟨hpopped.trans hflight.popped, ?_⟩, htoken, hsame.commandFor hcmd⟩
      rw [hout, hevents]
      obtain hplace | ⟨hnone, answer, hanswer, hptr, hanswers⟩ := hflight.place
      · exact .inl hplace
      · exact .inr ⟨hnone, answer, hanswer, hptr, hsame.answers hanswers⟩

end Between

/-- Initialising a device ends without a command in flight and with the right to address
free. -/
theorem initializeDeviceAt_enumeration {slotId : Nat} (h : Clear s portIdx)
    (hconnected : (s.portsc portIdx).currentConnectStatus = true) :
    (initializeDeviceAt portIdx slotId s).Meets enumeration fun _ t => Between t := by
  apply initializeDeviceAt_meets enumeration_tame.mild (I := fun _ t => Initializing t portIdx)
  · intro op _ t ht
    exact hostOpOk_enumeration op ht
  · intro _ _
    have hbusy : Busy (s.setPhase portIdx .initializingDevice) := h.busy (by decide) hconnected
    exact ⟨hbusy.congr rfl rfl, h.settled.congr rfl rfl rfl, by simp⟩
  · intro t ht
    have hconnected : (t.portsc portIdx).currentConnectStatus = true := by
      apply ht.busy.ports.past
      simp [ht.phase, PortConfigPhase.Past]
    have hclear : Clear t portIdx := ⟨ht.busy.ports, fun p _ => ht.busy.ready p, ht.settled⟩
    have hbusy : Busy (t.setPhase portIdx .configured) := hclear.busy (by decide) hconnected
    refine ⟨⟨hbusy.ports.enabled, hbusy.ports.past⟩, ?_, .inl ⟨?_, ?_⟩⟩
    · exact fun p hp hready => absurd hready (hbusy.ready p hp)
    · exact ht.settled.congr rfl rfl rfl
    · exact fun p hp => by cases hp

theorem resetPortAt_enumeration (h : Between s)
    (hphase : s.portConfigPhase portIdx = .notConnected) :
    (resetPortAt portIdx s).Meets enumeration fun _ t => Between t := by
  apply resetPortAt_meets enumeration_tame.mild
  · exact fun hinvalid => absurd (.inl hphase) hinvalid
  · exact fun _ => h
  · exact fun _ hself _ => h.wait hself
  · intro hreset hfree _
    have htake := h.take hfree (by simp [hphase]) (by simp [hphase])
    exact (htake.reset hreset).between rfl hphase

theorem processPortStatusChangeEvent_enumeration {event : PortStatusChange} (h : Between s) :
    (processPortStatusChangeEvent event s).Meets enumeration fun _ t => Between t := by
  -- an enabled port is connected
  have hconnected {p : Nat} (hready : (s.portsc p).Ready) :
      (s.portsc p).currentConnectStatus = true := h.ports.enabled p hready.1
  have hafter {p : Nat} (hreset : (s.portsc p).Resettable) :
      ((s.setPort p (s.portsc p).afterReset).portsc p).currentConnectStatus = true := by
    simpa [PortSc.afterReset] using hreset.1
  apply processPortStatusChangeEvent_meets enumeration_tame.mild
  · intro portIdx _ hphase
    have henabling : s.portConfigPhase portIdx ≠ .enablingSlot := by simp [hphase]
    have haddressing : s.portConfigPhase portIdx ≠ .addressingDevice := by simp [hphase]
    apply processNotConnected_meets enumeration_tame.mild hphase
    · exact fun hself _ => h.wait hself
    · intro hfree hreset _
      exact ((h.take hfree henabling haddressing).reset hreset).enableSlot rfl (hafter hreset)
    · intro hfree hready
      exact (h.clear hfree henabling haddressing).enableSlot (h.ready portIdx hphase hready)
        (hconnected hready)
  · intro portIdx hphase
    apply processResettingPort_meets enumeration_tame.mild
    · exact fun hself _ => h.wait hself
    · intro hfree hready
      have htake := h.take hfree (by simp [hphase]) (by simp [hphase])
      exact htake.enableSlot rfl (hconnected hready)
  · intro portIdx hphase
    have henabling : s.portConfigPhase portIdx ≠ .enablingSlot := by simp [hphase]
    have haddressing : s.portConfigPhase portIdx ≠ .addressingDevice := by simp [hphase]
    apply processWaitingAddressed_meets enumeration_tame.mild
    · intro _
      refine h.congr rfl ⟨rfl, rfl, rfl, rfl⟩ rfl rfl ?_
      simp [completions_cons_other]
    · intro hnone hreset _
      exact ((h.take (.inr hnone) henabling haddressing).reset hreset).enableSlot rfl
        (hafter hreset)
    · intro hnone hready
      exact (h.take (.inr hnone) henabling haddressing).enableSlot rfl (hconnected hready)
  · exact h
  · intro portIdx _ _ hdisconnected h₁ h₂ h₃
    have hpast : PortConfigPhase.Past (s.portConfigPhase portIdx) := by
      cases hphase : s.portConfigPhase portIdx <;> simp_all [PortConfigPhase.Past]
    rw [h.ports.past portIdx hpast] at hdisconnected
    cases hdisconnected

/-- The answer to the command in flight has been taken off the ring. -/
structure Answered (s : Controller) (completion : CommandCompletion) (portIdx : Nat) : Prop where
  ports : PortsConnected s
  ready : ∀ p, s.portConfigPhase p = .notConnected → (s.portsc p).Ready →
    s.addressingPortIndex = some p
  settled : Settled s
  token : s.addressingPortIndex = some portIdx
  command : CommandFor s completion.commandTrbPointer portIdx
  answers : s.Answers completion

namespace Answered

variable {completion : CommandCompletion}

theorem clear (h : Answered s completion portIdx) : Clear s portIdx where
  ports := h.ports
  settled := h.settled
  ready p hne hp hready := by
    have htoken := h.ready p hp hready
    rw [h.token, Option.some.injEq] at htoken
    exact hne htoken.symm

theorem connected (h : Answered s completion portIdx) :
    (s.portsc portIdx).currentConnectStatus = true := by
  apply h.ports.past
  obtain hcmd | hcmd := h.command
  · simp [hcmd.1, PortConfigPhase.Past]
  · simp [hcmd.1, PortConfigPhase.Past]

end Answered

theorem processEnableSlotCompletion_enumeration {completion : CommandCompletion}
    (h : Answered s completion portIdx)
    (hcmd : s.commandAt completion.commandTrbPointer = some .enableSlot) :
    (processEnableSlotCompletion completion.slotId s).Meets enumeration fun _ t => Between t := by
  have hphase : s.portConfigPhase portIdx = .enablingSlot := by
    obtain hfor | ⟨_, slotId, _, hother, _⟩ := h.command
    · exact hfor.1
    · rw [hcmd] at hother
      cases hother
  apply processEnableSlotCompletion_meets enumeration_tame.mild
  · exact fun hinvalid => absurd hphase (hinvalid portIdx h.token)
  · exact fun _ he _ => enumeration_tame.slotError he
  · intro p htoken _ _ _
    rw [h.token, Option.some.injEq] at htoken
    subst htoken
    have hbusy : Busy (s.setPhase portIdx .addressingDevice) := h.clear.busy (by decide) h.connected
    refine ⟨⟨hbusy.ports.enabled, hbusy.ports.past⟩, ?_, .inr ⟨s.commandIndex, portIdx, ?_, h.token,
      .inr ⟨by simp, completion.slotId, _, by simp, by simp; rfl, rfl⟩⟩⟩
    · exact fun p hp hready => absurd hready (hbusy.ready p hp)
    · exact ⟨h.settled.popped, .inl ⟨by simp [h.settled.outstanding], h.settled.events⟩⟩

theorem processAddressDeviceCompletion_enumeration {completion : CommandCompletion} {slotId : Nat}
    (h : Answered s completion portIdx)
    (hcmd : s.commandAt completion.commandTrbPointer = some (.addressDevice slotId)) :
    (processAddressDeviceCompletion completion.slotId s).Meets enumeration
      fun _ t => Between t := by
  have hslot : completion.slotId = slotId := by
    have hanswers := h.answers
    rw [Answers, hcmd] at hanswers
    exact hanswers.2
  obtain hother | ⟨hphase, slotId', device, hcmd', hdevice, hroot⟩ := h.command
  · rw [hcmd] at hother
    cases hother.2
  obtain rfl : slotId = slotId' := by simpa [hcmd] using hcmd'
  have hport {device' : Device} {p : Nat} (hdevice' : s.device completion.slotId = some device')
      (hroot' : device'.rootHubPortNumber = p + 1) : p = portIdx := by
    rw [hslot, hdevice, Option.some.injEq] at hdevice'
    rw [← hdevice', hroot, Nat.add_right_cancel_iff] at hroot'
    exact hroot'.symm
  apply processAddressDeviceCompletion_meets enumeration_tame.mild
  · intro device' p hdevice' hroot' hinvalid
    rw [hport hdevice' hroot'] at hinvalid
    exact absurd ⟨h.token, hphase⟩ hinvalid
  · intro device' p t hdevice' hroot' _ _ ht
    rw [hport hdevice' hroot']
    obtain rfl | ⟨next, hnext, hreset, rfl⟩ := ht
    · exact initializeDeviceAt_enumeration (h.clear.setAddressing none) h.connected
    · have hclear := (h.clear.setAddressing (some next)).resetWaiting hnext hreset
      apply initializeDeviceAt_enumeration hclear
      have hne : portIdx ≠ next := by
        rintro rfl
        simp [hnext] at hphase
      simpa [Function.update_of_ne hne] using h.connected

theorem processCommandCompletionEvent_enumeration {completion : CommandCompletion}
    (h : Answered s completion portIdx) :
    (processCommandCompletionEvent completion s).Meets enumeration fun _ t => Between t := by
  have hanswers := h.answers
  apply processCommandCompletionEvent_meets enumeration_tame.mild
  · intro hother
    obtain hcmd | ⟨_, slotId, _, hcmd, _⟩ := h.command
    · rw [Answers, hcmd.2] at hanswers
      simp [hcmd.2, hanswers.1, completionCode, success] at hother
    · rw [Answers, hcmd] at hanswers
      simp [hcmd, hanswers.1, completionCode, success] at hother
  · exact fun hcmd _ => processEnableSlotCompletion_enumeration h hcmd
  · exact fun slotId => processAddressDeviceCompletion_enumeration h
  · intro slotId hcmd
    obtain hfor | ⟨_, slotId, _, hfor, _⟩ := h.command
    · rw [hcmd] at hfor
      cases hfor.2
    · rw [hcmd] at hfor
      cases hfor

/-- An event other than a completion leaves what is in flight. -/
theorem Between.popped (h : Between s) {entry : Entry} {event : Event}
    (hevent : entry.event s = some event)
    (hother : ∀ completion, event ≠ .commandCompletion completion) : Between (entry.popped s) := by
  cases entry with
  | processOnceReceived =>
      obtain ⟨events, hpopped⟩ := List.getLast?_eq_some_iff.mp hevent
      refine h.congr rfl ⟨rfl, rfl, rfl, rfl⟩ rfl rfl ?_
      simp [Entry.popped, hpopped, completions_cons_other hother]
  | processEvent =>
      obtain ⟨events, hevents⟩ := List.head?_eq_some_iff.mp hevent
      refine h.congr rfl ⟨rfl, rfl, rfl, rfl⟩ rfl ?_ rfl
      simp [Entry.popped, hevents, completions_cons_other hother]
  | processUserEvent => cases hevent
  | configurePortAt portIdx => cases hevent

/-- A completion is that of the command in flight, and it comes from the ring. -/
theorem Between.answered (h : Between s) {entry : Entry} {completion : CommandCompletion}
    (hevent : entry.event s = some (.commandCompletion completion)) :
    ∃ portIdx, Answered (entry.popped s) completion portIdx := by
  have hpopped : completions s.popped = [] := by
    obtain ⟨hsettled, _⟩ | ⟨_, _, hflight, _⟩ := h.inFlight
    · exact hsettled.popped
    · exact hflight.popped
  cases entry with
  | processOnceReceived =>
      obtain ⟨events, hlast⟩ := List.getLast?_eq_some_iff.mp hevent
      simp [hlast, completions_cons_completion] at hpopped
  | processEvent =>
      obtain ⟨events, hevents⟩ := List.head?_eq_some_iff.mp hevent
      obtain ⟨hsettled, _⟩ | ⟨i, p, hflight, htoken, hcmd⟩ := h.inFlight
      · have hnone := hsettled.events
        rw [hevents, completions_cons_completion] at hnone
        cases hnone
      obtain ⟨_, hnone⟩ | ⟨hout, answer, hanswer, hptr, hanswers⟩ := hflight.place
      · rw [hevents, completions_cons_completion] at hnone
        cases hnone
      rw [hevents, completions_cons_completion, List.cons.injEq] at hanswer
      obtain ⟨rfl, hrest⟩ := hanswer
      refine ⟨p, ⟨h.ports.enabled, h.ports.past⟩, h.ready, ⟨hout, ?_, hpopped⟩, htoken, ?_,
        hanswers⟩
      · simpa [Entry.popped, hevents] using hrest
      · rw [hptr]
        exact hcmd
  | processUserEvent => cases hevent
  | configurePortAt portIdx => cases hevent

theorem processEventRingEvent_enumeration {entry : Entry} {event : Event} (h : Between s)
    (hevent : entry.event s = some event) :
    (processEventRingEvent event (entry.popped s)).Meets enumeration fun _ t => Between t := by
  cases event with
  | commandCompletion completion =>
      obtain ⟨portIdx, hanswered⟩ := h.answered hevent
      exact processCommandCompletionEvent_enumeration hanswered
  | transferEvent event =>
      exact processTransferEvent_meets enumeration_tame.mild (h.popped hevent (by simp))
  | portStatusChange event =>
      exact processPortStatusChangeEvent_enumeration (h.popped hevent (by simp))
  | hostController => exact h.popped hevent (by simp)
  | bandwidthRequest => exact enumeration_tame _ (by simp [Fault.PhaseError])
  | doorbell => exact enumeration_tame _ (by simp [Fault.PhaseError])
  | deviceNotification => exact enumeration_tame _ (by simp [Fault.PhaseError])
  | mfindexWrap => exact enumeration_tame _ (by simp [Fault.PhaseError])

/-- A device behind a hub, taken up while no root port is being enumerated. -/
theorem processInitPortDeviceEvent_enumeration {event : InitPortDevice} (h : Between s)
    (hok : (s.portsc event.portIndex).Ready → ∀ p, s.addressingPortIndex = some p →
      p = event.portIndex ∧ s.portConfigPhase p = .notConnected) :
    (processInitPortDeviceEvent event s).Meets enumeration fun _ t => Between t := by
  have hclear (hready : (s.portsc event.portIndex).Ready) : Clear s event.portIndex := by
    refine ⟨h.ports, ?_, ?_⟩
    · intro p hne hp hp'
      exact hne (hok hready p (h.ready p hp hp')).1
    · obtain ⟨hsettled, _⟩ | ⟨_, p, _, htoken, hcmd⟩ := h.inFlight
      · exact hsettled
      · have hphase := (hok hready p htoken).2
        obtain hcmd | hcmd := hcmd
        · simp [hphase] at hcmd
        · simp [hphase] at hcmd
  apply processInitPortDeviceEvent_meets enumeration_tame.mild
  · intro hready
    have hconnected := h.ports.enabled _ hready.1
    have hbusy : Busy (s.setPhase event.portIndex .enablingSlot) :=
      (hclear hready).busy (by decide) hconnected
    have hsettled : Settled (s.setPhase event.portIndex .enablingSlot) :=
      (hclear hready).settled.congr rfl rfl rfl
    exact ⟨hbusy.congr rfl rfl, hsettled.issue _⟩
  · exact fun _ _ _ _ _ he _ => enumeration_tame.slotError he
  · intro completion t hready hresumed _ _
    obtain ⟨hbusy, hsettled, hsame, _⟩ := hresumed
    have hconnected (phase : PortConfigPhase) (hpast : PortConfigPhase.Past phase) {u : Controller}
        (hu : Busy u) (hphase : u.portConfigPhase event.portIndex = phase) :
        (u.portsc event.portIndex).currentConnectStatus = true :=
      hu.ports.past _ (hphase ▸ hpast)
    have hclear : Clear t event.portIndex := ⟨hbusy.ports, fun p _ => hbusy.ready p, hsettled⟩
    have haddress : Busy (t.setPhase event.portIndex .addressingDevice) := by
      apply hclear.busy (by decide)
      exact hconnected .enablingSlot trivial hbusy (by simp [hsame.phase])
    apply awaitCompletion_meets enumeration_tame.mild
    · refine ⟨haddress.congr rfl rfl, ?_⟩
      exact ⟨hsettled.popped, .inl ⟨by simp [hsettled.outstanding], hsettled.events⟩⟩
    · intro addressing u hresumed
      obtain ⟨hbusy', hsettled', hsame', hmine⟩ := hresumed
      have hptr : addressing.commandTrbPointer = t.commandIndex := by
        simpa [Future.waitsFor] using hmine
      refine ⟨fun _ _ => ?_, fun hother => ?_⟩
      · have hclear' : Clear u event.portIndex :=
          ⟨hbusy'.ports, fun p _ => hbusy'.ready p, hsettled'⟩
        apply initializeDeviceAt_enumeration hclear'
        exact hconnected .addressingDevice trivial hbusy' (by simp [hsame'.phase])
      · refine absurd ?_ (hother completion.slotId)
        rw [hptr, hsame'.command]
        simp

/-- A device behind a hub is taken up only while no root port is being enumerated: the right
to address is free, or with the port of the hub, which has only been reset. (A port that is
not ready is a matter of `enable_slot_at`.) -/
def HubWaits (s : Controller) (entry : Entry) : Prop :=
  entry = .processUserEvent → ∀ event, s.userEvents.head? = some event →
    (s.portsc event.portIndex).Ready → ∀ p, s.addressingPortIndex = some p →
      p = event.portIndex ∧ s.portConfigPhase p = .notConnected

theorem Entry.run_enumeration {entry : Entry} (h : Between s) (hok : HubWaits s entry) :
    (entry.run s).Meets enumeration fun _ t => Between t := by
  apply Entry.run_meets enumeration_tame.mild h
  · exact fun event hevent => processEventRingEvent_enumeration h hevent
  · intro event events hentry hevents
    have hpopped : Between (s.setUserEvents events) :=
      h.congr rfl ⟨rfl, rfl, rfl, rfl⟩ rfl rfl rfl
    exact processInitPortDeviceEvent_enumeration hpopped (hok hentry event (by simp [hevents]))
  · exact fun _ _ hphase => resetPortAt_enumeration h hphase

/-- Every call of the run lets root ports finish first. -/
def StartsWait (s : Scheduled Controller Future Event Fault) : Scheduler.Label Entry → Prop
  | .start entry => HubWaits s.state entry
  | _ => True

/-- A controller that has just been created, with nothing attached. -/
def FreshDetached (s : Controller) : Prop :=
  Fresh s ∧ ∀ p, (s.portsc p).currentConnectStatus = false ∧ (s.portsc p).portEnabled = false

theorem FreshDetached.between (h : FreshDetached s) : Between s := by
  obtain ⟨⟨_, _, _, _, _, rfl⟩, hports⟩ := h
  refine ⟨⟨?_, ?_⟩, ?_, .inl ⟨⟨rfl, rfl, rfl⟩, ?_⟩⟩
  · intro p hp
    rw [(hports p).2] at hp
    cases hp
  · intro p hp
    simp [PortConfigPhase.Past] at hp
  · intro p _ hp
    rw [PortSc.Ready, (hports p).2] at hp
    cases hp.1
  · exact fun p hp => by cases hp

/-- In every run in which devices behind hubs wait for root ports, no handler panics about a
phase. -/
theorem no_phase_error {s : Scheduled Controller Future Event Fault}
    (hs : (((pollForever Hardware).system FreshDetached).guard StartsWait).Reachable s) :
    ∀ e, s.task = .failed e → ¬ e.PhaseError := by
  have hok := Scheduler.reachable_ok pollForever_respects_enumeration (fun s h => h.between)
    (fun s entry h hok => Entry.run_enumeration h hok) hs
  intro e he
  rw [Scheduler.Ok, he] at hok
  exact hok

/-- A device is plugged in, and the first call for it does not fail at all. -/
theorem no_phase_error_plugged :
    (processEvent ((detached 1 fun _ => []).connected 0 plugged)).schedule.failure = none ∧
      (processEvent ((detached 1 fun _ => []).connected 0 plugged)).schedule.task ≠
        .failed (.panic (.message "InvalidPhase")) := by
  have h₀ : (((pollForever Hardware).system FreshDetached).guard StartsWait).Reachable
      ⟨detached 1 fun _ => [], .idle⟩ :=
    .init ⟨⟨⟨_, _, _, _, _, rfl⟩, fun _ => ⟨rfl, rfl⟩⟩, rfl⟩
  have h₁ := Scheduler.guard_reachable_env h₀ trivial (.connect 0 plugged rfl rfl)
  have hwaits : HubWaits ((detached 1 fun _ => []).connected 0 plugged) .processEvent :=
    fun h => by cases h
  have h₂ := Scheduler.guard_reachable_started (i := Entry.processEvent) h₁ hwaits
  exact ⟨by decide +kernel, fun h => no_phase_error h₂ _ h (.inl rfl)⟩

/-- A hub has been enumerated at the first port when a device is plugged to the second, and
the device behind the hub is taken up before the second port has its slot. -/
theorem hub_device_phase_error :
    ¬ ∀ s, ((pollForever Hardware).system FreshDetached).Reachable s →
      ∀ e, s.task = .failed e → ¬ e.PhaseError := by
  intro h
  let run := (pollForever Hardware).system FreshDetached
  have hplug (portIdx : Nat) (x : Scheduled Controller Future Event Fault) (hx : run.Reachable x) :
      run.Reachable ⟨x.state.connected portIdx plugged, x.task⟩ :=
    Scheduler.reachable_env hx (.connect portIdx plugged rfl rfl)
  have hanswer (completion : CommandCompletion) (x : Scheduled Controller Future Event Fault)
      (hx : run.Reachable x) (hmem : completion.commandTrbPointer ∈ x.state.outstanding)
      (hanswers : x.state.Answers completion) :
      run.Reachable ⟨x.state.answered completion, x.task⟩ :=
    Scheduler.reachable_env hx (.complete completion hmem hanswers)
  have h₀ : run.Reachable ⟨detached 2 fun slotId => if slotId = 1 then hubWithDevice else [],
      .idle⟩ :=
    .init ⟨⟨⟨_, _, _, _, _, rfl⟩, fun _ => ⟨rfl, rfl⟩⟩, rfl⟩
  -- the hub is enumerated at the first port
  have h₁ := Scheduler.reachable_started .processEvent (hplug 0 _ h₀)
  have h₂ := Scheduler.reachable_started .processEvent
    (hanswer ⟨0, 1, 1⟩ _ h₁ (by decide +kernel) (by decide +kernel))
  have h₃ := Scheduler.reachable_started .processEvent
    (hanswer ⟨1, 1, 1⟩ _ h₂ (by decide +kernel) (by decide +kernel))
  -- the second port asks for a slot
  have h₄ := Scheduler.reachable_started .processEvent (hplug 1 _ h₃)
  -- the device behind the hub asks for another; its future puts the first answer aside
  have h₅ := Scheduler.reachable_started .processUserEvent h₄
  have h₆ := Scheduler.reachable_polled
    (hanswer ⟨2, 2, 1⟩ _ h₅ (by decide +kernel) (by decide +kernel))
  have h₇ := Scheduler.reachable_polled
    (hanswer ⟨3, 3, 1⟩ _ h₆ (by decide +kernel) (by decide +kernel))
  have h₈ := Scheduler.reachable_polled
    (hanswer ⟨4, 3, 1⟩ _ h₇ (by decide +kernel) (by decide +kernel))
  -- the first answer is processed when the right to address is gone
  have h₉ := Scheduler.reachable_started .processOnceReceived h₈
  refine h _ h₉ (.panic (.message "InvalidPhase")) (Scheduled.task_of_failure ?_) (.inl rfl)
  decide +kernel

end LemolaOs.Xhci.Controller
