import LemolaOs.Xhci.Controller.PollForever

/-!
# At most one port is being addressed

`addressing_port_index` is the right to address a port. It is looked at before a root
port is reset, and not at all in `enable_slot_at` and `address_device_at`, which set
the phase. A port gets into one of these phases without the right when a device
behind a hub is initialised, and when the status of a port changes that is enabled,
not known as connected, and has no connect change. All other steps of `poll_forever`
keep the rule, whatever the hardware and the other tasks do.
-/

namespace LemolaOs.Xhci.Controller

open Code Resumption

/-- The port is in phase `EnablingSlot` or `AddressingDevice`. -/
def Addressing (s : Controller) (portIdx : Nat) : Prop :=
  s.portConfigPhase portIdx = .enablingSlot ∨ s.portConfigPhase portIdx = .addressingDevice

/-- At most one port is being addressed, and that port has the right to it. -/
structure Exclusive (s : Controller) : Prop where
  unique : ∀ p q, s.Addressing p → s.Addressing q → p = q
  token : ∀ p, s.Addressing p → s.addressingPortIndex = some p

theorem exclusive_of_token {s : Controller}
    (h : ∀ p, s.Addressing p → s.addressingPortIndex = some p) : Exclusive s where
  unique p q hp hq := Option.some_injective _ ((h p hp).symm.trans (h q hq))
  token := h

/-- The hardware and the other tasks: everything may change but the `PortConfigureState`. -/
def SamePorts (s t : Controller) : Prop :=
  t.portConfigPhase = s.portConfigPhase ∧ t.addressingPortIndex = s.addressingPortIndex

/-- Handlers wait in exclusive states only. -/
def exclusion : Protocol Controller Future Event Fault where
  waiting _ s := Exclusive s
  resumed _ s _ t := SamePorts s t
  failing _ := True

theorem exclusion_tame : Tame exclusion := fun _ _ => trivial

variable {s t : Controller} {portIdx : Nat}

theorem SamePorts.trans {u : Controller} (h : SamePorts s t) (h' : SamePorts t u) : SamePorts s u :=
  ⟨h'.1.trans h.1, h'.2.trans h.2⟩

theorem Exclusive.congr (h : Exclusive s) (hsame : SamePorts s t) : Exclusive t := by
  apply exclusive_of_token
  intro p hp
  rw [hsame.2]
  apply h.token
  simpa [Addressing, hsame.1] using hp

/-- A port that has the right may get into any phase. -/
theorem Exclusive.setPhase_of_token (h : Exclusive s) (phase : PortConfigPhase)
    (htoken : s.addressingPortIndex = some portIdx) : Exclusive (s.setPhase portIdx phase) := by
  apply exclusive_of_token
  intro p hp
  by_cases heq : p = portIdx
  · rw [heq]
    exact htoken
  · apply h.token
    simpa [Addressing, Function.update_of_ne heq] using hp

/-- Any port may get into a phase in which no port is addressed. -/
theorem Exclusive.setPhase (h : Exclusive s) {phase : PortConfigPhase}
    (henabling : phase ≠ .enablingSlot) (haddressing : phase ≠ .addressingDevice) :
    Exclusive (s.setPhase portIdx phase) := by
  apply exclusive_of_token
  intro p hp
  by_cases heq : p = portIdx
  · subst heq
    simp [Addressing, henabling, haddressing] at hp
  · apply h.token
    simpa [Addressing, Function.update_of_ne heq] using hp

/-- Where no other port has the right, a port may take it. -/
theorem Exclusive.setAddressing (h : Exclusive s)
    (hfree : s.addressingPortIndex = some portIdx ∨ s.addressingPortIndex = none) :
    Exclusive (s.setAddressing (some portIdx)) := by
  apply exclusive_of_token
  intro p hp
  have htoken := h.token p hp
  obtain hfree | hfree := hfree
  · rwa [hfree] at htoken
  · rw [hfree] at htoken
    cases htoken

/-- No other port than this one is being addressed. -/
def OnlyAddressing (s : Controller) (portIdx : Nat) : Prop := ∀ p, s.Addressing p → p = portIdx

theorem OnlyAddressing.setPhase (h : OnlyAddressing s portIdx) {phase : PortConfigPhase}
    (henabling : phase ≠ .enablingSlot) (haddressing : phase ≠ .addressingDevice) :
    ∀ p, ¬ (s.setPhase portIdx phase).Addressing p := by
  intro p hp
  by_cases heq : p = portIdx
  · subst heq
    simp [Addressing, henabling, haddressing] at hp
  · apply heq
    apply h
    simpa [Addressing, Function.update_of_ne heq] using hp

theorem exclusive_of_none (h : ∀ p, ¬ s.Addressing p) : Exclusive s :=
  exclusive_of_token fun p hp => absurd hp (h p)

/-- The initialisation of a device addresses no port. -/
theorem hostOpOk_exclusion {I : Controller → Prop} (hexclusive : ∀ s, I s → Exclusive s)
    (hsame : ∀ s t, I s → SamePorts s t → I t) {slotId : Nat} (op : HostOp) (h : I s) :
    HostOpOk exclusion slotId s I op := by
  cases op with
  | registers => exact h
  | command cmd =>
      exact ⟨(hexclusive s h).congr ⟨rfl, rfl⟩, fun _ t ht => hsame s t h ht⟩
  | transfer waitOn => exact ⟨hexclusive s h, fun _ t ht => hsame s t h ht⟩
  | assignAddress device => exact hsame s _ h ⟨rfl, rfl⟩
  | addDevice kind address => exact fun _ => hsame s _ h ⟨rfl, rfl⟩
  | unwrapFailed => trivial

/-- Initialising the only port that was being addressed leaves none. -/
theorem initializeDeviceAt_exclusive {slotId : Nat} (h : OnlyAddressing s portIdx) :
    (initializeDeviceAt portIdx slotId s).Meets exclusion fun _ t => Exclusive t := by
  apply initializeDeviceAt_meets exclusion_tame.mild (I := fun _ t => ∀ p, ¬ t.Addressing p)
  · intro op _ t ht
    apply hostOpOk_exclusion (fun _ => exclusive_of_none) ?_ op ht
    intro t u ht hsame p
    simpa [Addressing, hsame.1] using ht p
  · intro _ _
    exact h.setPhase (by decide) (by decide)
  · intro t ht
    apply exclusive_of_none
    have honly : OnlyAddressing t portIdx := fun p hp => absurd hp (ht p)
    exact honly.setPhase (by decide) (by decide)

theorem resetConnectionAt_exclusive (h : Exclusive s) :
    (resetConnectionAt portIdx s).Meets exclusion fun _ t => Exclusive t := by
  apply resetConnectionAt_meets exclusion_tame.mild (I := fun _ t => Exclusive t)
  · exact fun _ _ t ht => ht.congr ⟨rfl, rfl⟩
  · exact fun _ _ t _ u ht hsame => ht.congr hsame
  · exact fun _ _ t ht _ => ht.congr ⟨rfl, rfl⟩
  · exact fun _ _ _ _ _ _ _ => trivial
  · -- the port gives up the right together with its phase
    apply exclusive_of_token
    intro p hp
    by_cases heq : p = portIdx
    · subst heq
      simp [Addressing] at hp
    · have htoken : s.addressingPortIndex = some p := by
        apply h.token
        simpa [Addressing, Function.update_of_ne heq] using hp
      have hne : ¬ s.addressingPortIndex = some portIdx := by
        rw [htoken]
        exact fun hsome => heq (Option.some_injective _ hsome)
      simpa [hne] using htoken
  · exact fun t ht => ht.congr ⟨rfl, rfl⟩

/-- A slot is enabled for a port that has the right. -/
theorem Exclusive.enableSlot (h : Exclusive s) (htoken : s.addressingPortIndex = some portIdx) :
    Exclusive ((s.setPhase portIdx .enablingSlot).issue .enableSlot) :=
  (h.setPhase_of_token .enablingSlot htoken).congr ⟨rfl, rfl⟩

theorem Exclusive.setPort (h : Exclusive s) (portsc : PortSc) :
    Exclusive (s.setPort portIdx portsc) :=
  h.congr ⟨rfl, rfl⟩

theorem Exclusive.onlyAddressing (h : Exclusive s) (htoken : s.addressingPortIndex = some portIdx) :
    OnlyAddressing s portIdx := by
  intro p hp
  have hp := h.token p hp
  rw [htoken] at hp
  exact (Option.some_injective _ hp).symm

/-- The status of a port changes; the excluded case is a port that is enabled without the
right to be addressed. -/
theorem processPortStatusChangeEvent_exclusive {event : PortStatusChange} (h : Exclusive s)
    (hok : ∀ portIdx, event.portId = portIdx + 1 → s.portConfigPhase portIdx = .notConnected →
      s.addressingPortIndex = none → ¬ (s.portsc portIdx).Ready) :
    (processPortStatusChangeEvent event s).Meets exclusion fun _ t => Exclusive t := by
  have hwait (portIdx : Nat) : Exclusive (s.setPhase portIdx .waitingAddressed) :=
    h.setPhase (by decide) (by decide)
  apply processPortStatusChangeEvent_meets exclusion_tame.mild
  · intro portIdx hid hphase
    apply processNotConnected_meets exclusion_tame.mild hphase
    · exact fun _ _ => hwait portIdx
    · exact fun hfree _ _ => ((h.setAddressing hfree).setPort _).enableSlot rfl
    · intro hfree hready
      obtain hself | hnone := hfree
      · exact h.enableSlot hself
      · exact absurd hready (hok portIdx hid hphase hnone)
  · intro portIdx _
    apply processResettingPort_meets exclusion_tame.mild
    · exact fun _ _ => hwait portIdx
    · exact fun hfree _ => (h.setAddressing hfree).enableSlot rfl
  · intro portIdx _
    apply processWaitingAddressed_meets exclusion_tame.mild
    · exact fun _ => h.congr ⟨rfl, rfl⟩
    · exact fun hnone _ _ => ((h.setAddressing (.inr hnone)).setPort _).enableSlot rfl
    · exact fun hnone _ => (h.setAddressing (.inr hnone)).enableSlot rfl
  · exact h
  · intro portIdx _ _ _ _ _ _
    exact resetConnectionAt_exclusive h

theorem processCommandCompletionEvent_exclusive {event : CommandCompletion} (h : Exclusive s) :
    (processCommandCompletionEvent event s).Meets exclusion fun _ t => Exclusive t := by
  apply processCommandCompletionEvent_meets exclusion_tame.mild fun _ => h
  · intro _ _
    apply processEnableSlotCompletion_meets exclusion_tame.mild (fun _ => trivial)
      (fun _ _ _ => trivial)
    intro portIdx htoken _ _ _
    have haddress : Exclusive (s.setPhase portIdx .addressingDevice) :=
      h.setPhase_of_token _ htoken
    exact haddress.congr ⟨rfl, rfl⟩
  · intro _ _
    apply processAddressDeviceCompletion_meets exclusion_tame.mild (fun _ _ _ _ _ => trivial)
    intro device portIdx t _ _ htoken _ ht
    apply initializeDeviceAt_exclusive
    have honly := h.onlyAddressing htoken
    obtain rfl | ⟨next, _, _, rfl⟩ := ht
    · exact honly
    · exact honly
  · exact fun _ _ => h.congr ⟨rfl, rfl⟩

/-- A device behind a hub at a port that has the right, or that is not ready. -/
theorem processInitPortDeviceEvent_exclusive {event : InitPortDevice} (h : Exclusive s)
    (hok : (s.portsc event.portIndex).Ready → s.addressingPortIndex = some event.portIndex) :
    (processInitPortDeviceEvent event s).Meets exclusion fun _ t => Exclusive t := by
  apply processInitPortDeviceEvent_meets exclusion_tame.mild
  · exact fun hready => h.enableSlot (hok hready)
  · exact fun _ _ _ _ _ _ _ => trivial
  · intro completion t hready hresumed _ _
    have htoken : t.addressingPortIndex = some event.portIndex := hresumed.2.trans (hok hready)
    have ht : Exclusive t := (h.enableSlot (hok hready)).congr hresumed
    have haddress := ht.setPhase_of_token .addressingDevice htoken
    apply awaitCompletion_meets exclusion_tame.mild
    · exact haddress.congr ⟨rfl, rfl⟩
    · intro addressing u hsame
      have hu : Exclusive u := (haddress.congr ⟨rfl, rfl⟩).congr hsame
      refine ⟨fun _ _ => ?_, fun _ => hu⟩
      apply initializeDeviceAt_exclusive
      exact hu.onlyAddressing (hsame.2.trans htoken)

theorem processEventRingEvent_exclusive {event : Event} (h : Exclusive s)
    (hok : ∀ change portIdx, event = .portStatusChange change → change.portId = portIdx + 1 →
      s.portConfigPhase portIdx = .notConnected → s.addressingPortIndex = none →
      ¬ (s.portsc portIdx).Ready) :
    (processEventRingEvent event s).Meets exclusion fun _ t => Exclusive t := by
  cases event with
  | transferEvent event => exact processTransferEvent_meets exclusion_tame.mild h
  | commandCompletion event => exact processCommandCompletionEvent_exclusive h
  | portStatusChange event =>
      exact processPortStatusChangeEvent_exclusive h fun portIdx => hok event portIdx rfl
  | hostController => exact h
  | bandwidthRequest => trivial
  | doorbell => trivial
  | deviceNotification => trivial
  | mfindexWrap => trivial

theorem resetPortAt_exclusive (h : Exclusive s) :
    (resetPortAt portIdx s).Meets exclusion fun _ t => Exclusive t := by
  apply resetPortAt_meets exclusion_tame.mild
  · exact fun _ => trivial
  · exact fun _ => h
  · exact fun _ _ _ => h.setPhase (by decide) (by decide)
  · exact fun _ hfree _ => (h.setAddressing hfree).setPort _

/-- The call sends no port into the phases of addressing without the right to it: a device
behind a hub is taken up only while its port has the right (or is not ready), and the status
of a port that is not known as connected changes only while some port has the right (or this
one is not ready). -/
def TakesTurns (s : Controller) (entry : Entry) : Prop :=
  (entry = .processUserEvent → ∀ event, s.userEvents.head? = some event →
    (s.portsc event.portIndex).Ready → s.addressingPortIndex = some event.portIndex) ∧
  ∀ change portIdx, entry.event s = some (.portStatusChange change) →
    change.portId = portIdx + 1 → s.portConfigPhase portIdx = .notConnected →
    s.addressingPortIndex = none → ¬ (s.portsc portIdx).Ready

theorem Entry.run_exclusive {entry : Entry} (h : Exclusive s) (hok : TakesTurns s entry) :
    (entry.run s).Meets exclusion fun _ t => Exclusive t := by
  apply Entry.run_meets exclusion_tame.mild h
  · intro event hevent
    have hsame : SamePorts s (entry.popped s) := by cases entry <;> exact ⟨rfl, rfl⟩
    have hregisters : (entry.popped s).portsc = s.portsc := by cases entry <;> rfl
    apply processEventRingEvent_exclusive (h.congr hsame)
    intro change portIdx heq hid hphase hnone
    rw [hregisters]
    rw [hsame.1] at hphase
    rw [hsame.2] at hnone
    exact hok.2 change portIdx (heq ▸ hevent) hid hphase hnone
  · intro event events hentry hevents
    apply processInitPortDeviceEvent_exclusive (s := s.setUserEvents events) (h.congr ⟨rfl, rfl⟩)
    exact hok.1 hentry event (by simp [hevents])
  · exact fun _ _ _ => resetPortAt_exclusive h

/-- Every call of the run takes turns. -/
def StartsTakeTurns (s : Scheduled Controller Future Event Fault) : Scheduler.Label Entry → Prop
  | .start entry => TakesTurns s.state entry
  | _ => True

theorem pollFuture_samePorts {future : Future} {answer : Option Event}
    (hpoll : pollFuture future s = (answer, t)) : SamePorts s t := by
  obtain ⟨events, popped, hstate⟩ := pollFuture_state future s
  obtain rfl : (s.setEvents events).setPopped popped = t := by rw [← hstate, hpoll]
  exact ⟨rfl, rfl⟩

theorem pollForever_respects_exclusion :
    (pollForever SamePorts).Respects exclusion Exclusive :=
  Scheduler.respects_of_same SamePorts SamePorts.trans id pollFuture_samePorts Iff.rfl
    Exclusive.congr Exclusive.congr

/-- In every run in which all calls take turns, at most one port is being addressed and has
the right to it, whenever a handler has returned or waits. -/
theorem addressing_exclusive {s : Scheduled Controller Future Event Fault}
    (hs : (((pollForever SamePorts).system Fresh).guard StartsTakeTurns).Reachable s)
    (hobserved : ∀ e, s.task ≠ .failed e) : Exclusive s.state := by
  have hok := Scheduler.reachable_ok pollForever_respects_exclusion
    (fun s ⟨_, _, _, _, _, hs⟩ => by
      subst hs
      exact exclusive_of_none (by simp [Addressing]))
    (fun s entry h hok => Entry.run_exclusive h hok) hs
  exact hok.observed hobserved (fun _ => id) fun _ _ => id

/-- A device is plugged in and its port is being addressed. -/
theorem addressing_exclusive_plugged :
    (processEvent (pluggedIn (detached 1 fun _ => []))).schedule.state.Addressing 0 ∧
      Exclusive (processEvent (pluggedIn (detached 1 fun _ => []))).schedule.state := by
  have h₀ : (((pollForever SamePorts).system Fresh).guard StartsTakeTurns).Reachable
      ⟨detached 1 fun _ => [], .idle⟩ :=
    .init ⟨⟨_, _, _, _, _, rfl⟩, rfl⟩
  have h₁ := Scheduler.guard_reachable_env (t := pluggedIn (detached 1 fun _ => [])) h₀ trivial
    ⟨rfl, rfl⟩
  have hturns : TakesTurns (pluggedIn (detached 1 fun _ => [])) .processEvent := by
    refine ⟨by simp, ?_⟩
    intro change portIdx hevent hid _ _
    obtain rfl : (⟨1⟩ : PortStatusChange) = change := by
      simpa [Entry.event, pluggedIn] using hevent
    obtain rfl : portIdx = 0 := by simpa using hid.symm
    decide +kernel
  have h₂ := Scheduler.guard_reachable_started (i := Entry.processEvent) h₁ hturns
  have hobserved : (processEvent (pluggedIn (detached 1 fun _ => []))).schedule.failure = none := by
    decide +kernel
  exact ⟨.inl (by decide +kernel), addressing_exclusive h₂ (Scheduled.not_failed hobserved)⟩

/-- A hub is enumerated, and then the device behind it is taken up: its port is in phase
`EnablingSlot` while nobody has the right to address. -/
theorem hub_device_not_exclusive :
    ¬ ∀ s, ((pollForever SamePorts).system Fresh).Reachable s → (∀ e, s.task ≠ .failed e) →
      Exclusive s.state := by
  intro h
  let run := (pollForever SamePorts).system Fresh
  have hplug (x : Scheduled Controller Future Event Fault) (hx : run.Reachable x) :
      run.Reachable ⟨pluggedIn x.state, x.task⟩ :=
    Scheduler.reachable_env hx ⟨rfl, rfl⟩
  have hcomplete (completion : CommandCompletion) (x : Scheduled Controller Future Event Fault)
      (hx : run.Reachable x) :
      run.Reachable ⟨x.state.setEvents [.commandCompletion completion], x.task⟩ :=
    Scheduler.reachable_env hx ⟨rfl, rfl⟩
  have h₀ : run.Reachable ⟨detached 1 fun _ => hubWithDevice, .idle⟩ :=
    .init ⟨⟨_, _, _, _, _, rfl⟩, rfl⟩
  -- the hub is given a slot and an address, and is initialised
  have h₁ := Scheduler.reachable_started .processEvent (hplug _ h₀)
  have h₂ := Scheduler.reachable_started .processEvent (hcomplete ⟨0, 1, 1⟩ _ h₁)
  have h₃ := Scheduler.reachable_started .processEvent (hcomplete ⟨1, 1, 1⟩ _ h₂)
  have h₄ := Scheduler.reachable_started .processUserEvent h₃
  have hexclusive := h _ h₄ (Scheduled.not_failed (by decide +kernel))
  refine absurd (hexclusive.token 0 (.inl ?_)) ?_
  · decide +kernel
  · decide +kernel

end LemolaOs.Xhci.Controller
