import LemolaOs.Xhci.Controller.Slots

/-!
# Disconnected root ports

`reset_connection_at` frees the slots of its port one after another. It waits only for
the answers to its own `DisableSlot` commands and does not fail. With the handlers that
attach devices this gives the slots of every run in which no command is written over one
that is in flight.

At the end stands a run in which one is. The completion of an `AddressDevice` command is
put aside while a handler for a hub waits, and other events are put aside on top of it.
Devices come and go until the command ring has come round to the entry of that command,
and its next command is an `EnableSlot`: the old completion is taken for the answer, and
its slot is allocated for the second time.
-/

namespace LemolaOs.Xhci.Controller

open Code Resumption

variable {s t : Controller} {portIdx slotId : Nat}

section Disconnect

/-- The protocol of a disconnection: it waits only for the answer to a `DisableSlot` command
for one of the slots of the port, and it does not fail. -/
abbrev disconnecting (slotIds : List Nat) : Protocol Controller Future Event Fault :=
  bookkeeping (fun future commandAt => ∃ entry slotId, future = .command entry ∧
    slotId ∈ slotIds ∧ commandAt entry = some (.disableSlot slotId)) fun _ => False

/-- The slots `slotIds` of the port are still to be freed. The next one is about to be
disabled, or has just been. -/
structure Emptying (s : Controller) (portIdx : Nat) (slotIds : List Nat) (t : Controller) :
    Prop where
  held : t.held = [.portConfigureState]
  freed : ∃ freed, s.slotsAt portIdx = freed ++ slotIds ∧
    ∀ slotId, t.device slotId = if slotId ∈ freed then none else s.device slotId
  slots : t.slotsAt = s.slotsAt
  ledger : Ledger t.books [] none slotIds.head?

variable {slotIds : List Nat}

theorem Emptying.mem (h : Emptying s portIdx (slotId :: slotIds) t) :
    slotId ∈ s.slotsAt portIdx := by
  obtain ⟨freed, hslots, _⟩ := h.freed
  simp [hslots]

/-- The slot that is next still has its device. -/
theorem Emptying.device (h : Emptying s portIdx (slotId :: slotIds) t)
    (hfiled : Filed s.device s.slotsAt) : t.device slotId ≠ none := by
  obtain ⟨d, hsome, _⟩ := (hfiled.mem_iff portIdx slotId).mp h.mem
  obtain ⟨freed, hslots, hdevice⟩ := h.freed
  have hnext : slotId ∉ freed := by
    have hnodup := hfiled.nodup portIdx
    rw [hslots, List.nodup_middle, List.nodup_cons] at hnodup
    exact fun hmem => hnodup.1 (List.mem_append_left _ hmem)
  rw [hdevice, if_neg hnext, hsome]
  exact Option.some_ne_none d

theorem disableSlot_disconnecting (left : Nat) (h : Emptying s portIdx (slotId :: slotIds) t) :
    (disableSlot slotId (left + 1) t).Meets (disconnecting (s.slotsAt portIdx)) fun _ u =>
      Emptying s portIdx (slotId :: slotIds) u := by
  have hfree (m : Mutex) (hm : m ≠ .portConfigureState) : m ∉ t.held := by
    simpa [h.held] using hm
  apply bind_meets
  apply withLock_free_meets (hfree _ (by simp))
  simp only [pushCommand, bind_apply, get_apply, modify_apply, bind_done, pure_apply, meets_done,
    issue_hold, release_hold, hold_commandIndex]
  apply bind_meets
  apply withLock_free_meets (by simpa using hfree .registers (by simp))
  rw [pure_apply, meets_done, release_hold]
  have hdisabling : disabling (t.issue (.disableSlot slotId)).commandAt (.command t.commandIndex) =
      some slotId := by
    simp [disabling]
  apply bind_meets
  apply awaitCompletion_free_meets (by simpa using hfree .registers (by simp))
    (by simpa using hfree .eventRing (by simp))
  · refine ⟨⟨t.commandIndex, slotId, rfl, h.mem, by simp⟩, ?_⟩
    intro hnodup
    rw [hdisabling]
    refine h.ledger.issue hnodup ?_
    rintro other hother
    cases hother
    exact ⟨rfl, rfl⟩
  · intro event u hresumed
    obtain ⟨hsame, hmine, hledger⟩ := hresumed
    rw [hdisabling] at hledger
    cases event with
    | commandCompletion completion =>
        refine ⟨completion, rfl, ?_⟩
        have hptr : completion.commandTrbPointer = t.commandIndex := by
          simpa [Future.waitsFor] using hmine
        have hcmd : u.commandAt completion.commandTrbPointer = some (.disableSlot slotId) := by
          rw [hptr, hsame.commandAt]
          simp
        have hdecodable := hledger.decodable completion List.mem_cons_self slotId hcmd
        rw [Code.ite_apply, if_pos hdecodable]
        refine ⟨hsame.held.trans h.held, ?_, hsame.slotsAt.trans h.slots, ?_⟩
        · rw [hsame.device]
          exact h.freed
        · rw [entryOf, ← hptr] at hledger
          exact hledger.settle
    | _ => cases hmine

theorem disableSlots_disconnecting (hfiled : Filed s.device s.slotsAt)
    (h : Emptying s portIdx slotIds t) :
    (disableSlots slotIds t).Meets (disconnecting (s.slotsAt portIdx)) fun _ u =>
      Emptying s portIdx [] u := by
  induction slotIds generalizing t with
  | nil => exact h
  | cons slotId slotIds ih =>
      apply bind_meets
      apply (disableSlot_disconnecting 10 h).mono
      intro _ u hu
      have hdevice := hu.device hfiled
      apply bind_meets
      apply get_bind_meets
      apply bind_meets
      apply check_meets
      · exact fun hrange => absurd (hu.ledger.range slotId hdevice) hrange
      intro _
      apply withLock_free_meets (by simp [hu.held])
      apply get_bind_meets
      apply bind_meets
      apply check_meets
      · exact fun hnone => absurd (Option.isSome_iff_ne_none.mpr hdevice) hnone
      intro _
      rw [modify_apply, meets_done, setDevice_hold, release_hold]
      apply ih
      obtain ⟨freed, hslots, hfreed⟩ := hu.freed
      refine ⟨hu.held, ⟨freed ++ [slotId], by simp [hslots], ?_⟩, hu.slots, ?_⟩
      · intro other
        by_cases heq : other = slotId
        · simp [heq]
        · simp [hfreed, heq]
      · exact hu.ledger.free.leave _ (by simp)

/-- `reset_connection_at` frees the slots of its port, and no others. -/
theorem resetConnectionAt_disconnecting (h : InOrder s []) (hport : portIdx < s.numberOfPorts)
    (hindex : portIdx < 256) :
    (resetConnectionAt portIdx s).Meets (disconnecting (s.slotsAt portIdx)) fun _ t =>
      Disconnected portIdx s t ∧ InOrder t [] := by
  apply withLock_free_meets (by simp [h.held])
  apply bind_meets
  rw [clearAddressing_eq, meets_done, hold_addressingPortIndex, setAddressing_hold]
  apply bind_meets
  rw [setPortPhaseAt_eq _ hindex, meets_done, setPhase_hold]
  apply bind_meets
  apply withLock_free_meets (by simp [h.held])
  apply get_bind_meets
  rw [pure_apply, meets_done, release_hold]
  apply bind_meets
  apply withLock_free_meets (by simp [h.held])
  rw [updateVolatileAt_eq _ (by simpa using hport), meets_done, setPort_hold, release_hold,
    setPort_hold]
  apply bind_meets
  have hempty : Emptying s portIdx (s.slotsAt portIdx) ((((s.setAddressing
      (if s.addressingPortIndex = some portIdx then none else s.addressingPortIndex)).setPhase
      portIdx .notConnected).setPort portIdx
      { s.portsc portIdx with connectStatusChange := false }).hold .portConfigureState) :=
    ⟨by simp [h.held], ⟨[], rfl, by simp⟩, rfl, h.ledger.leave _ (by simp)⟩
  apply (disableSlots_disconnecting h.filed hempty).mono
  intro _ t ht
  apply withLock_free_meets (by simp [ht.held])
  rw [modify_apply, meets_done, setSlots_hold, release_hold]
  obtain ⟨freed, hslots, hdevice⟩ := ht.freed
  rw [List.append_nil] at hslots
  have hdisconnected : Disconnected portIdx s
      ((t.setSlots portIdx none).release .portConfigureState) := by
    constructor
    · intro slotId
      rw [hslots]
      exact hdevice slotId
    · intro other
      have hother := congrFun (setSlots_slotsAt t portIdx none) other
      rw [ht.slots] at hother
      exact hother.trans (Function.update_apply _ _ _ _)
  exact ⟨hdisconnected, by simp [ht.held], h.filed.disconnect hdisconnected, ht.ledger⟩

theorem resetConnectionAt_slotsKept (h : InOrder s []) (hport : portIdx < s.numberOfPorts)
    (hindex : portIdx < 256) :
    (resetConnectionAt portIdx s).Meets slotsKept fun _ t => Kept t := by
  apply ((resetConnectionAt_disconnecting h hport hindex).mono fun _ _ ht => ht.2.kept).relax
  · exact fun _ _ hwaiting => ⟨trivial, hwaiting.2⟩
  · exact fun _ _ _ _ hresumed => hresumed
  · exact fun _ hfalse => hfalse.elim

end Disconnect

section Calls

variable {entry : Entry} {event : Event}

/-- A status change may be put aside. -/
theorem InOrder.putAside_status (h : InOrder s []) (event : PortStatusChange) :
    InOrder (s.putAside (.portStatusChange event)) [] := by
  refine ⟨h.held, h.filed, ?_⟩
  have hpopped : completions (s.popped ++ [Event.portStatusChange event]) = completions s.popped :=
    completions_concat_other (by simp) _
  have hbooks : (s.putAside (.portStatusChange event)).books = s.books := by
    simp only [books, putAside_popped, hpopped]
    rfl
  rw [hbooks]
  exact h.ledger

theorem processPortStatusChangeEvent_slotsKept {event : PortStatusChange} (h : InOrder s []) :
    (processPortStatusChangeEvent event s).Meets slotsKept fun _ t => Kept t := by
  have hsame {t : Controller} (hheld : t.held = s.held) (hfiled : Filed t.device t.slotsAt)
      (hledger : Ledger t.books [] none none) : Kept t :=
    ⟨hheld.trans h.held, hfiled, fun _ => hledger⟩
  have htake (portIdx : Nat) : InOrder (s.setAddressing (some portIdx)) [] :=
    ⟨h.held, h.filed, h.ledger⟩
  have hreset (portIdx : Nat) : InOrder ((s.setAddressing (some portIdx)).setPort portIdx
      (s.portsc portIdx).afterReset) [] := ⟨h.held, h.filed, h.ledger⟩
  apply processPortStatusChangeEvent_meets slotsKept_mild
  · intro portIdx _ hphase
    apply processNotConnected_meets slotsKept_mild hphase
    · exact fun _ _ => hsame rfl h.filed h.ledger
    · exact fun _ _ _ => (hreset portIdx).enableSlot portIdx
    · exact fun _ _ => h.enableSlot portIdx
  · intro portIdx _
    apply processResettingPort_meets slotsKept_mild
    · exact fun _ _ => hsame rfl h.filed h.ledger
    · exact fun _ _ => (htake portIdx).enableSlot portIdx
  · intro portIdx _
    apply processWaitingAddressed_meets slotsKept_mild
    · exact fun _ => (h.putAside_status event).kept
    · exact fun _ _ _ => (hreset portIdx).enableSlot portIdx
    · exact fun _ _ => (htake portIdx).enableSlot portIdx
  · exact h.kept
  · exact fun portIdx hport hindex _ _ _ _ => resetConnectionAt_slotsKept h hport hindex

/-- An event has been taken off its queue. -/
theorem Ledger.popped (h : Ledger s.books [] none none) (hevent : entry.event s = some event) :
    Ledger (entry.popped s).books (completions [event]) none none := by
  cases entry with
  | processOnceReceived =>
      obtain ⟨events, hpopped⟩ := List.getLast?_eq_some_iff.mp hevent
      have hperm : (completions [event] ++
          (completions s.events ++ completions s.popped.dropLast)).Perm
          (completions s.events ++ completions s.popped) := by
        rw [hpopped, List.dropLast_concat, completions_append,
          ← List.append_assoc (completions s.events)]
        exact List.perm_append_comm
      exact h.perm hperm
  | processEvent =>
      obtain ⟨events, hevents⟩ := List.head?_eq_some_iff.mp hevent
      have hperm : (completions [event] ++ (completions s.events.tail ++ completions s.popped)).Perm
          (completions s.events ++ completions s.popped) := by
        rw [hevents, List.tail_cons, completions_cons event events, List.append_assoc]
      exact h.perm hperm
  | processUserEvent => cases hevent
  | configurePortAt portIdx => cases hevent

theorem Entry.popped_sameSlots (entry : Entry) (s : Controller) : SameSlots s (entry.popped s) := by
  cases entry <;> exact ⟨rfl, rfl, rfl, rfl⟩

/-- The event is at hand, and everything else is in order. -/
theorem InOrder.popped (h : InOrder s []) (hevent : entry.event s = some event)
    (hother : ∀ completion, event ≠ .commandCompletion completion) :
    InOrder (entry.popped s) [] := by
  have hsame := entry.popped_sameSlots s
  have hledger := h.ledger.popped hevent
  rw [completions_cons_other hother, completions_nil] at hledger
  exact ⟨hsame.held.trans h.held, hsame.filed h.filed, hledger⟩

theorem processEventRingEvent_slotsKept (h : InOrder s []) (hevent : entry.event s = some event) :
    (processEventRingEvent event (entry.popped s)).Meets slotsKept fun _ t => Kept t := by
  cases event with
  | commandCompletion completion =>
      have hsame := entry.popped_sameSlots s
      exact processCommandCompletionEvent_slotsKept (hsame.held.trans h.held) (hsame.filed h.filed)
        (h.ledger.popped hevent)
  | transferEvent event =>
      exact processTransferEvent_meets slotsKept_mild (h.popped hevent (by simp)).kept
  | portStatusChange event =>
      exact processPortStatusChangeEvent_slotsKept (h.popped hevent (by simp))
  | hostController => exact (h.popped hevent (by simp)).kept
  | bandwidthRequest => exact slotsKept_mild _ (Fault.ordinary_message _ (by decide))
  | doorbell => exact slotsKept_mild _ (Fault.ordinary_message _ (by decide))
  | deviceNotification => exact slotsKept_mild _ (Fault.ordinary_message _ (by decide))
  | mfindexWrap => exact slotsKept_mild _ (Fault.ordinary_message _ (by decide))

theorem Entry.run_slotsKept (h : InOrder s []) :
    (entry.run s).Meets slotsKept fun _ t => Kept t := by
  apply Entry.run_meets slotsKept_mild h.kept
  · exact fun event hevent => processEventRingEvent_slotsKept h hevent
  · intro event events _ _
    exact processInitPortDeviceEvent_slotsKept ⟨h.held, h.filed, h.ledger⟩
  · exact fun portIdx _ _ => resetPortAt_slotsKept h

/-- The call is for a root port that has been disconnected after its enumeration began. -/
structure Disconnects (s : Controller) (entry : Entry) (portIdx : Nat) : Prop where
  event : entry.event s = some (.portStatusChange ⟨portIdx + 1⟩)
  number : portIdx < s.numberOfPorts
  index : portIdx < 256
  status : (s.portsc portIdx).currentConnectStatus = false
  phase : PortConfigPhase.Past (s.portConfigPhase portIdx)

theorem processPortStatusChangeEvent_of_disconnected (hheld : s.held = [])
    (hport : portIdx < s.numberOfPorts) (hindex : portIdx < 256)
    (hstatus : (s.portsc portIdx).currentConnectStatus = false)
    (hphase : PortConfigPhase.Past (s.portConfigPhase portIdx)) :
    processPortStatusChangeEvent ⟨portIdx + 1⟩ s = resetConnectionAt portIdx s := by
  have hread : isPortConnectedAt portIdx s = .done false s := by
    rw [isPortConnectedAt, readPort_eq PortSc.currentConnectStatus (by simp [hheld]) hport, hstatus]
  have hlook : withLock .portConfigureState (portPhaseAt portIdx) s =
      .done (s.portConfigPhase portIdx) s :=
    readPhase_eq (by simp [hheld]) hindex
  rw [processPortStatusChangeEvent, bind_apply, ensure_of _ (Nat.succ_pos portIdx), bind_done]
  simp only [Nat.add_sub_cancel, bind_apply, hread, hlook, bind_done]
  cases hcase : s.portConfigPhase portIdx with
  | notConnected => simp [hcase, PortConfigPhase.Past] at hphase
  | waitingAddressed => simp [hcase, PortConfigPhase.Past] at hphase
  | resettingPort => simp [hcase, PortConfigPhase.Past] at hphase
  | _ => rfl

/-- A call that disconnects a port is `reset_connection_at` for it. -/
theorem Entry.run_of_disconnects (hheld : s.held = []) (h : Disconnects s entry portIdx) :
    entry.run s = resetConnectionAt portIdx (entry.popped s) := by
  rw [Entry.run_of_event hheld h.event, processEventRingEvent]
  cases entry with
  | processOnceReceived | processEvent =>
      exact processPortStatusChangeEvent_of_disconnected hheld h.number h.index h.status h.phase
  | processUserEvent | configurePortAt portIdx => cases h.event

theorem Entry.run_disconnecting (h : InOrder s []) (hd : Disconnects s entry portIdx) :
    (entry.run s).Meets (disconnecting (s.slotsAt portIdx))
      fun _ t => Disconnected portIdx s t := by
  have hpopped := h.popped hd.event (by simp)
  rw [Entry.run_of_disconnects h.held hd]
  cases entry with
  | processOnceReceived | processEvent =>
      apply (resetConnectionAt_disconnecting hpopped hd.number hd.index).mono
      exact fun _ _ ht => ⟨ht.1.device, ht.1.slots⟩
  | processUserEvent | configurePortAt portIdx => cases hd.event

end Calls

/-- A new controller, and devices that ask for what `start_initialization` asks for. -/
def FreshPlanned (s : Controller) : Prop :=
  Fresh s ∧ ∀ slotId, Plan (s.initialization slotId)

theorem FreshPlanned.kept (h : FreshPlanned s) : Kept s := by
  obtain ⟨⟨_, _, _, _, _, rfl⟩, hplans⟩ := h
  refine ⟨rfl, ⟨fun _ => List.nodup_nil, ?_⟩, fun hnodup => ⟨hnodup, ?_, .nil, ?_, ?_, ?_, hplans⟩⟩
  · intro portIdx slotId
    refine iff_of_false List.not_mem_nil ?_
    rintro ⟨_, hsome, _⟩
    cases hsome
  · exact fun completion hmem => absurd hmem List.not_mem_nil
  · exact fun entry hmem => absurd hmem List.not_mem_nil
  · exact fun completion hmem => absurd hmem List.not_mem_nil
  · exact fun slotId hdevice => absurd rfl hdevice

/-- A slot has a device if and only if it is on file, then once, for one root port, and that
is the port through which the device was addressed. -/
structure Bookkept (s : Controller) : Prop where
  allocated_iff : ∀ slotId, s.device slotId ≠ none ↔ ∃ portIdx, slotId ∈ s.slotsAt portIdx
  once : ∀ slotId portIdx, slotId ∈ s.slotsAt portIdx →
    (s.slotsAt portIdx).count slotId = 1 ∧ ∀ other, slotId ∈ s.slotsAt other → other = portIdx
  through : ∀ slotId portIdx, slotId ∈ s.slotsAt portIdx →
    ∃ d, s.device slotId = some d ∧ d.portIndex = portIdx

theorem Filed.bookkept (h : Filed s.device s.slotsAt) : Bookkept s := by
  refine ⟨?_, ?_, fun slotId portIdx => (h.mem_iff portIdx slotId).mp⟩
  · intro slotId
    simp only [h.mem_iff, Option.ne_none_iff_exists']
    exact ⟨fun ⟨d, hd⟩ => ⟨d.portIndex, d, hd, rfl⟩, fun ⟨_, d, hd, _⟩ => ⟨d, hd⟩⟩
  · intro slotId portIdx hmem
    refine ⟨List.count_eq_one_of_mem (h.nodup portIdx) hmem, ?_⟩
    intro other hother
    obtain ⟨d, hd, rfl⟩ := (h.mem_iff portIdx slotId).mp hmem
    obtain ⟨d', hd', rfl⟩ := (h.mem_iff other slotId).mp hother
    rw [hd, Option.some.injEq] at hd'
    rw [hd']

/-- The bookkeeping in a state of a run whose moves `ok` admits: the files between handlers,
a disconnection from its start to its end, and no panic about slots. -/
structure SlotsInStep (ok : Scheduled Controller Future Event Fault → Scheduler.Label Entry → Prop)
    (x : Scheduled Controller Future Event Fault) : Prop where
  files : x.task = .idle → Bookkept x.state
  disconnection : x.task = .idle → ∀ entry portIdx y, Disconnects x.state entry portIdx →
    (pollForever SlotHardware).Handling ok entry x.state y →
      (y.task = .idle ∧ Disconnected portIdx x.state y.state) ∨
      ∃ i k slotId, y.task = .waiting (.command i) k ∧ slotId ∈ x.state.slotsAt portIdx ∧
        y.state.commandAt i = some (.disableSlot slotId)
  panics : ∀ e, x.task = .failed e → ¬ e.SlotError

/-- In every run in which no command is written over one that is in flight, the slots are in
step. -/
theorem slots_in_step {x : Scheduled Controller Future Event Fault}
    (hx : (((pollForever SlotHardware).system FreshPlanned).guard EntriesDistinct).Reachable x) :
    SlotsInStep EntriesDistinct x := by
  have hok := Scheduler.reachable_ok_when
    (pollForever_respects_bookkeeping (fun _ _ => True) fun e => ¬ e.SlotError)
    (fun _ _ h hmove => h.hardware hmove) (fun _ h => h.kept)
    (fun _ _ h hnodup => Entry.run_slotsKept (h.inOrder hnodup)) hx
  obtain ⟨s, task⟩ := x
  refine ⟨?_, ?_, ?_⟩
  · rintro rfl
    exact hok.filed.bookkept
  · rintro rfl entry portIdx y hd hy
    have hinOrder : InOrder s [] := hok.inOrder hy.admissible
    have hreturns := hy.returns (pollForever_respects_bookkeeping _ _)
      (Entry.run_disconnecting hinOrder hd)
    obtain ⟨t, task⟩ := y
    cases task with
    | idle => exact .inl ⟨rfl, hreturns⟩
    | failed e => exact hreturns.elim
    | waiting q k =>
        obtain ⟨⟨i, slotId, rfl, hmem, hcmd⟩, _⟩ := hreturns.1
        exact .inr ⟨i, k, slotId, rfl, hmem, hcmd⟩
  · rintro e rfl
    exact hok

/-- The moves of a run. -/
inductive Move where
  | start (entry : Entry)
  | poll
  | answer (completion : CommandCompletion)
  | port (portIdx : Nat) (portsc : PortSc)
  | status (portIdx : Nat)

namespace Move

def play (x : Scheduled Controller Future Event Fault) :
    Move → Scheduled Controller Future Event Fault
  | .start entry => (pollForever SlotHardware).started entry x
  | .poll => (pollForever SlotHardware).polled x
  | .answer completion => ⟨x.state.answered completion, x.task⟩
  | .port portIdx portsc => ⟨x.state.setPort portIdx portsc, x.task⟩
  | .status portIdx =>
      ⟨x.state.setEvents (x.state.events ++ [.portStatusChange ⟨portIdx + 1⟩]), x.task⟩

/-- Commands are answered in their order, and as the controller answers them. -/
def Legal (s : Controller) : Move → Prop
  | .answer completion => s.outstanding.head? = some completion.commandTrbPointer ∧
      (s.books.Grants completion → 1 ≤ completion.slotId ∧ completion.slotId ≤ s.maxSlots ∧
        ¬ s.books.Enabled completion.slotId) ∧
      (completionCode completion.completionCode).isSome
  | _ => True

instance (s : Controller) : DecidablePred (Legal s)
  | .answer _ => inferInstanceAs (Decidable (_ ∧ _ ∧ _))
  | .start _ | .poll | .port _ _ | .status _ => isTrue trivial

/-- Play moves as long as they are legal and the state is admissible. -/
def playAll (ok : Controller → Prop) [DecidablePred ok] :
    List Move → Scheduled Controller Future Event Fault →
      Option (Scheduled Controller Future Event Fault)
  | [], x => some x
  | m :: moves, x => if ok x.state ∧ m.Legal x.state then playAll ok moves (m.play x) else none

variable {ok : Controller → Prop} {x y : Scheduled Controller Future Event Fault}

theorem reachable_play {m : Move}
    (hx : (((pollForever SlotHardware).system FreshPlanned).guard
      fun x _ => ok x.state).Reachable x)
    (hok : ok x.state) (h : m.Legal x.state) :
    (((pollForever SlotHardware).system FreshPlanned).guard fun x _ => ok x.state).Reachable
      (m.play x) := by
  cases m with
  | start entry => exact Scheduler.guard_reachable_started hx hok
  | poll => exact Scheduler.guard_reachable_polled hx hok
  | answer completion =>
      obtain ⟨hfirst, hgrants, hdecodable⟩ := h
      have houtstanding := List.mem_of_mem_head? hfirst
      exact Scheduler.guard_reachable_env hx hok
        (.complete completion houtstanding hgrants fun _ _ => hdecodable)
  | port portIdx portsc => exact Scheduler.guard_reachable_env hx hok (.ports _)
  | status portIdx => exact Scheduler.guard_reachable_env hx hok (.post _ (by simp))

theorem reachable_playAll [DecidablePred ok] {moves : List Move}
    (hx : (((pollForever SlotHardware).system FreshPlanned).guard
      fun x _ => ok x.state).Reachable x)
    (h : playAll ok moves x = some y) :
    (((pollForever SlotHardware).system FreshPlanned).guard fun x _ => ok x.state).Reachable y := by
  induction moves generalizing x with
  | nil => exact Option.some.inj h ▸ hx
  | cons m moves ih =>
      rw [playAll] at h
      split at h
      next hlegal => exact ih (reachable_play hx hlegal.1 hlegal.2) h
      next => cases h

end Move

/-- The initialisation of a hub with eight devices behind it. -/
def hubOfEight : List HostOp :=
  .addDevice .hub 1 :: (List.range 8).map fun i => .assignAddress ⟨0, i + 1, 0, none, none⟩

/-- Four root ports and ten slots. What gets the first slot is a hub. -/
def tenSlots : Controller :=
  new 4 10 (fun _ => .empty) (.new 8 8 8) fun slotId => if slotId = 1 then hubOfEight else []

theorem tenSlots_freshPlanned : FreshPlanned tenSlots := by
  refine ⟨⟨_, _, _, _, _, rfl⟩, ?_⟩
  intro slotId cmd hmem
  by_cases hslot : slotId = 1
  · simp [tenSlots, hslot, hubOfEight] at hmem
  · simp [tenSlots, hslot] at hmem

theorem reachable_tenSlots {ok : Controller → Prop} :
    (((pollForever SlotHardware).system FreshPlanned).guard fun x _ => ok x.state).Reachable
      ⟨tenSlots, .idle⟩ :=
  .init ⟨tenSlots_freshPlanned, rfl⟩

def plug (portIdx : Nat) : List Move := [.port portIdx plugged, .status portIdx]

def unplug (portIdx : Nat) : List Move :=
  [.port portIdx { PortSc.empty with connectStatusChange := true }, .status portIdx]

/-- The `n`-th command succeeds. -/
def succeed (n slotId : Nat) : Move := .answer ⟨n % 31, slotId, success⟩

/-- The hub is enumerated at the first port, and the first of its devices. -/
def attachHub : List Move :=
  List.flatten [plug 0, [.start .processEvent, succeed 0 1, .start .processEvent, succeed 1 1,
    .start .processEvent, .start .processUserEvent, succeed 2 2, .poll, succeed 3 2, .poll]]

/-- The hub and its device are filed under the first port. -/
theorem slots_in_step_hub :
    ∃ x, Move.playAll (fun s => s.inFlight.Nodup) attachHub ⟨tenSlots, .idle⟩ = some x ∧
      x.state.slotsAt 0 = [1, 2] ∧ SlotsInStep EntriesDistinct x := by
  have hrun : (Move.playAll (fun s => s.inFlight.Nodup) attachHub ⟨tenSlots, .idle⟩).map
      (·.state.slotsAt 0) = some [1, 2] := by
    decide +kernel
  obtain ⟨x, hx, hslots⟩ := Option.map_eq_some_iff.mp hrun
  exact ⟨x, hx, hslots, slots_in_step (Move.reachable_playAll reachable_tenSlots hx)⟩

/-- The first call of a round of `poll_forever`. -/
def once : Move := .start .processOnceReceived

/-- A round for the next device behind the hub. -/
def childRound (n slotId : Nat) : List Move :=
  [once, .start .processUserEvent, succeed n slotId, .poll, succeed (n + 1) slotId, .poll]

/-- Three rounds for a device at a root port. -/
def attachRounds (portIdx n slotId : Nat) : List Move :=
  List.flatten [[once], plug portIdx, [.start .processEvent, once, succeed n slotId,
    .start .processEvent, once, succeed (n + 1) slotId, .start .processEvent]]

/-- A round for a root port that is disconnected. -/
def detachRound (portIdx n : Nat) (slotIds : List Nat) : List Move :=
  List.flatten [[once], unplug portIdx, [.start .processEvent],
    slotIds.zipIdx.flatMap fun slot => [succeed (n + slot.2) slot.1, .poll]]

/-- The rounds of the run; calls that find nothing to do are left out. -/
def overrun : List Move :=
  List.flatten [
    -- the hub; while the first device behind it is taken up, the second root port is plugged
    plug 0, [.start .processEvent, succeed 0 1, .start .processEvent, succeed 1 1,
      .start .processEvent, .start .processUserEvent],
    plug 1, [.poll, succeed 2 2, .poll, succeed 3 2, .poll],
    -- the second root port asks for its slot and, with command 5, for its address
    [once, succeed 4 3, .start .processEvent],
    -- the answer is put aside for the next device behind the hub, and 18 events after it
    [.start .processUserEvent, succeed 5 3, .poll],
    (List.range 18).flatMap fun _ => [.status 1, .poll],
    [succeed 6 4, .poll, succeed 7 4, .poll],
    -- the other devices behind the hub, and then all of them are gone
    (List.range 6).flatMap fun i => childRound (8 + 2 * i) (5 + i),
    detachRound 0 20 [1, 2, 4, 5, 6, 7, 8, 9, 10],
    attachRounds 2 29 5, attachRounds 3 31 6, attachRounds 0 33 7, detachRound 0 35 [7],
    -- command 36 is an `EnableSlot` and takes the entry of command 5, whose answer is next
    [once], plug 0, [.start .processEvent, once]]

/-- A completion that was put aside is taken for the answer to a younger command in the same
entry of the command ring, and a slot is allocated twice. -/
theorem overrun_not_in_step :
    ¬ ∀ x, ((pollForever SlotHardware).system FreshPlanned).Reachable x →
      SlotsInStep (fun _ _ => True) x := by
  intro h
  have hrun : (Move.playAll (fun _ => True) overrun ⟨tenSlots, .idle⟩).bind (·.failure) =
      some (.panic (.message s!"device context at {(3 : Nat)} is already allocated")) := by
    decide +kernel
  obtain ⟨x, hx, hfailure⟩ := Option.bind_eq_some_iff.mp hrun
  have hreachable := (Move.reachable_playAll reachable_tenSlots hx).of_guard
  exact (h x hreachable).panics _ (Scheduled.task_of_failure hfailure) (.inr (.inl ⟨3, rfl⟩))

end LemolaOs.Xhci.Controller
