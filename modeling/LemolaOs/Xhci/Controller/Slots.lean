import LemolaOs.Xhci.Controller.SlotLedger

/-!
# Slots are filed under their root port

`address_device_at` files a slot under the root port through which its device is
addressed, and gives it a device; `reset_connection_at` disables the slots of a root
port one after another, frees them and strikes the port off. Between handlers the
slots with a device are therefore the slots on file.

The driver trusts the controller not to hand out a slot that is enabled, and it finds
out from the command ring what a completion answers. The ring has 31 entries. As long
as no command is written over one that is in flight, the ledger of the slots is kept
and neither `allocate_device` nor `deallocate_device` panics. If a completion stays put
aside while the ring comes round, it is taken for the answer to a younger command.
-/

namespace LemolaOs.Xhci.Controller

open Code Resumption

def books (s : Controller) : Books where
  outstanding := s.outstanding
  unprocessed := completions s.events ++ completions s.popped
  commandAt := s.commandAt
  device := s.device
  maxSlots := s.maxSlots
  initialization := s.initialization

/-- The entries of the command ring with a command that has not been answered, or whose
completion has not been processed. -/
def inFlight (s : Controller) : List Nat := s.books.inFlight []

/-- The slots on file for a root port. -/
def slotsAt (s : Controller) (portIdx : Nat) : List Nat := (s.portSlotIdMap portIdx).getD []

/-- The moves of the hardware and of the rest of the kernel. The controller hands out slots
from 1 to `max_slots` that are not enabled, and answers `DisableSlot` with a completion code
that exists. -/
inductive SlotHardware : Controller → Controller → Prop where
  | complete {s : Controller} (completion : CommandCompletion)
      (houtstanding : completion.commandTrbPointer ∈ s.outstanding)
      (hgrants : s.books.Grants completion → 1 ≤ completion.slotId ∧
        completion.slotId ≤ s.maxSlots ∧ ¬ s.books.Enabled completion.slotId)
      (hdecodable : ∀ slotId,
        s.commandAt completion.commandTrbPointer = some (.disableSlot slotId) →
          (completionCode completion.completionCode).isSome) :
      SlotHardware s (s.answered completion)
  /-- Any other event. -/
  | post {s : Controller} (event : Event)
      (h : ∀ completion, event ≠ .commandCompletion completion) :
      SlotHardware s (s.setEvents (s.events ++ [event]))
  | ports {s : Controller} (portsc : Nat → PortSc) : SlotHardware s { s with portsc := portsc }
  /-- The memory of the transfer rings, the announcements of the hub driver and the plans of
  the devices. -/
  | devices {s : Controller} (transferAt : Nat → Option TransferTrb)
      (userEvents : List InitPortDevice) (initialization : Nat → List HostOp)
      (hplans : ∀ slotId, Plan (initialization slotId)) :
      SlotHardware s { s with
        transferAt := transferAt
        userEvents := userEvents
        initialization := initialization }

/-- A slot has a device if and only if it is on file, once, for the root port through which
the device was addressed. -/
structure Filed (device : Nat → Option Device) (slots : Nat → List Nat) : Prop where
  nodup : ∀ portIdx, (slots portIdx).Nodup
  mem_iff : ∀ portIdx slotId, slotId ∈ slots portIdx ↔
    ∃ d, device slotId = some d ∧ d.portIndex = portIdx

/-- A root port has been disconnected: its slots have been freed, and no others. -/
structure Disconnected (portIdx : Nat) (s t : Controller) : Prop where
  device : ∀ slotId, t.device slotId = if slotId ∈ s.slotsAt portIdx then none else s.device slotId
  slots : ∀ other, t.slotsAt other = if other = portIdx then [] else s.slotsAt other

/-- Only the task itself changes its locks, the devices, their files and the command ring. -/
structure SameSlots (s t : Controller) : Prop where
  held : t.held = s.held
  device : t.device = s.device
  slots : t.portSlotIdMap = s.portSlotIdMap
  commandAt : t.commandAt = s.commandAt

/-- The entry of the command ring for which a future waits. -/
def entryOf : Future → Option Nat
  | .command entry => some entry
  | .transfer _ => none

/-- The slot that is disabled by the command for which a future waits. -/
def disabling (commandAt : Nat → Option Command) : Future → Option Nat
  | .command entry =>
      match commandAt entry with
      | some (.disableSlot slotId) => some slotId
      | _ => none
  | .transfer _ => none

/-- The protocol of the handlers, for what they may wait for and how they may fail. A handler
that waits has kept the ledger, if its last command is in an entry of its own; it is resumed
with the ledger, and with the completion at hand. -/
def bookkeeping (awaiting : Future → (Nat → Option Command) → Prop) (failing : Fault → Prop) :
    Protocol Controller Future Event Fault where
  waiting future s := awaiting future s.commandAt ∧
    (s.inFlight.Nodup → Ledger s.books [] (entryOf future) (disabling s.commandAt future))
  resumed future s event t := SameSlots s t ∧ future.waitsFor event = true ∧
    Ledger t.books (completions [event]) (entryOf future) (disabling s.commandAt future)
  failing := failing

/-- Handlers of the run fail neither in `allocate_device` nor in `deallocate_device`. -/
abbrev slotsKept : Protocol Controller Future Event Fault :=
  bookkeeping (fun _ _ => True) fun e => ¬ e.SlotError

theorem slotsKept_mild : Mild slotsKept := fun _ he => he.2

/-- What a handler starts from, without locks, and what it keeps up. -/
structure InOrder (s : Controller) (held : List Mutex) : Prop where
  held : s.held = held
  filed : Filed s.device s.slotsAt
  ledger : Ledger s.books [] none none

/-- What a handler leaves. There may be one command too many. -/
structure Kept (s : Controller) : Prop where
  held : s.held = []
  filed : Filed s.device s.slotsAt
  ledger : s.inFlight.Nodup → Ledger s.books [] none none

variable {s t u : Controller} {portIdx slotId : Nat}

theorem InOrder.kept (h : InOrder s []) : Kept s := ⟨h.held, h.filed, fun _ => h.ledger⟩

theorem Kept.inOrder (h : Kept s) (hnodup : s.inFlight.Nodup) : InOrder s [] :=
  ⟨h.held, h.filed, h.ledger hnodup⟩

theorem SameSlots.trans (h : SameSlots s t) (h' : SameSlots t u) : SameSlots s u :=
  ⟨h'.held.trans h.held, h'.device.trans h.device, h'.slots.trans h.slots,
    h'.commandAt.trans h.commandAt⟩

theorem SameSlots.slotsAt (h : SameSlots s t) : t.slotsAt = s.slotsAt := by
  funext portIdx
  rw [Controller.slotsAt, h.slots]
  rfl

theorem SameSlots.filed (h : SameSlots s t) (hfiled : Filed s.device s.slotsAt) :
    Filed t.device t.slotsAt := by
  rwa [h.device, h.slotsAt]

section Environment

theorem SlotHardware.sameSlots (h : SlotHardware s t) : SameSlots s t := by
  cases h <;> exact ⟨rfl, rfl, rfl, rfl⟩

/-- The unprocessed completions after an answer. -/
theorem answered_unprocessed (s : Controller) (completion : CommandCompletion) :
    (s.answered completion).books.unprocessed.Perm (completion :: s.books.unprocessed) := by
  have hevents : completions (s.answered completion).events =
      completions s.events ++ [completion] := completions_append _ _
  change (completions (s.answered completion).events ++ completions s.popped).Perm _
  rw [hevents, List.append_assoc, List.singleton_append]
  exact List.perm_middle

/-- An event that is no completion. -/
theorem posted_unprocessed {event : Event}
    (h : ∀ completion, event ≠ .commandCompletion completion) :
    (s.setEvents (s.events ++ [event])).books = s.books := by
  simp only [books, setEvents_events, completions_concat_other h]
  rfl

/-- The hardware does not change which commands are in flight. -/
theorem SlotHardware.inFlight (h : SlotHardware s t) : t.inFlight.Perm s.inFlight := by
  cases h with
  | complete completion houtstanding _ _ =>
      have hplaces : (s.answered completion).inFlight.Perm
          ((s.books.answer completion).inFlight []) :=
        ((answered_unprocessed s completion).map _).append_left _
      exact hplaces.trans (Ledger.inFlight_answer houtstanding)
  | post event hevent =>
      rw [Controller.inFlight, posted_unprocessed hevent]
      rfl
  | ports _ => exact .refl _
  | devices _ _ _ _ => exact .refl _

theorem Ledger.hardware {awaited away : Option Nat} (h : Ledger s.books [] awaited away)
    (hmove : SlotHardware s t) : Ledger t.books [] awaited away := by
  cases hmove with
  | complete completion houtstanding hgrants hdecodable =>
      have hanswer := h.answer houtstanding (fun hg => (hgrants hg).2) hdecodable
      exact hanswer.perm (answered_unprocessed s completion)
  | post event hevent =>
      rw [posted_unprocessed hevent]
      exact h
  | ports _ => exact h
  | devices _ _ _ hplans =>
      exact ⟨h.nodup, h.grants, h.distinct, h.disables, h.decodable, h.range, hplans⟩

theorem Kept.hardware (h : Kept s) (hmove : SlotHardware s t) : Kept t where
  held := hmove.sameSlots.held.trans h.held
  filed := hmove.sameSlots.filed h.filed
  ledger hnodup := (h.ledger (hmove.inFlight.nodup_iff.mp hnodup)).hardware hmove

/-- A poll without an answer moves an event at most. -/
theorem pollFuture_none_books {future : Future} (hpoll : pollFuture future s = (none, t)) :
    SameSlots s t ∧ t.books = s.books.setUnprocessed t.books.unprocessed ∧
      t.books.unprocessed.Perm s.books.unprocessed := by
  obtain ⟨_, rfl⟩ | ⟨event, events, hevents, _, rfl⟩ := pollFuture_none hpoll
  · exact ⟨⟨rfl, rfl, rfl, rfl⟩, rfl, .refl _⟩
  refine ⟨⟨rfl, rfl, rfl, rfl⟩, rfl, ?_⟩
  change (completions events ++ completions (s.popped ++ [event])).Perm
    (completions s.events ++ completions s.popped)
  rw [hevents, completions_cons, completions_append, List.append_assoc,
    ← List.append_assoc (completions events)]
  exact List.perm_append_comm

theorem pollFuture_none_inFlight {future : Future} (hpoll : pollFuture future s = (none, t)) :
    t.inFlight.Perm s.inFlight := by
  obtain ⟨_, hbooks, hperm⟩ := pollFuture_none_books hpoll
  rw [Controller.inFlight, hbooks]
  exact (hperm.map _).append_left _

theorem Ledger.pollFuture_none {future : Future} {awaited away : Option Nat}
    (h : Ledger s.books [] awaited away) (hpoll : pollFuture future s = (none, t)) :
    Ledger t.books [] awaited away := by
  obtain ⟨_, hbooks, hperm⟩ := pollFuture_none_books hpoll
  rw [hbooks]
  exact h.perm hperm

/-- A poll with an answer takes it off the ring. -/
theorem Ledger.pollFuture_some {future : Future} {event : Event} {awaited away : Option Nat}
    (h : Ledger s.books [] awaited away) (hpoll : pollFuture future s = (some event, t)) :
    Ledger t.books (completions [event]) awaited away := by
  obtain ⟨_, events, hevents, rfl⟩ := Controller.pollFuture_some hpoll
  have hperm : (completions [event] ++ (completions events ++ completions s.popped)).Perm
      (completions s.events ++ completions s.popped) := by
    rw [hevents, completions_cons event events, List.append_assoc]
  exact h.perm hperm

end Environment

/-- No command is written over one that is in flight. -/
def EntriesDistinct (x : Scheduled Controller Future Event Fault) (_ : Scheduler.Label Entry) :
    Prop :=
  x.state.inFlight.Nodup

theorem pollForever_respects_bookkeeping (awaiting : Future → (Nat → Option Command) → Prop)
    (failing : Fault → Prop) :
    (pollForever SlotHardware).RespectsWhen (bookkeeping awaiting failing) EntriesDistinct where
  env_waiting hwaiting hmove := by
    refine ⟨hmove.sameSlots.commandAt ▸ hwaiting.1, ?_⟩
    intro hnodup
    rw [hmove.sameSlots.commandAt]
    exact (hwaiting.2 (hmove.inFlight.nodup_iff.mp hnodup)).hardware hmove
  env_resumed _ hmove hresumed := by
    obtain ⟨hsame, hmine, hledger⟩ := hresumed
    rw [hmove.sameSlots.commandAt] at hledger
    exact ⟨hmove.sameSlots.trans hsame, hmine, hledger⟩
  poll_waiting hwaiting hpoll := by
    obtain ⟨hsame, _, _⟩ := pollFuture_none_books hpoll
    refine ⟨hsame.commandAt ▸ hwaiting.1, ?_⟩
    intro hnodup
    rw [hsame.commandAt]
    have hbefore := (pollFuture_none_inFlight hpoll).nodup_iff.mp hnodup
    exact (hwaiting.2 hbefore).pollFuture_none hpoll
  poll_resumed _ hpoll hresumed := by
    obtain ⟨hsame, _, _⟩ := pollFuture_none_books hpoll
    obtain ⟨hsame', hmine, hledger⟩ := hresumed
    rw [hsame.commandAt] at hledger
    exact ⟨hsame.trans hsame', hmine, hledger⟩
  poll_ready hnodup hwaiting hpoll := by
    obtain ⟨hmine, events, _, rfl⟩ := pollFuture_some hpoll
    exact ⟨⟨rfl, rfl, rfl, rfl⟩, hmine, (hwaiting.2 hnodup).pollFuture_some hpoll⟩

section Files

theorem setSlots_slotsAt (s : Controller) (portIdx : Nat) (slotIds : Option (List Nat)) :
    (s.setSlots portIdx slotIds).slotsAt = Function.update s.slotsAt portIdx (slotIds.getD []) := by
  funext other
  by_cases heq : other = portIdx
  · subst heq
    simp [slotsAt]
  · simp [slotsAt, Function.update_of_ne heq]

/-- A slot without a device gets one and is filed. -/
theorem Filed.allocate {device : Nat → Option Device} {slots : Nat → List Nat} {d : Device}
    (h : Filed device slots) (hnone : device slotId = none) :
    Filed (Function.update device slotId (some d))
      (Function.update slots d.portIndex (slots d.portIndex ++ [slotId])) := by
  have hfresh (portIdx : Nat) : slotId ∉ slots portIdx := by
    rw [h.mem_iff, hnone]
    rintro ⟨_, hsome, _⟩
    cases hsome
  constructor
  · intro portIdx
    by_cases heq : portIdx = d.portIndex
    · rw [heq, Function.update_self]
      rw [← List.concat_eq_append]
      exact List.Nodup.concat (hfresh _) (h.nodup _)
    · rw [Function.update_of_ne heq]
      exact h.nodup portIdx
  · intro portIdx other
    by_cases hslot : other = slotId
    · subst hslot
      by_cases heq : portIdx = d.portIndex
      · simp [heq]
      · simp [Function.update_of_ne heq, hfresh, Ne.symm heq]
    · rw [Function.update_of_ne hslot, ← h.mem_iff]
      by_cases heq : portIdx = d.portIndex
      · simp [heq, hslot]
      · rw [Function.update_of_ne heq]

/-- A root port is struck off with its devices. -/
theorem Filed.disconnect (h : Filed s.device s.slotsAt) (hd : Disconnected portIdx s t) :
    Filed t.device t.slotsAt := by
  constructor
  · intro other
    rw [hd.slots]
    split
    · exact List.nodup_nil
    · exact h.nodup other
  · intro other slotId
    rw [hd.slots, hd.device]
    by_cases heq : other = portIdx
    · subst heq
      have hmine := h.mem_iff other slotId
      by_cases hmem : slotId ∈ s.slotsAt other
      · simp [hmem]
      · simpa [hmem] using hmine
    · by_cases hmem : slotId ∈ s.slotsAt portIdx
      · obtain ⟨d, hsome, hport⟩ := (h.mem_iff portIdx slotId).mp hmem
        have hother : slotId ∉ s.slotsAt other := by
          rw [h.mem_iff, hsome]
          rintro ⟨d', hd', rfl⟩
          exact heq (Option.some.inj hd' ▸ hport)
        simp [heq, hmem, hother]
      · simp [heq, hmem, h.mem_iff]

end Files

section Commands

variable {held : List Mutex} {cmd : Command} {completion : CommandCompletion}

theorem disabling_issue (hcmd : ∀ slotId, cmd ≠ .disableSlot slotId) :
    disabling (s.issue cmd).commandAt (.command s.commandIndex) = none := by
  cases cmd with
  | disableSlot slotId => exact absurd rfl (hcmd slotId)
  | _ => simp [disabling]

/-- A command other than `DisableSlot` is issued. -/
theorem InOrder.issue (h : InOrder s held) (hcmd : ∀ slotId, cmd ≠ .disableSlot slotId)
    (hnodup : (s.issue cmd).inFlight.Nodup) : InOrder (s.issue cmd) held :=
  ⟨h.held, h.filed, h.ledger.issue hnodup fun slotId heq => absurd heq (hcmd slotId)⟩

theorem InOrder.issue_kept (h : InOrder s []) (hcmd : ∀ slotId, cmd ≠ .disableSlot slotId) :
    Kept (s.issue cmd) :=
  ⟨h.held, h.filed, fun hnodup => (h.issue hcmd hnodup).ledger⟩

/-- A command that does not disable a slot may be awaited. -/
theorem InOrder.waiting (h : InOrder s held) (hcmd : ∀ slotId, cmd ≠ .disableSlot slotId) :
    slotsKept.waiting (.command s.commandIndex) (s.issue cmd) := by
  refine ⟨trivial, ?_⟩
  intro hnodup
  rw [disabling_issue hcmd]
  exact (h.issue hcmd hnodup).ledger.await _

/-- The handler that awaited a command goes on with its completion at hand. -/
theorem resumed_ledger (hcmd : ∀ slotId, cmd ≠ .disableSlot slotId)
    (hresumed : slotsKept.resumed (.command s.commandIndex) (s.issue cmd)
      (.commandCompletion completion) t) :
    completion.commandTrbPointer = s.commandIndex ∧ Ledger t.books [completion] none none := by
  obtain ⟨_, hmine, hledger⟩ := hresumed
  rw [disabling_issue hcmd] at hledger
  exact ⟨by simpa [Future.waitsFor] using hmine, hledger.await none⟩

theorem InOrder.resumed (h : InOrder s held) (hcmd : ∀ slotId, cmd ≠ .disableSlot slotId)
    (hresumed : slotsKept.resumed (.command s.commandIndex) (s.issue cmd)
      (.commandCompletion completion) t) : InOrder t held :=
  ⟨hresumed.1.held.trans h.held, hresumed.1.filed h.filed, (resumed_ledger hcmd hresumed).2.drop⟩

/-- A transfer event changes nothing. -/
theorem InOrder.transferred {waitOn : TransferEventWaitKind} {event : Event} (h : InOrder s held)
    (hresumed : slotsKept.resumed (.transfer waitOn) s event t) : InOrder t held := by
  obtain ⟨hsame, hmine, hledger⟩ := hresumed
  refine ⟨hsame.held.trans h.held, hsame.filed h.filed, ?_⟩
  cases event with
  | transferEvent event => exact hledger
  | _ => cases hmine

end Commands

section Handlers

/-- One step of an initialisation. -/
theorem hostOpOk_slotsKept {op : HostOp} {ops : List HostOp} {held : List Mutex}
    (h : InOrder s held) (hplan : Plan (op :: ops)) :
    HostOpOk slotsKept slotId s (fun t => InOrder t held ∧ Plan ops) op := by
  have hrest : Plan ops := fun cmd hmem => hplan cmd (List.mem_cons_of_mem _ hmem)
  cases op with
  | registers => exact ⟨h, hrest⟩
  | command cmd =>
      have hcmd : ∀ slotId, cmd ≠ .disableSlot slotId := by
        obtain ⟨_, rfl⟩ | ⟨_, rfl⟩ := hplan cmd List.mem_cons_self
        · simp
        · simp
      exact ⟨h.waiting hcmd, fun completion t hresumed => ⟨h.resumed hcmd hresumed, hrest⟩⟩
  | transfer waitOn =>
      refine ⟨⟨trivial, fun _ => h.ledger⟩, ?_⟩
      exact fun event t hresumed => ⟨h.transferred hresumed, hrest⟩
  | assignAddress device => exact ⟨⟨h.held, h.filed, h.ledger⟩, hrest⟩
  | addDevice kind address => exact fun _ => ⟨⟨h.held, h.filed, h.ledger⟩, hrest⟩
  | unwrapFailed => trivial

theorem initializeDeviceAt_slotsKept (h : InOrder s []) :
    (initializeDeviceAt portIdx slotId s).Meets slotsKept fun _ t => Kept t := by
  apply initializeDeviceAt_meets slotsKept_mild
    (I := fun ops t => InOrder t [.device slotId] ∧ Plan ops)
  · exact fun op ops t ht => hostOpOk_slotsKept ht.1 ht.2
  · intro _ _
    exact ⟨⟨by simp [h.held], h.filed, h.ledger⟩, h.ledger.plans slotId⟩
  · intro t ht
    exact ⟨by simp [ht.1.held], ht.1.filed, fun _ => ht.1.ledger⟩

theorem resetPortAt_slotsKept (h : InOrder s []) :
    (resetPortAt portIdx s).Meets slotsKept fun _ t => Kept t := by
  apply resetPortAt_meets slotsKept_mild
  · intro _ hslot
    exact hslot.not_phaseError (.inr rfl)
  · exact fun _ => h.kept
  · exact fun _ _ _ => ⟨h.held, h.filed, fun _ => h.ledger⟩
  · exact fun _ _ _ => ⟨h.held, h.filed, fun _ => h.ledger⟩

/-- A slot that was just handed out has no device. -/
theorem Ledger.slotFree {completion : CommandCompletion}
    (h : Ledger s.books [completion] none none) (hgrants : s.books.Grants completion) :
    s.SlotFree completion.slotId := by
  obtain ⟨hrange, hnone | haway⟩ := h.grants completion List.mem_cons_self hgrants
  · exact ⟨hrange, hnone⟩
  · cases haway

/-- `address_device_at` gives a slot that was handed out a device and files it. -/
theorem addressed_inOrder {completion : CommandCompletion} {routing speed : Nat}
    {parentHubSlotId parentPortIndex : Option Nat} {held : List Mutex} (hheld : s.held = held)
    (hfiled : Filed s.device s.slotsAt) (hledger : Ledger s.books [completion] none none)
    (hgrants : s.books.Grants completion) :
    InOrder (((s.setSlots portIdx (some ((s.portSlotIdMap portIdx).getD [] ++
      [completion.slotId]))).setDevice completion.slotId (some (s.addressed portIdx routing speed
        parentHubSlotId parentPortIndex))).setPhase portIdx .addressingDevice) held := by
  refine ⟨hheld, ?_, hledger.allocate hgrants⟩
  have hslots := setSlots_slotsAt s portIdx (some (s.slotsAt portIdx ++ [completion.slotId]))
  have hallocated := hfiled.allocate (hledger.slotFree hgrants).2
    (d := s.addressed portIdx routing speed parentHubSlotId parentPortIndex)
  exact hslots ▸ hallocated

theorem processEnableSlotCompletion_slotsKept {completion : CommandCompletion} (hheld : s.held = [])
    (hfiled : Filed s.device s.slotsAt) (hledger : Ledger s.books [completion] none none)
    (hgrants : s.books.Grants completion) :
    (processEnableSlotCompletion completion.slotId s).Meets slotsKept fun _ t => Kept t := by
  apply processEnableSlotCompletion_meets slotsKept_mild
  · intro _ hslot
    exact hslot.not_phaseError (.inl rfl)
  · exact fun _ _ htaken => absurd (hledger.slotFree hgrants) htaken
  · intro portIdx _ _ _ _
    exact (addressed_inOrder hheld hfiled hledger hgrants).issue_kept (by simp)

theorem processAddressDeviceCompletion_slotsKept (h : InOrder s []) :
    (processAddressDeviceCompletion slotId s).Meets slotsKept fun _ t => Kept t := by
  apply processAddressDeviceCompletion_meets slotsKept_mild
  · intro _ _ _ _ _ hslot
    exact hslot.not_phaseError (.inl rfl)
  · intro _ portIdx t _ _ _ _ ht
    obtain rfl | ⟨next, _, _, rfl⟩ := ht
    · exact initializeDeviceAt_slotsKept ⟨h.held, h.filed, h.ledger⟩
    · exact initializeDeviceAt_slotsKept ⟨h.held, h.filed, h.ledger⟩

theorem processCommandCompletionEvent_slotsKept {completion : CommandCompletion}
    (hheld : s.held = []) (hfiled : Filed s.device s.slotsAt)
    (hledger : Ledger s.books [completion] none none) :
    (processCommandCompletionEvent completion s).Meets slotsKept fun _ t => Kept t := by
  have hdone : InOrder s [] := ⟨hheld, hfiled, hledger.drop⟩
  apply processCommandCompletionEvent_meets slotsKept_mild
  · exact fun _ => hdone.kept
  · intro hcmd hcode
    have hsuccess : completion.completionCode = success := by
      rw [completionCode] at hcode
      split at hcode
      · exact Option.some.inj hcode
      · cases hcode
    exact processEnableSlotCompletion_slotsKept hheld hfiled hledger ⟨hcmd, hsuccess⟩
  · exact fun _ _ => processAddressDeviceCompletion_slotsKept hdone
  · intro _ _
    refine ⟨hheld, hfiled, fun _ => ?_⟩
    have hperm : ([] ++ (completions s.events ++ completions (s.popped ++
        [Event.commandCompletion completion]))).Perm ([completion] ++ s.books.unprocessed) := by
      rw [List.nil_append, completions_append, ← List.append_assoc]
      exact List.perm_append_comm
    exact hledger.perm hperm

/-- A slot is enabled for a root port. -/
theorem InOrder.enableSlot (h : InOrder s []) (portIdx : Nat) :
    Kept ((s.setPhase portIdx .enablingSlot).issue .enableSlot) := by
  have hphase : InOrder (s.setPhase portIdx .enablingSlot) [] := ⟨h.held, h.filed, h.ledger⟩
  exact hphase.issue_kept (by simp)

/-- A device behind a hub is filed under the root port of the hub. -/
theorem processInitPortDeviceEvent_slotsKept {event : InitPortDevice} (h : InOrder s []) :
    (processInitPortDeviceEvent event s).Meets slotsKept fun _ t => Kept t := by
  have hphase : InOrder (s.setPhase event.portIndex .enablingSlot) [] :=
    ⟨h.held, h.filed, h.ledger⟩
  have hcmd : ∀ slotId, Command.enableSlot ≠ .disableSlot slotId := by simp
  -- the completion of `EnableSlot` is at hand
  have hgrant {completion : CommandCompletion} {t : Controller}
      (hresumed : slotsKept.resumed (.command s.commandIndex)
        ((s.setPhase event.portIndex .enablingSlot).issue .enableSlot)
        (.commandCompletion completion) t) (hcode : completion.completionCode = success) :
      Ledger t.books [completion] none none ∧ t.books.Grants completion := by
    obtain ⟨hptr, hledger⟩ := resumed_ledger hcmd hresumed
    refine ⟨hledger, ?_, hcode⟩
    change t.commandAt completion.commandTrbPointer = _
    rw [hptr, hresumed.1.commandAt]
    simp
  apply processInitPortDeviceEvent_meets slotsKept_mild
  · exact fun _ => hphase.waiting hcmd
  · intro completion t hresumed hcode _ _ htaken
    obtain ⟨hledger, hgrants⟩ := hgrant hresumed hcode
    exact absurd (hledger.slotFree hgrants) htaken
  · intro completion t _ hresumed hcode _
    obtain ⟨hledger, hgrants⟩ := hgrant hresumed hcode
    have ht := hphase.resumed hcmd hresumed
    have haddressed := @addressed_inOrder t event.portIndex completion event.routing event.speed
      event.parentHubSlotId event.parentPortIndex [] ht.held ht.filed hledger hgrants
    have haddress : ∀ slotId, Command.addressDevice completion.slotId ≠ .disableSlot slotId := by
      simp
    apply awaitCompletion_meets slotsKept_mild
    · exact haddressed.waiting haddress
    · intro addressing u hresumed'
      have hu := haddressed.resumed haddress hresumed'
      exact ⟨fun _ _ => initializeDeviceAt_slotsKept hu, fun _ => hu.kept⟩

end Handlers

end LemolaOs.Xhci.Controller
