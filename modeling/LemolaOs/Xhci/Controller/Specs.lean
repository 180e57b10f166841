import LemolaOs.Xhci.Controller.Handlers

/-!
# Specifications of the controller's functions

One rule for each function: what has to hold of the states in which it can return,
wait or fail. The rules are for every protocol that admits deadlocks and all panics
other than those about phases and slots, so a rule needs no hypothesis about locks,
and the state after a function is that of its own updates.

Functions that wait take an invariant that survives whatever they may issue and
await (`Interruptible`).
-/

namespace LemolaOs.Xhci

/-- The panics about phases. -/
def Fault.PhaseError (e : Fault) : Prop :=
  e = .panic (.message "InvalidPhase") ∨ e = .panic (.message "INVALID PortConfigPhase state.")

/-- The panics of `allocate_device` and `deallocate_device`. -/
def Fault.SlotError (e : Fault) : Prop :=
  e = .panic (.message "slot_id is out of range") ∨
  (∃ slotId : Nat, e = .panic (.message s!"device context at {slotId} is already allocated")) ∨
  e = .panic (.message "assertion failed: device_context_info.is_some()")

/-- A failure that is neither about phases nor about slots. -/
def Fault.Ordinary (e : Fault) : Prop := ¬ e.PhaseError ∧ ¬ e.SlotError

/-- The first letters of a message, by which the messages differ. -/
def Fault.heading : Fault → List Char
  | .panic (.message text) => text.toList.take 8
  | _ => []

theorem Fault.heading_append (text rest : String) (hlength : 8 ≤ text.toList.length) :
    (Fault.panic (.message (text ++ rest))).heading = text.toList.take 8 := by
  simp only [Fault.heading, String.toList_append, List.take_append_of_le_length hlength]

/-- How the messages about phases begin. -/
def Fault.phaseHeadings : List (List Char) := ["InvalidP".toList, "INVALID ".toList]

/-- How the messages about slots begin. -/
def Fault.slotHeadings : List (List Char) :=
  ["slot_id ".toList, "device c".toList, "assertio".toList]

theorem Fault.PhaseError.heading_mem {e : Fault} (h : e.PhaseError) :
    e.heading ∈ phaseHeadings := by
  obtain rfl | rfl := h
  · decide
  · decide

theorem Fault.SlotError.heading_mem {e : Fault} (h : e.SlotError) : e.heading ∈ slotHeadings := by
  obtain rfl | ⟨slotId, rfl⟩ | rfl := h
  · decide
  · have htext := heading_append "device context at " (toString slotId ++ " is already allocated")
      (by decide)
    rw [← String.append_assoc] at htext
    exact htext ▸ by decide
  · decide

theorem Fault.SlotError.not_phaseError {e : Fault} (h : e.SlotError) : ¬ e.PhaseError := by
  intro hphase
  have hdisjoint : ∀ heading ∈ slotHeadings, heading ∉ phaseHeadings := by decide
  exact hdisjoint _ h.heading_mem hphase.heading_mem

theorem Fault.ordinary_of_heading {e : Fault} (h : e.heading ∉ phaseHeadings ++ slotHeadings) :
    e.Ordinary :=
  ⟨fun hphase => h (List.mem_append_left _ hphase.heading_mem),
    fun hslot => h (List.mem_append_right _ hslot.heading_mem)⟩

theorem Fault.ordinary_message (text : String)
    (h : text.toList.take 8 ∉ phaseHeadings ++ slotHeadings) :
    (Fault.panic (.message text)).Ordinary :=
  ordinary_of_heading h

theorem Fault.ordinary_append (text rest : String) (hlength : 8 ≤ text.toList.length)
    (h : text.toList.take 8 ∉ phaseHeadings ++ slotHeadings) :
    (Fault.panic (.message (text ++ rest))).Ordinary := by
  apply ordinary_of_heading
  rwa [heading_append text rest hlength]

theorem Fault.nil_not_heading : [] ∉ phaseHeadings ++ slotHeadings := by
  decide

@[simp] theorem Fault.ordinary_deadlock (m : Mutex) : (Fault.deadlock m).Ordinary :=
  ordinary_of_heading nil_not_heading

@[simp] theorem Fault.ordinary_assertion : (Fault.panic .assertion).Ordinary :=
  ordinary_of_heading nil_not_heading

@[simp] theorem Fault.ordinary_outOfRange : (Fault.panic .outOfRange).Ordinary :=
  ordinary_of_heading nil_not_heading

@[simp] theorem Fault.ordinary_overflow : (Fault.panic .overflow).Ordinary :=
  ordinary_of_heading nil_not_heading

namespace Controller

open Code Resumption

/-- All failures are admissible, except perhaps those about phases. -/
def Tame (c : Protocol Controller Future Event Fault) : Prop :=
  ∀ e : Fault, ¬ e.PhaseError → c.failing e

/-- All failures are admissible, except perhaps those about phases and slots. -/
def Mild (c : Protocol Controller Future Event Fault) : Prop :=
  ∀ e : Fault, e.Ordinary → c.failing e

theorem Tame.mild {c : Protocol Controller Future Event Fault} (tame : Tame c) : Mild c :=
  fun e he => tame e he.1

theorem Tame.slotError {c : Protocol Controller Future Event Fault} (tame : Tame c) {e : Fault}
    (he : e.SlotError) : c.failing e :=
  tame e he.not_phaseError

/-- The device that `address_device_at` puts in a slot. -/
@[simps] def addressed (s : Controller) (portIndex routing speed : Nat)
    (parentHubSlotId parentPortIndex : Option Nat) : Device where
  portIndex := portIndex
  routing := routing
  routeString := routing % 2 ^ 18
  rootHubPortNumber := portIndex + 1
  speed := if speed = 5 then (s.portsc portIndex).portSpeed else speed
  parentHubSlotId := parentHubSlotId
  parentPortIndex := parentPortIndex

/-- A slot that `allocate_device` accepts. -/
def SlotFree (s : Controller) (slotId : Nat) : Prop :=
  slotId ≤ s.maxSlots ∧ s.device slotId = none

/-- A check whose failure is admissible. -/
theorem check_meets {c : Protocol Controller Future Event Fault} {s : Controller} {p : Prop}
    [Decidable p] {e : Panic} {post : Unit → Controller → Prop}
    (hfail : ¬ p → c.failing (.panic e)) (h : p → post () s) : (ensure p e s).Meets c post := by
  by_cases hp : p
  · rw [ensure_of _ hp]
    exact h hp
  · rw [ensure_of_not _ hp]
    exact hfail hp

theorem clearAddressing_eq (s : Controller) (portIdx : Nat) :
    clearAddressing portIdx s = .done () (s.setAddressing
      (if s.addressingPortIndex = some portIdx then none else s.addressingPortIndex)) := by
  rw [clearAddressing, bind_apply, get_apply, bind_done, Code.ite_apply]
  split
  next => rfl
  next => rfl

/-- A guard of a lock that is free. -/
theorem withLock_free_meets {c : Protocol Controller Future Event Fault} {s : Controller}
    {α : Type} {m : Mutex} {body : Handler α} {post : α → Controller → Prop} (hm : m ∉ s.held)
    (h : (body (s.hold m)).Meets c fun a t => post a (t.release m)) :
    (withLock m body s).Meets c post := by
  rw [withLock, bind_apply, lock, if_neg hm, bind_done]
  exact bind_meets h

/-- The polls of a future whose locks are free. -/
theorem awaitEvent_free_meets {c : Protocol Controller Future Event Fault} {s : Controller}
    {future : Future} {post : Event → Controller → Prop} (hregisters : .registers ∉ s.held)
    (hring : .eventRing ∉ s.held) (hwait : c.waiting future s)
    (h : ∀ event t, c.resumed future s event t → post event t) :
    (awaitEvent future s).Meets c post := by
  apply bind_meets
  apply withLock_free_meets hregisters
  rw [pure_apply, meets_done, release_hold]
  apply bind_meets
  apply withLock_free_meets hring
  apply withLock_free_meets (by simpa using hregisters)
  rw [pure_apply, meets_done, release_hold, release_hold]
  exact ⟨hwait, h⟩

theorem awaitCompletion_free_meets {c : Protocol Controller Future Event Fault} {s : Controller}
    {trbPtr : Nat} {post : CommandCompletion → Controller → Prop}
    (hregisters : .registers ∉ s.held) (hring : .eventRing ∉ s.held)
    (hwait : c.waiting (.command trbPtr) s)
    (h : ∀ event t, c.resumed (.command trbPtr) s event t →
      ∃ completion, event = .commandCompletion completion ∧ post completion t) :
    (awaitCompletion trbPtr s).Meets c post := by
  apply bind_meets
  apply awaitEvent_free_meets hregisters hring hwait
  intro event t hresumed
  obtain ⟨completion, rfl, hpost⟩ := h event t hresumed
  exact hpost

/-- What has to hold so that one step of an initialisation ends in `post`. -/
def HostOpOk (c : Protocol Controller Future Event Fault) (slotId : Nat) (s : Controller)
    (post : Controller → Prop) : HostOp → Prop
  | .registers => post s
  | .command cmd => c.waiting (.command s.commandIndex) (s.issue cmd) ∧ ∀ completion t,
      c.resumed (.command s.commandIndex) (s.issue cmd) (.commandCompletion completion) t → post t
  | .transfer waitOn => c.waiting (.transfer waitOn) s ∧
      ∀ event t, c.resumed (.transfer waitOn) s event t → post t
  | .assignAddress device => post (s.setUserEvents (s.userEvents ++ [device]))
  | .addDevice kind address => (s.classDrivers.addDevice kind slotId address).1 = true →
      post (s.setClassDrivers (s.classDrivers.addDevice kind slotId address).2)
  | .unwrapFailed => True

section Rules

variable {c : Protocol Controller Future Event Fault} (mild : Mild c) {s : Controller}
  {portIdx slotId : Nat} {α : Type}

include mild

theorem withLock_meets {m : Mutex} {body : Handler α} {post : α → Controller → Prop}
    (h : (body (s.hold m)).Meets c fun a t => post a (t.release m)) :
    (withLock m body s).Meets c post := by
  by_cases hm : m ∈ s.held
  · rw [withLock_held hm]
    exact mild _ (by simp)
  · exact withLock_free_meets hm h

theorem ensure_meets {p : Prop} [Decidable p] {e : Panic} {post : Unit → Controller → Prop}
    (he : (Fault.panic e).Ordinary) (h : p → post () s) : (ensure p e s).Meets c post :=
  check_meets (fun _ => mild _ he) h

theorem readVolatileAt_meets {post : PortSc → Controller → Prop}
    (h : portIdx < s.numberOfPorts → post (s.portsc portIdx) s) :
    (readVolatileAt portIdx s).Meets c post := by
  apply bind_meets
  exact bind_meets (ensure_meets mild (by simp) h)

theorem updateVolatileAt_meets {f : PortSc → PortSc} {post : Unit → Controller → Prop}
    (h : portIdx < s.numberOfPorts → post () (s.setPort portIdx (f (s.portsc portIdx)))) :
    (updateVolatileAt portIdx f s).Meets c post := by
  apply bind_meets
  exact bind_meets (ensure_meets mild (by simp) h)

theorem portPhaseAt_meets {post : PortConfigPhase → Controller → Prop}
    (h : portIdx < 256 → post (s.portConfigPhase portIdx) s) :
    (portPhaseAt portIdx s).Meets c post :=
  bind_meets (ensure_meets mild (by simp) h)

theorem setPortPhaseAt_meets {phase : PortConfigPhase} {post : Unit → Controller → Prop}
    (h : portIdx < 256 → post () (s.setPhase portIdx phase)) :
    (setPortPhaseAt portIdx phase s).Meets c post :=
  bind_meets (ensure_meets mild (by simp) h)

theorem readPort_meets {f : PortSc → α} {post : α → Controller → Prop}
    (h : portIdx < s.numberOfPorts → post (f (s.portsc portIdx)) s) :
    (withLock .registers (do let portsc ← readVolatileAt portIdx; return f portsc) s).Meets c
      post := by
  apply withLock_meets mild
  apply bind_meets
  apply readVolatileAt_meets mild
  simpa using h

theorem withDevice_meets {body : Option Device → Handler α} {post : α → Controller → Prop}
    (h : slotId ≤ s.maxSlots → (body (s.device slotId) (s.hold (.device slotId))).Meets c
      fun a t => post a (t.release (.device slotId))) :
    (withDevice slotId body s).Meets c post := by
  apply bind_meets
  apply bind_meets
  apply ensure_meets mild (by simp)
  intro hslot
  exact withLock_meets mild (bind_meets (h hslot))

theorem canProcessReset_meets {post : Bool → Controller → Prop}
    (hfree : s.addressingPortIndex = some portIdx ∨ s.addressingPortIndex = none →
      post true (s.setAddressing (some portIdx)))
    (htaken : s.addressingPortIndex ≠ some portIdx → s.addressingPortIndex ≠ none →
      portIdx < 256 → post false (s.setPhase portIdx .waitingAddressed)) :
    (canProcessReset portIdx s).Meets c post := by
  apply withLock_meets mild
  apply get_bind_meets
  apply ite_meets
  · intro (h : s.addressingPortIndex = some portIdx)
    have hpost := hfree (.inl h)
    rw [setAddressing_self h] at hpost
    simpa using hpost
  · intro hself
    apply ite_meets
    · intro (h : s.addressingPortIndex = none)
      simpa [setAddressingPortIndex] using hfree (.inr h)
    · intro hfree
      apply bind_meets
      apply setPortPhaseAt_meets mild
      intro hphase
      simpa using htaken hself hfree hphase

theorem resetRegisters_meets {post : Unit → Controller → Prop} (hport : portIdx < s.numberOfPorts)
    (h : (s.portsc portIdx).afterReset.Ready →
      post () (s.setPort portIdx (s.portsc portIdx).afterReset)) :
    (resetRegisters portIdx s).Meets c post := by
  by_cases hregisters : .registers ∈ s.held
  · rw [resetRegisters, withLock_held hregisters]
    exact mild _ (by simp)
  · rw [resetRegisters_eq hregisters hport]
    split
    next henabled =>
      simp only [PortSc.isEnabled, Bool.and_eq_true] at henabled
      exact h ⟨henabled.1.2, rfl⟩
    next => exact mild _ (Fault.ordinary_message _ (by decide))

/-- The reset of a port; the caller knows that the phase is right, or does not mind. -/
theorem resetPortAt_meets {post : Unit → Controller → Prop}
    (hinvalid : ¬ (s.portConfigPhase portIdx = .notConnected ∨
        s.portConfigPhase portIdx = .waitingAddressed) →
      c.failing (.panic (.message "INVALID PortConfigPhase state.")))
    (hskip : ¬ (s.portsc portIdx).Resettable → post () s)
    (htaken : (s.portsc portIdx).Resettable → s.addressingPortIndex ≠ some portIdx →
      s.addressingPortIndex ≠ none → post () (s.setPhase portIdx .waitingAddressed))
    (hreset : (s.portsc portIdx).Resettable →
      s.addressingPortIndex = some portIdx ∨ s.addressingPortIndex = none →
      (s.portsc portIdx).afterReset.Ready →
      post () ((s.setAddressing (some portIdx)).setPort portIdx (s.portsc portIdx).afterReset)) :
    (resetPortAt portIdx s).Meets c post := by
  apply bind_meets
  apply readPort_meets mild
  intro hport
  apply bind_meets
  apply readPort_meets mild
  intro _
  apply ite_meets
  · intro h
    exact hskip fun hr => by simp [hr.1] at h
  intro hconnected
  apply ite_meets
  · intro h
    exact hskip fun hr => by simp [hr.2] at h
  intro hchange
  have hr : (s.portsc portIdx).Resettable := by
    simp_all [PortSc.Resettable]
  apply bind_meets
  apply readPort_meets mild
  intro _
  apply bind_meets
  apply canProcessReset_meets mild
  swap
  · intro hself hfree _
    exact htaken hr hself hfree
  intro hfree
  apply bind_meets
  apply withLock_meets mild
  apply bind_meets
  apply portPhaseAt_meets mild
  intro _
  apply check_meets hinvalid
  intro _
  have hrelease : ((s.setAddressing (some portIdx)).hold .portConfigureState).release
      .portConfigureState = s.setAddressing (some portIdx) := release_hold _ _
  rw [hrelease]
  exact resetRegisters_meets mild hport (hreset hr hfree)

/-- `enable_slot_at` returns only for a port that is ready. -/
theorem enableSlotAt_meets {post : Nat → Controller → Prop}
    (h : portIdx < s.numberOfPorts → portIdx < 256 → (s.portsc portIdx).Ready →
      post s.commandIndex ((s.setPhase portIdx .enablingSlot).issue .enableSlot)) :
    (enableSlotAt portIdx s).Meets c post := by
  apply withLock_meets mild
  apply bind_meets
  apply readVolatileAt_meets mild
  intro hport
  apply ite_meets
  · intro hready
    apply bind_meets
    apply withLock_meets mild
    apply setPortPhaseAt_meets mild
    intro hphase
    apply withLock_meets mild
    have hpost := h hport hphase hready
    simpa [pushCommand] using hpost
  · intro _
    apply bind_meets
    apply withLock_meets mild
    apply setPortPhaseAt_meets mild
    intro _
    apply bind_meets
    rw [resetPortAt_of_held (by simp)]
    exact mild _ (by simp)

theorem canProcessConnect_meets {post : Bool → Controller → Prop}
    (hfree : s.addressingPortIndex = some portIdx ∨ s.addressingPortIndex = none → post true s)
    (htaken : s.addressingPortIndex ≠ some portIdx → s.addressingPortIndex ≠ none →
      post false (s.setPhase portIdx .waitingAddressed)) :
    (canProcessConnect portIdx s).Meets c post := by
  apply withLock_meets mild
  apply get_bind_meets
  apply ite_meets
  · intro h
    simpa using hfree h
  · intro h
    obtain ⟨hself, hfree⟩ := not_or.mp h
    apply bind_meets
    apply setPortPhaseAt_meets mild
    intro _
    simpa using htaken hself hfree

/-- A status change of a port that is not connected. -/
theorem processNotConnected_meets {post : Unit → Controller → Prop}
    (hphase : s.portConfigPhase portIdx = .notConnected)
    (htaken : s.addressingPortIndex ≠ some portIdx → s.addressingPortIndex ≠ none →
      post () (s.setPhase portIdx .waitingAddressed))
    (hreset : s.addressingPortIndex = some portIdx ∨ s.addressingPortIndex = none →
      (s.portsc portIdx).Resettable → (s.portsc portIdx).afterReset.Ready →
      post () ((((s.setAddressing (some portIdx)).setPort portIdx
        (s.portsc portIdx).afterReset).setPhase portIdx .enablingSlot).issue .enableSlot))
    (hready : s.addressingPortIndex = some portIdx ∨ s.addressingPortIndex = none →
      (s.portsc portIdx).Ready → post () ((s.setPhase portIdx .enablingSlot).issue .enableSlot)) :
    (processNotConnected portIdx s).Meets c post := by
  apply bind_meets
  apply canProcessConnect_meets mild
  swap
  · exact htaken
  intro hfree
  apply bind_meets
  apply resetPortAt_meets mild
  · exact fun h => absurd (.inl hphase) h
  · intro _
    exact bind_meets (enableSlotAt_meets mild fun _ _ h => hready hfree h)
  · intro _ hself hnone
    exact absurd hfree (not_or.mpr ⟨hself, hnone⟩)
  · intro hr _ hafter
    exact bind_meets (enableSlotAt_meets mild fun _ _ _ => hreset hfree hr hafter)

/-- A status change of a port that has been reset. -/
theorem processResettingPort_meets {post : Unit → Controller → Prop}
    (htaken : s.addressingPortIndex ≠ some portIdx → s.addressingPortIndex ≠ none →
      post () (s.setPhase portIdx .waitingAddressed))
    (hready : s.addressingPortIndex = some portIdx ∨ s.addressingPortIndex = none →
      (s.portsc portIdx).Ready →
      post () (((s.setAddressing (some portIdx)).setPhase portIdx .enablingSlot).issue
        .enableSlot)) :
    (processResettingPort portIdx s).Meets c post := by
  apply bind_meets
  apply canProcessReset_meets mild
  · intro hfree
    exact bind_meets (enableSlotAt_meets mild fun _ _ h => hready hfree h)
  · intro hself hfree _
    exact htaken hself hfree

/-- A status change of a port that waits. -/
theorem processWaitingAddressed_meets {event : PortStatusChange} {post : Unit → Controller → Prop}
    (htaken : s.addressingPortIndex ≠ none → post () (s.putAside (.portStatusChange event)))
    (hreset : s.addressingPortIndex = none → (s.portsc portIdx).Resettable →
      (s.portsc portIdx).afterReset.Ready →
      post () ((((s.setAddressing (some portIdx)).setPort portIdx
        (s.portsc portIdx).afterReset).setPhase portIdx .enablingSlot).issue .enableSlot))
    (hready : s.addressingPortIndex = none → (s.portsc portIdx).Ready →
      post () (((s.setAddressing (some portIdx)).setPhase portIdx .enablingSlot).issue
        .enableSlot)) :
    (processWaitingAddressed portIdx event s).Meets c post := by
  apply bind_meets
  apply withLock_meets mild
  apply get_bind_meets
  apply ite_meets
  · intro (hnone : s.addressingPortIndex = none)
    apply bind_meets
    apply bind_meets
    apply setPortPhaseAt_meets mild
    intro _
    simp only [setAddressing_hold, setPhase_hold, release_hold, pure_apply, meets_done, if_true]
    apply bind_meets
    apply withLock_meets mild
    rw [pure_apply, meets_done, release_hold]
    apply bind_meets
    apply resetPortAt_meets mild
    · exact fun h => absurd (.inl (by simp)) h
    · intro _
      refine bind_meets (enableSlotAt_meets mild fun _ _ h => ?_)
      simpa [setPhase] using hready hnone h
    · exact fun _ h => absurd rfl h
    · intro hr _ hafter
      refine bind_meets (enableSlotAt_meets mild fun _ _ _ => ?_)
      simpa [setPhase, setPort, setAddressing] using hreset hnone hr hafter
  · intro (hnone : s.addressingPortIndex ≠ none)
    rw [pure_apply, meets_done, release_hold]
    apply withLock_meets mild
    simpa using htaken hnone

theorem readMaxSlots_meets {post : Nat → Controller → Prop} (h : post s.maxSlots s) :
    (readMaxSlots s).Meets c post := by
  apply withLock_meets mild
  apply get_bind_meets
  simpa using h

/-- A look at a device that has to be there. -/
theorem inspectDevice_meets {e : Panic} {post : Unit → Controller → Prop}
    (he : (Fault.panic e).Ordinary) (h : post () s) :
    (withDevice slotId (fun device => ensure device.isSome e) s).Meets c post := by
  apply withDevice_meets mild
  intro _
  apply ensure_meets mild he
  intro _
  simpa using h

theorem allocateDevice_meets {routing : Nat} {post : Unit → Controller → Prop}
    (hslot : ∀ e : Fault, e.SlotError → ¬ s.SlotFree slotId → c.failing e)
    (h : s.SlotFree slotId →
      post () (s.setDevice slotId (some ⟨portIdx, routing, 0, 0, 0, none, none⟩))) :
    (allocateDevice portIdx slotId routing s).Meets c post := by
  apply bind_meets
  apply readMaxSlots_meets mild
  apply bind_meets
  apply check_meets
  · exact fun hrange => hslot _ (.inl rfl) fun hfree => hrange hfree.1
  intro hrange
  apply withDevice_meets mild
  intro _
  apply bind_meets
  apply check_meets
  · exact fun hsome => hslot _ (.inr (.inl ⟨slotId, rfl⟩)) fun hfree => hsome hfree.2
  intro hnone
  simpa using h ⟨hrange, hnone⟩

theorem loadDeviceContext_meets {post : Unit → Controller → Prop} (h : post () s) :
    (loadDeviceContext slotId s).Meets c post := by
  apply bind_meets
  apply readMaxSlots_meets mild
  apply bind_meets
  have htext := Fault.ordinary_append "Invalid slot_id: " (toString slotId) (by decide) (by decide)
  apply ensure_meets mild htext
  intro _
  apply bind_meets
  apply inspectDevice_meets mild (by simp)
  apply withLock_meets mild
  simpa using h

/-- `address_device_at` puts a new device in an empty slot. -/
theorem addressDeviceAt_meets {routing speed : Nat} {parentHubSlotId parentPortIndex : Option Nat}
    {post : Nat → Controller → Prop}
    (hslot : ∀ e : Fault, e.SlotError → ¬ s.SlotFree slotId → c.failing e)
    (h : s.SlotFree slotId → portIdx < 255 →
      post s.commandIndex
        ((((s.setSlots portIdx (some ((s.portSlotIdMap portIdx).getD [] ++ [slotId]))).setDevice
          slotId (some (s.addressed portIdx routing speed parentHubSlotId
            parentPortIndex))).setPhase portIdx .addressingDevice).issue (.addressDevice slotId))) :
    (addressDeviceAt portIdx slotId routing speed parentHubSlotId parentPortIndex s).Meets c
      post := by
  apply bind_meets
  apply withLock_meets mild
  simp only [modify_apply, meets_done, setSlots_hold, release_hold]
  apply bind_meets
  apply allocateDevice_meets mild
  · exact hslot
  intro hfree
  apply bind_meets
  apply inspectDevice_meets mild (by simp)
  apply withLock_meets mild
  apply bind_meets
  apply readVolatileAt_meets mild
  intro _
  apply bind_meets
  apply withDevice_meets mild
  intro _
  simp only [hold_device, setDevice_device, Function.update_self, unwrapDevice]
  apply bind_meets
  apply bind_meets
  apply ensure_meets mild (by simp)
  intro hnumber
  simp only [modify_apply, meets_done, setDevice_hold, setDevice_setDevice, release_hold]
  apply bind_meets
  apply loadDeviceContext_meets mild
  apply withLock_meets mild
  apply bind_meets
  apply setPortPhaseAt_meets mild
  intro hphase
  apply bind_meets
  apply inspectDevice_meets mild (by simp)
  apply withLock_meets mild
  rw [Nat.mod_eq_of_lt hphase] at hnumber ⊢
  simpa [pushCommand, addressed] using h hfree hnumber

theorem awaitEvent_meets {future : Future} {post : Event → Controller → Prop}
    (hwait : c.waiting future s) (h : ∀ event t, c.resumed future s event t → post event t) :
    (awaitEvent future s).Meets c post := by
  apply bind_meets
  apply withLock_meets mild
  rw [pure_apply, meets_done, release_hold]
  apply bind_meets
  apply withLock_meets mild
  apply withLock_meets mild
  rw [pure_apply, meets_done, release_hold, release_hold]
  exact ⟨hwait, h⟩

theorem awaitCompletion_meets {trbPtr : Nat} {post : CommandCompletion → Controller → Prop}
    (hwait : c.waiting (.command trbPtr) s)
    (h : ∀ completion t, c.resumed (.command trbPtr) s (.commandCompletion completion) t →
      post completion t) :
    (awaitCompletion trbPtr s).Meets c post := by
  apply bind_meets
  apply awaitEvent_meets mild hwait
  intro event t hresumed
  cases event with
  | commandCompletion completion => exact h completion t hresumed
  | _ => exact mild _ (by simp)

theorem hostOp_meets {op : HostOp} {post : Controller → Prop}
    (h : HostOpOk c slotId s post op) : (hostOp slotId op s).Meets c fun _ t => post t := by
  cases op with
  | registers =>
      apply withLock_meets mild
      simpa [HostOpOk] using h
  | command cmd =>
      apply bind_meets
      apply withLock_meets mild
      simp only [pushCommand, bind_apply, get_apply, modify_apply, bind_done, pure_apply,
        meets_done, issue_hold, release_hold, hold_commandIndex]
      apply bind_meets
      apply withLock_meets mild
      rw [pure_apply, meets_done, release_hold]
      exact bind_meets (awaitCompletion_meets mild h.1 h.2)
  | transfer waitOn =>
      apply bind_meets
      apply withLock_meets mild
      rw [pure_apply, meets_done, release_hold]
      exact bind_meets (awaitEvent_meets mild h.1 h.2)
  | assignAddress device =>
      apply withLock_meets mild
      simpa [HostOpOk] using h
  | addDevice kind address =>
      apply get_bind_meets
      apply bind_meets
      exact ensure_meets mild (by simp) h
  | unwrapFailed => exact mild _ (by simp)

/-- The loop over the steps, with an invariant that may depend on the steps to come. -/
theorem hostOps_meets {ops : List HostOp} {I : List HostOp → Controller → Prop}
    (step : ∀ op ops s, I (op :: ops) s → HostOpOk c slotId s (I ops) op) (h : I ops s) :
    (hostOps slotId ops s).Meets c fun _ t => I [] t := by
  induction ops generalizing s with
  | nil => exact h
  | cons op ops ih =>
      apply bind_meets
      apply (hostOp_meets mild (step op ops s h)).mono
      intro _ t ht
      exact ih ht

theorem initializeDeviceAt_meets {I : List HostOp → Controller → Prop}
    {post : Unit → Controller → Prop}
    (step : ∀ op ops s, I (op :: ops) s → HostOpOk c slotId s (I ops) op)
    (hinit : (s.device slotId).isSome → portIdx < 256 →
      I (s.initialization slotId) ((s.setPhase portIdx .initializingDevice).hold (.device slotId)))
    (hend : ∀ t, I [] t →
      post () (((t.setPhase portIdx .configured).setAddressing none).release (.device slotId))) :
    (initializeDeviceAt portIdx slotId s).Meets c post := by
  apply withDevice_meets mild
  intro _
  apply bind_meets
  apply ensure_meets mild (Fault.ordinary_message _ (by decide))
  intro hdevice
  apply bind_meets
  apply withLock_meets mild
  apply setPortPhaseAt_meets mild
  intro hphase
  simp only [setPhase_hold, release_hold]
  apply bind_meets
  apply get_bind_meets
  apply (hostOps_meets mild step (hinit hdevice hphase)).mono
  intro _ t ht
  apply withLock_meets mild
  apply bind_meets
  apply setPortPhaseAt_meets mild
  intro _
  simpa [setAddressingPortIndex] using hend t ht

/-- One slot of a port that was disconnected, with the retries. -/
theorem disableSlot_meets {left : Nat} {I : Controller → Prop} {post : Unit → Controller → Prop}
    (issue : ∀ s, I s → c.waiting (.command s.commandIndex) (s.issue (.disableSlot slotId)))
    (completed : ∀ s completion t, I s → c.resumed (.command s.commandIndex)
      (s.issue (.disableSlot slotId)) (.commandCompletion completion) t → I t)
    (hpost : ∀ t, I t → post () t) (h : I s) : (disableSlot slotId left s).Meets c post := by
  induction left generalizing s with
  | zero =>
      have htext := Fault.ordinary_append "failed to get transfer trb on slot_id: "
        (toString slotId) (by decide) (by decide)
      exact mild _ htext
  | succ left ih =>
      apply bind_meets
      apply withLock_meets mild
      simp only [pushCommand, bind_apply, get_apply, modify_apply, bind_done, pure_apply,
        meets_done, issue_hold, release_hold, hold_commandIndex]
      apply bind_meets
      apply withLock_meets mild
      rw [pure_apply, meets_done, release_hold]
      apply bind_meets
      apply awaitCompletion_meets mild (issue s h)
      intro completion t hresumed
      have ht := completed s completion t h hresumed
      apply ite_meets
      · intro _
        exact hpost t ht
      · intro _
        exact ih ht

theorem disableSlots_meets {slotIds : List Nat} {I : List Nat → Controller → Prop}
    (issue : ∀ slotId slotIds s, I (slotId :: slotIds) s →
      c.waiting (.command s.commandIndex) (s.issue (.disableSlot slotId)))
    (completed : ∀ slotId slotIds s completion t, I (slotId :: slotIds) s →
      c.resumed (.command s.commandIndex) (s.issue (.disableSlot slotId))
        (.commandCompletion completion) t → I (slotId :: slotIds) t)
    (freed : ∀ slotId slotIds s, I (slotId :: slotIds) s → (s.device slotId).isSome →
      I slotIds (s.setDevice slotId none))
    (hassert : ∀ slotId slotIds s, I (slotId :: slotIds) s → s.device slotId = none →
      ∀ e : Fault, e.SlotError → c.failing e) (h : I slotIds s) :
    (disableSlots slotIds s).Meets c fun _ t => I [] t := by
  induction slotIds generalizing s with
  | nil => exact h
  | cons slotId slotIds ih =>
      apply bind_meets
      apply disableSlot_meets mild (issue slotId slotIds) (completed slotId slotIds) ?_ h
      intro t ht
      apply bind_meets
      apply withDevice_meets mild
      intro _
      apply bind_meets
      apply check_meets
      · intro hnone
        exact hassert slotId slotIds t ht (by simpa using hnone) _ (.inr (.inr rfl))
      intro hsome
      simpa using ih (freed slotId slotIds t ht hsome)

/-- `reset_connection_at`: the slots of the port are freed one after another. -/
theorem resetConnectionAt_meets {I : List Nat → Controller → Prop} {post : Unit → Controller → Prop}
    (issue : ∀ slotId slotIds s, I (slotId :: slotIds) s →
      c.waiting (.command s.commandIndex) (s.issue (.disableSlot slotId)))
    (completed : ∀ slotId slotIds s completion t, I (slotId :: slotIds) s →
      c.resumed (.command s.commandIndex) (s.issue (.disableSlot slotId))
        (.commandCompletion completion) t → I (slotId :: slotIds) t)
    (freed : ∀ slotId slotIds s, I (slotId :: slotIds) s → (s.device slotId).isSome →
      I slotIds (s.setDevice slotId none))
    (hassert : ∀ slotId slotIds s, I (slotId :: slotIds) s → s.device slotId = none →
      ∀ e : Fault, e.SlotError → c.failing e)
    (hinit : I ((s.portSlotIdMap portIdx).getD []) ((((s.setAddressing
        (if s.addressingPortIndex = some portIdx then none else s.addressingPortIndex)).setPhase
        portIdx .notConnected).setPort portIdx
        { s.portsc portIdx with connectStatusChange := false }).hold .portConfigureState))
    (hend : ∀ t, I [] t → post () ((t.setSlots portIdx none).release .portConfigureState)) :
    (resetConnectionAt portIdx s).Meets c post := by
  apply withLock_meets mild
  apply bind_meets
  rw [clearAddressing_eq, meets_done, hold_addressingPortIndex, setAddressing_hold]
  apply bind_meets
  apply setPortPhaseAt_meets mild
  intro _
  apply bind_meets
  apply withLock_meets mild
  apply get_bind_meets
  simp only [pure_apply, meets_done, setPhase_hold, release_hold]
  apply bind_meets
  apply withLock_meets mild
  apply updateVolatileAt_meets mild
  intro _
  simp only [setPort_hold, release_hold]
  apply bind_meets
  apply (disableSlots_meets mild issue completed freed hassert ?_).mono
  · intro _ t ht
    apply withLock_meets mild
    simpa using hend t ht
  · simpa using hinit

theorem popUserEvent_meets {post : Option InitPortDevice → Controller → Prop}
    (h : post s.userEvents.head? (s.setUserEvents s.userEvents.tail)) :
    (popUserEvent s).Meets c post := by
  apply withLock_meets mild
  apply get_bind_meets
  simpa using h

theorem readTransferTrb_meets {event : TransferEvent} {post : TransferTrb → Controller → Prop}
    (h : ∀ trb, post trb s) : (readTransferTrb event s).Meets c post := by
  apply withDevice_meets mild
  intro _
  apply bind_meets
  apply ensure_meets mild (by simp)
  intro _
  apply get_bind_meets
  cases (s.hold (.device event.slotId)).transferAt event.trbPointer with
  | none => exact mild _ (by simp)
  | some trb => simpa using h trb

theorem dispatchReport_meets {transferLength : Nat} {post : Unit → Controller → Prop}
    (h : post () s) : (dispatchReport slotId transferLength s).Meets c post := by
  apply get_bind_meets
  cases s.classDrivers.driverKind slotId with
  | none => exact mild _ (Fault.ordinary_message _ (by decide))
  | some kind =>
      apply bind_meets
      apply ensure_meets mild (by simp)
      intro _
      apply bind_meets
      apply inspectDevice_meets mild (by simp)
      apply ite_meets
      · exact fun _ => h
      · intro _
        apply withLock_meets mild
        simpa using h

/-- A transfer event leaves the controller as it is. -/
theorem processTransferEvent_meets {event : TransferEvent} {post : Unit → Controller → Prop}
    (h : post () s) : (processTransferEvent event s).Meets c post := by
  rw [processTransferEvent]
  cases completionCode event.completionCode with
  | none => exact mild _ (Fault.ordinary_message _ (by decide))
  | some code =>
      apply ite_meets
      · intro _
        apply bind_meets
        apply readTransferTrb_meets mild
        intro trb
        cases trb with
        | other => exact h
        | normal transferLength => exact dispatchReport_meets mild h
      · exact fun _ => h

/-- The completion of an `EnableSlot` command leads to an `AddressDevice` command for the
port that is being addressed. -/
theorem processEnableSlotCompletion_meets {post : Unit → Controller → Prop}
    (hinvalid : (∀ portIdx, s.addressingPortIndex = some portIdx →
        s.portConfigPhase portIdx ≠ .enablingSlot) → c.failing (.panic (.message "InvalidPhase")))
    (hslot : ∀ e : Fault, e.SlotError → ¬ s.SlotFree slotId → c.failing e)
    (h : ∀ portIdx, s.addressingPortIndex = some portIdx →
      s.portConfigPhase portIdx = .enablingSlot → s.SlotFree slotId → portIdx < 255 →
      post ()
        ((((s.setSlots portIdx (some ((s.portSlotIdMap portIdx).getD [] ++ [slotId]))).setDevice
          slotId (some (s.addressed portIdx 0 5 none none))).setPhase
          portIdx .addressingDevice).issue (.addressDevice slotId))) :
    (processEnableSlotCompletion slotId s).Meets c post := by
  apply bind_meets
  apply withLock_meets mild
  apply get_bind_meets
  cases htoken : s.addressingPortIndex with
  | none =>
      simp only [hold_addressingPortIndex, htoken]
      exact hinvalid (by simp [htoken])
  | some portIdx =>
      simp only [hold_addressingPortIndex, htoken]
      apply bind_meets
      apply portPhaseAt_meets mild
      intro _
      apply bind_meets
      apply check_meets
      · intro hphase
        exact hinvalid (by simpa [htoken] using hphase)
      intro hphase
      rw [pure_apply, meets_done, release_hold]
      apply bind_meets
      apply addressDeviceAt_meets mild
      · exact hslot
      intro hfree hport
      exact h portIdx htoken hphase hfree hport

theorem finishAddressing_meets {post : Option Nat → Controller → Prop}
    (hinvalid : ¬ (s.addressingPortIndex = some portIdx ∧
      s.portConfigPhase portIdx = .addressingDevice) → c.failing (.panic (.message "InvalidPhase")))
    (h : s.addressingPortIndex = some portIdx → s.portConfigPhase portIdx = .addressingDevice →
      post (firstWaiting s.portConfigPhase) (s.setAddressing none)) :
    (finishAddressing portIdx s).Meets c post := by
  apply withLock_meets mild
  apply get_bind_meets
  apply bind_meets
  apply check_meets
  · exact fun htoken => hinvalid fun hcheck => htoken hcheck.1
  intro htoken
  apply bind_meets
  apply portPhaseAt_meets mild
  intro _
  apply bind_meets
  apply check_meets
  · exact fun hphase => hinvalid fun hcheck => hphase hcheck.2
  intro hphase
  simp only [setAddressingPortIndex, bind_apply, modify_apply, bind_done, pure_apply, meets_done,
    setAddressing_hold, release_hold]
  exact h htoken hphase

theorem resetWaiting_meets {post : Unit → Controller → Prop}
    (htoken : s.addressingPortIndex = none) (hskip : post () s)
    (hreset : ∀ next, s.portConfigPhase next = .waitingAddressed → (s.portsc next).Resettable →
      post () ((s.setAddressing (some next)).setPort next (s.portsc next).afterReset)) :
    (resetWaiting (firstWaiting s.portConfigPhase) s).Meets c post := by
  cases hwaiting : firstWaiting s.portConfigPhase with
  | none => exact hskip
  | some next =>
      have hnext : s.portConfigPhase next = .waitingAddressed := by
        simpa using List.find?_some hwaiting
      apply resetPortAt_meets mild
      · exact fun h => absurd (.inr hnext) h
      · exact fun _ => hskip
      · exact fun _ _ h => absurd htoken h
      · exact fun hr _ _ => hreset next hnext hr

/-- The completion of an `AddressDevice` command: the right to address goes to the first
waiting port, if it can be reset, and the device is initialised. -/
theorem processAddressDeviceCompletion_meets {post : Unit → Controller → Prop}
    (hinvalid : ∀ device portIdx, s.device slotId = some device →
      device.rootHubPortNumber = portIdx + 1 →
      ¬ (s.addressingPortIndex = some portIdx ∧ s.portConfigPhase portIdx = .addressingDevice) →
      c.failing (.panic (.message "InvalidPhase")))
    (h : ∀ device portIdx t, s.device slotId = some device →
      device.rootHubPortNumber = portIdx + 1 → s.addressingPortIndex = some portIdx →
      s.portConfigPhase portIdx = .addressingDevice →
      (t = s.setAddressing none ∨ ∃ next, s.portConfigPhase next = .waitingAddressed ∧
        (s.portsc next).Resettable ∧
        t = (s.setAddressing (some next)).setPort next (s.portsc next).afterReset) →
      (initializeDeviceAt portIdx slotId t).Meets c post) :
    (processAddressDeviceCompletion slotId s).Meets c post := by
  apply bind_meets
  apply withDevice_meets mild
  intro _
  cases hdevice : s.device slotId with
  | none => exact mild _ (Fault.ordinary_message _ (by decide))
  | some device =>
      apply bind_meets
      apply ensure_meets mild (by simp)
      intro hnumber
      obtain ⟨portIdx, hroot⟩ := Nat.exists_eq_add_of_lt hnumber
      rw [Nat.zero_add] at hroot
      simp only [hroot, Nat.add_sub_cancel]
      apply bind_meets
      apply finishAddressing_meets mild
      · exact hinvalid device portIdx hdevice hroot
      intro htoken hphase
      have hrun := fun t => h device portIdx t hdevice hroot htoken hphase
      apply bind_meets
      apply resetWaiting_meets mild (s := (s.hold (.device slotId)).setAddressing none)
      · rfl
      · simpa using hrun _ (.inl rfl)
      · intro next hnext hr
        simpa using hrun _ (.inr ⟨next, hnext, hr, rfl⟩)

/-- What becomes of a command completion. -/
theorem processCommandCompletionEvent_meets {event : CommandCompletion}
    {post : Unit → Controller → Prop}
    (hother : completionCode event.completionCode ≠ some success ∨
      s.commandAt event.commandTrbPointer = none → post () s)
    (henable : s.commandAt event.commandTrbPointer = some .enableSlot →
      completionCode event.completionCode = some success →
      (processEnableSlotCompletion event.slotId s).Meets c post)
    (haddress : ∀ slotId, s.commandAt event.commandTrbPointer = some (.addressDevice slotId) →
      (processAddressDeviceCompletion event.slotId s).Meets c post)
    (hconfigure : ∀ slotId, s.commandAt event.commandTrbPointer = some (.configureEndpoint slotId) →
      post () (s.putAside (.commandCompletion event))) :
    (processCommandCompletionEvent event s).Meets c post := by
  apply ite_meets
  swap
  · exact fun hcode => hother (.inl hcode)
  intro hcode
  apply get_bind_meets
  cases hcmd : s.commandAt event.commandTrbPointer with
  | none => exact hother (.inr hcmd)
  | some cmd =>
      cases cmd with
      | enableSlot => exact henable hcmd hcode
      | addressDevice slotId => exact haddress slotId hcmd
      | configureEndpoint slotId =>
          apply withLock_meets mild
          simpa using hconfigure slotId hcmd
      | disableSlot slotId => exact mild _ (Fault.ordinary_message _ (by decide))
      | evaluateContext slotId => exact mild _ (Fault.ordinary_message _ (by decide))
      | other => exact mild _ (Fault.ordinary_message _ (by decide))

/-- What becomes of a status change of a port. -/
theorem processPortStatusChangeEvent_meets {event : PortStatusChange}
    {post : Unit → Controller → Prop}
    (hnotConnected : ∀ portIdx, event.portId = portIdx + 1 →
      s.portConfigPhase portIdx = .notConnected → (processNotConnected portIdx s).Meets c post)
    (hresettingPort : ∀ portIdx, s.portConfigPhase portIdx = .resettingPort →
      (processResettingPort portIdx s).Meets c post)
    (hwaitingAddressed : ∀ portIdx, s.portConfigPhase portIdx = .waitingAddressed →
      (processWaitingAddressed portIdx event s).Meets c post)
    (hconnected : post () s)
    (hdisconnected : ∀ portIdx, portIdx < s.numberOfPorts → portIdx < 256 →
      (s.portsc portIdx).currentConnectStatus = false →
      s.portConfigPhase portIdx ≠ .notConnected → s.portConfigPhase portIdx ≠ .resettingPort →
      s.portConfigPhase portIdx ≠ .waitingAddressed → (resetConnectionAt portIdx s).Meets c post) :
    (processPortStatusChangeEvent event s).Meets c post := by
  apply bind_meets
  apply ensure_meets mild (by simp)
  intro hid
  obtain ⟨portIdx, hport⟩ := Nat.exists_eq_add_of_lt hid
  rw [Nat.zero_add] at hport
  simp only [hport, Nat.add_sub_cancel]
  apply bind_meets
  apply readPort_meets mild
  intro hnumber
  apply bind_meets
  apply withLock_meets mild
  apply portPhaseAt_meets mild
  intro hindex
  rw [release_hold, hold_portConfigPhase]
  have hother : s.portConfigPhase portIdx ≠ .notConnected →
      s.portConfigPhase portIdx ≠ .resettingPort → s.portConfigPhase portIdx ≠ .waitingAddressed →
      ((if !(s.portsc portIdx).currentConnectStatus then resetConnectionAt portIdx
        else return () : Handler Unit) s).Meets c post := by
    intro h₁ h₂ h₃
    apply ite_meets
    · intro hconnecting
      exact hdisconnected portIdx hnumber hindex (by simpa using hconnecting) h₁ h₂ h₃
    · exact fun _ => hconnected
  cases hphase : s.portConfigPhase portIdx with
  | notConnected => exact hnotConnected portIdx hport hphase
  | resettingPort => exact hresettingPort portIdx hphase
  | waitingAddressed => exact hwaitingAddressed portIdx hphase
  | enablingSlot => exact hother (by simp [hphase]) (by simp [hphase]) (by simp [hphase])
  | addressingDevice => exact hother (by simp [hphase]) (by simp [hphase]) (by simp [hphase])
  | initializingDevice => exact hother (by simp [hphase]) (by simp [hphase]) (by simp [hphase])
  | configuringEndpoints => exact hother (by simp [hphase]) (by simp [hphase]) (by simp [hphase])
  | configured => exact hother (by simp [hphase]) (by simp [hphase]) (by simp [hphase])

theorem configurePortAt_meets {post : Unit → Controller → Prop} (hskip : post () s)
    (hreset : s.portConfigPhase portIdx = .notConnected → (resetPortAt portIdx s).Meets c post) :
    (configurePortAt portIdx s).Meets c post := by
  apply bind_meets
  apply withLock_meets mild
  apply bind_meets
  apply portPhaseAt_meets mild
  intro _
  rw [pure_apply, meets_done, release_hold]
  apply ite_meets
  · intro h
    exact hreset (by simpa using h)
  · exact fun _ => hskip

/-- A device behind a hub: two commands are awaited, then the device is initialised. -/
theorem processInitPortDeviceEvent_meets {event : InitPortDevice} {post : Unit → Controller → Prop}
    (henable : (s.portsc event.portIndex).Ready → c.waiting (.command s.commandIndex)
      ((s.setPhase event.portIndex .enablingSlot).issue .enableSlot))
    (hslot : ∀ completion t, c.resumed (.command s.commandIndex)
        ((s.setPhase event.portIndex .enablingSlot).issue .enableSlot)
        (.commandCompletion completion) t → completion.completionCode = success →
      ∀ e : Fault, e.SlotError → ¬ t.SlotFree completion.slotId → c.failing e)
    (haddress : ∀ completion t, (s.portsc event.portIndex).Ready →
      c.resumed (.command s.commandIndex) ((s.setPhase event.portIndex .enablingSlot).issue
        .enableSlot) (.commandCompletion completion) t →
      completion.completionCode = success → t.SlotFree completion.slotId →
      (awaitCompletion t.commandIndex ((((t.setSlots event.portIndex
        (some ((t.portSlotIdMap event.portIndex).getD [] ++ [completion.slotId]))).setDevice
        completion.slotId (some (t.addressed event.portIndex event.routing event.speed
          event.parentHubSlotId event.parentPortIndex))).setPhase
        event.portIndex .addressingDevice).issue (.addressDevice completion.slotId))).Meets c
      fun addressing t => (∀ slotId,
        t.commandAt addressing.commandTrbPointer = some (.addressDevice slotId) →
          (initializeDeviceAt event.portIndex completion.slotId t).Meets c post) ∧
        ((∀ slotId, t.commandAt addressing.commandTrbPointer ≠ some (.addressDevice slotId)) →
          post () t)) :
    (processInitPortDeviceEvent event s).Meets c post := by
  apply bind_meets
  apply enableSlotAt_meets mild
  intro _ _ hready
  apply bind_meets
  apply awaitCompletion_meets mild (henable hready)
  intro completion t hresumed
  apply bind_meets
  apply ensure_meets mild (by simp)
  intro hcode
  apply bind_meets
  apply addressDeviceAt_meets mild (hslot completion t hresumed hcode)
  intro hfree _
  apply bind_meets
  apply (haddress completion t hready hresumed hcode hfree).mono
  intro addressing u hu
  apply bind_meets
  apply ensure_meets mild (by simp)
  intro _
  apply get_bind_meets
  cases hcmd : u.commandAt addressing.commandTrbPointer with
  | none => exact hu.2 (by simp [hcmd])
  | some cmd =>
      cases cmd with
      | addressDevice slotId => exact hu.1 slotId hcmd
      | _ => exact hu.2 (by simp [hcmd])

theorem processUserEvent_meets {post : Unit → Controller → Prop}
    (hnone : s.userEvents = [] → post () s)
    (hsome : ∀ event events, s.userEvents = event :: events →
      (processInitPortDeviceEvent event (s.setUserEvents events)).Meets c post) :
    (processUserEvent s).Meets c post := by
  apply bind_meets
  apply popUserEvent_meets mild
  cases hevents : s.userEvents with
  | nil =>
      have hsame : s.setUserEvents [] = s := by rw [← hevents]; rfl
      simpa [hsame] using hnone hevents
  | cons event events => exact hsome event events hevents

theorem processEvent_meets {post : Unit → Controller → Prop} (hnone : s.events = [] → post () s)
    (hsome : ∀ event events, s.events = event :: events →
      (processEventRingEvent event (s.setEvents events)).Meets c post) :
    (processEvent s).Meets c post := by
  apply bind_meets
  apply withLock_meets mild
  apply withLock_meets mild
  apply get_bind_meets
  cases hevents : s.events with
  | nil =>
      have hsame : s.setEvents [] = s := by rw [← hevents]; rfl
      simpa [hevents, hsame] using hnone hevents
  | cons event events => simpa [hevents] using hsome event events hevents

theorem processOnceReceived_meets {post : Unit → Controller → Prop}
    (hnone : s.popped = [] → post () s)
    (hsome : ∀ event events, s.popped = events ++ [event] →
      (processEventRingEvent event (s.setPopped events)).Meets c post) :
    (processOnceReceived s).Meets c post := by
  apply bind_meets
  apply withLock_meets mild
  apply get_bind_meets
  obtain hpopped | ⟨events, event, hpopped⟩ := List.eq_nil_or_concat' s.popped
  · have hsame : s.setPopped [] = s := by rw [← hpopped]; rfl
    simpa [hpopped, hsame] using hnone hpopped
  · simpa [hpopped] using hsome event events hpopped

end Rules

end Controller

end LemolaOs.Xhci
