import LemolaOs.Xhci.Controller.PollForever

/-!
# The Device Context Base Address Array

The controller finds the context of a device through the array `device_contexts`, with one
address for each slot. `load_device_context` writes the address of the context that the
`DeviceContextInfo` in the slot owns. `deallocate_device` drops the info and with it the
context, and leaves the entry of the array as it is.

The state of the controller has no addresses, so they are kept beside it. Of the functions
that are called when devices come and go only `allocate_device` and `load_device_context`
touch them; `addressDeviceAt` is the function of the controller with these two in their
places (`addressDeviceAt_extends`).
-/

namespace LemolaOs.Xhci

open Controller Code Resumption

/-- Where `DeviceContextWrapper::new` may put a context. With this alignment the assertion
of `load_device_context` holds. -/
structure ContextAddress where
  address : Nat
  pos : 0 < address
  aligned : 64 ∣ address

structure DeviceContexts where
  /-- `device_contexts`, which the controller reads. -/
  array : Nat → Nat
  /-- The address of `device_context` in the info that was put in a slot last. -/
  context : Nat → Nat

/-- A handler that may also write addresses. -/
abbrev ContextHandler := Code (Controller × DeviceContexts) Future Event Fault

namespace DeviceContexts

/-- The info in the slot has its context there. -/
@[simps] def own (g : DeviceContexts) (slotId : Nat) (context : ContextAddress) : DeviceContexts :=
  { g with context := Function.update g.context slotId context.address }

@[simps] def load (g : DeviceContexts) (slotId : Nat) : DeviceContexts :=
  { g with array := Function.update g.array slotId (g.context slotId) }

/-- A guard that lives for one block. -/
def guarded {α : Type} (m : Mutex) (body : ContextHandler α) : ContextHandler α := do
  (lock m).withHistory
  let a ← body
  (unlock m).withHistory
  return a

/-- `DeviceManager::allocate_device`. -/
def allocateDevice (portIndex slotId routing : Nat) (context : ContextAddress) :
    ContextHandler Unit := do
  (Controller.allocateDevice portIndex slotId routing).withHistory
  modify fun x => (x.1, x.2.own slotId context)

/-- `DeviceManager::load_device_context`. -/
def loadDeviceContext (slotId : Nat) : ContextHandler Unit := do
  (Controller.loadDeviceContext slotId).withHistory
  modify fun x => (x.1, x.2.load slotId)

/-- `address_device_at`. -/
def addressDeviceAt (portIndex slotId routing speed : Nat)
    (parentHubSlotId parentPortIndex : Option Nat) (context : ContextAddress) :
    ContextHandler Nat := do
  (withLock .portSlotIdMap do
    modify fun s =>
      s.setSlots portIndex (some ((s.portSlotIdMap portIndex).getD [] ++ [slotId]))).withHistory
  allocateDevice portIndex slotId routing context
  (withDevice slotId fun device => ensure device.isSome .assertion).withHistory
  guarded .registers do
    let portsc ← (readVolatileAt portIndex).withHistory
    (withDevice slotId fun device => do
      let device ← unwrapDevice device
      -- `port_index as u8 + 1`
      ensure (portIndex % 256 < 255) .overflow
      modify (·.setDevice slotId (some { device with
        routeString := routing % 2 ^ 18
        rootHubPortNumber := portIndex % 256 + 1
        speed := if speed = 5 then portsc.portSpeed else speed
        parentHubSlotId := parentHubSlotId
        parentPortIndex := parentPortIndex }))).withHistory
    loadDeviceContext slotId
    (withLock .portConfigureState do
      setPortPhaseAt portIndex .addressingDevice
      withDevice slotId fun device => ensure device.isSome .assertion
      withLock .commandRing (pushCommand (.addressDevice slotId))).withHistory

/-- The context that the info in a slot owns. -/
def owned (x : Controller × DeviceContexts) (slotId : Nat) : Option Nat :=
  (x.1.device slotId).map fun _ => x.2.context slotId

/-- Behind the first entry, which belongs to the scratchpad buffers, the array has only
addresses of contexts that are owned by the info in their slot. -/
def NoneDangling (x : Controller × DeviceContexts) : Prop :=
  ∀ slotId, 1 ≤ slotId → x.2.array slotId ≠ 0 → owned x slotId = some (x.2.array slotId)

/-- The device behind a hub gets an address, and is initialised by the same handler. -/
def attach (device : InitPortDevice) (slotId : Nat) (context : ContextAddress) :
    ContextHandler Unit := do
  let trbPtr ← addressDeviceAt device.portIndex slotId device.routing device.speed
    device.parentHubSlotId device.parentPortIndex context
  let _ ← (awaitCompletion trbPtr).withHistory
  (initializeDeviceAt device.portIndex slotId).withHistory

/-- The handlers by which devices come and go. A device at a root port gets its address when
its slot has been enabled, and is initialised when its address has been set. -/
inductive Hotplug where
  | attach (device : InitPortDevice) (slotId : Nat) (context : ContextAddress)
  | addressDevice (device : InitPortDevice) (slotId : Nat) (context : ContextAddress)
  | initializeDevice (portIdx slotId : Nat)
  | disconnect (portIdx : Nat)

def Hotplug.run : Hotplug → ContextHandler Unit
  | .attach device slotId context => DeviceContexts.attach device slotId context
  | .addressDevice device slotId context => do
      let _ ← addressDeviceAt device.portIndex slotId device.routing device.speed
        device.parentHubSlotId device.parentPortIndex context
  | .initializeDevice portIdx slotId => (initializeDeviceAt portIdx slotId).withHistory
  | .disconnect portIdx => (resetConnectionAt portIdx).withHistory

/-- The hardware and the other tasks: devices and addresses stay. -/
structure SameContexts (x y : Controller × DeviceContexts) : Prop where
  device : y.1.device = x.1.device
  contexts : y.2 = x.2

/-- Attachments and disconnections in any order. -/
def hotplugging : Scheduler (Controller × DeviceContexts) Future Event Fault Hotplug where
  start := Hotplug.run
  poll future x := ((pollFuture future x.1).1, (pollFuture future x.1).2, x.2)
  env := SameContexts

/-- Handlers wait in the states `J` only. -/
def waitingIn (J : Controller × DeviceContexts → Prop) :
    Protocol (Controller × DeviceContexts) Future Event Fault where
  waiting _ x := J x
  resumed _ x _ y := SameContexts x y
  failing _ := True

theorem waitingIn_mild (J : Controller × DeviceContexts → Prop) (g : DeviceContexts) :
    Mild ((waitingIn J).at g) := fun _ _ => trivial

/-- No slot of the port has an address in the array. -/
def NoneLoaded (x : Controller × DeviceContexts) (portIdx : Nat) : Prop :=
  ∀ slotId ∈ (x.1.portSlotIdMap portIdx).getD [], slotId = 0 ∨ x.2.array slotId = 0

section Extends

variable {α : Type} {s : Controller} {g g' : DeviceContexts}

theorem guarded_extends {m : Mutex} {body : ContextHandler α} {body' : Handler α}
    (h : ∀ s, (body (s, g)).Extends g' (body' s)) :
    (guarded m body (s, g)).Extends g' (withLock m body' s) := by
  refine (Extends.withHistory _ g).bind fun _ s => ?_
  refine (h s).bind fun a s => ?_
  exact (Extends.withHistory _ g').bind fun _ s => .done a s

theorem allocateDevice_extends (portIndex slotId routing : Nat) (context : ContextAddress) :
    (allocateDevice portIndex slotId routing context (s, g)).Extends (g.own slotId context)
      (Controller.allocateDevice portIndex slotId routing s) :=
  (Extends.withHistory _ g).update fun g => g.own slotId context

theorem loadDeviceContext_extends (slotId : Nat) :
    (loadDeviceContext slotId (s, g)).Extends (g.load slotId)
      (Controller.loadDeviceContext slotId s) :=
  (Extends.withHistory _ g).update fun g => g.load slotId

/-- The function is that of the controller, and the context of the device gets into the
array. -/
theorem addressDeviceAt_extends (portIndex slotId routing speed : Nat)
    (parentHubSlotId parentPortIndex : Option Nat) (context : ContextAddress) :
    (addressDeviceAt portIndex slotId routing speed parentHubSlotId parentPortIndex context
      (s, g)).Extends ((g.own slotId context).load slotId)
      (Controller.addressDeviceAt portIndex slotId routing speed parentHubSlotId parentPortIndex
        s) := by
  refine (Extends.withHistory _ g).bind fun _ s => ?_
  refine (allocateDevice_extends portIndex slotId routing context).bind fun _ s => ?_
  refine (Extends.withHistory _ _).bind fun _ s => ?_
  refine guarded_extends fun s => ?_
  refine (Extends.withHistory _ _).bind fun portsc s => ?_
  refine (Extends.withHistory _ _).bind fun _ s => ?_
  refine (loadDeviceContext_extends slotId).bind fun _ s => ?_
  exact Extends.withHistory _ _

end Extends

variable {s t : Controller} {g : DeviceContexts} {x y : Controller × DeviceContexts}
  {J : Controller × DeviceContexts → Prop} {slotId portIdx : Nat}

theorem SameContexts.trans {z : Controller × DeviceContexts} (hxy : SameContexts x y)
    (hyz : SameContexts y z) : SameContexts x z :=
  ⟨hyz.device.trans hxy.device, hyz.contexts.trans hxy.contexts⟩

theorem NoneDangling.congr (h : NoneDangling x) (hsame : SameContexts x y) : NoneDangling y := by
  rw [NoneDangling, hsame.contexts]
  simpa only [NoneDangling, owned, hsame.device, hsame.contexts] using h

/-- A new device has its context in the array. -/
theorem NoneDangling.address (h : NoneDangling (s, g)) (context : ContextAddress)
    (hdevice : t.device slotId ≠ none)
    (hother : ∀ other, other ≠ slotId → t.device other = s.device other) :
    NoneDangling (t, (g.own slotId context).load slotId) := by
  intro other hpos harray
  by_cases hne : other = slotId
  · subst hne
    obtain ⟨device, hdevice⟩ := Option.ne_none_iff_exists'.mp hdevice
    simp [owned, hdevice]
  · have howned := h other hpos (by simpa [Function.update_of_ne hne] using harray)
    simpa [owned, hother other hne, Function.update_of_ne hne] using howned

/-- Freeing slots leaves the addresses of their contexts behind. -/
theorem noneDangling_free_iff {slotIds : List Nat} (h : NoneDangling (s, g))
    (hdevice : ∀ slotId, t.device slotId = if slotId ∈ slotIds then none else s.device slotId) :
    NoneDangling (t, g) ↔ ∀ slotId ∈ slotIds, slotId = 0 ∨ g.array slotId = 0 := by
  constructor
  · intro ht slotId hmem
    by_contra hloaded
    rw [not_or] at hloaded
    have howned := ht slotId (Nat.one_le_iff_ne_zero.mpr hloaded.1) hloaded.2
    simp [owned, hdevice, hmem] at howned
  · intro hfree slotId hpos harray
    have hmem : slotId ∉ slotIds := by
      intro hmem
      obtain hzero | hzero := hfree slotId hmem
      · omega
      · exact harray hzero
    have howned := h slotId hpos harray
    simpa [owned, hdevice, hmem] using howned

theorem addressDeviceAt_noneDangling {portIndex routing speed : Nat}
    {parentHubSlotId parentPortIndex : Option Nat} {context : ContextAddress}
    (h : NoneDangling (s, g)) :
    (addressDeviceAt portIndex slotId routing speed parentHubSlotId parentPortIndex context
      (s, g)).Meets (waitingIn J) fun _ y => NoneDangling y := by
  -- the function does not wait
  let silent : Protocol Controller Future Event Fault := ⟨fun _ _ => False, fun _ _ _ _ => True,
    fun _ => True⟩
  have hcontroller : (Controller.addressDeviceAt portIndex slotId routing speed parentHubSlotId
      parentPortIndex s).Meets silent fun _ t => t.device slotId ≠ none ∧
        ∀ other, other ≠ slotId → t.device other = s.device other := by
    refine addressDeviceAt_meets (fun _ _ => trivial) (fun _ _ _ => trivial) fun _ _ => ?_
    exact ⟨by simp, fun other hne => by simp [Function.update_of_ne hne]⟩
  have hextends := addressDeviceAt_extends (s := s) (g := g) portIndex slotId routing speed
    parentHubSlotId parentPortIndex context
  refine (hextends.meets hcontroller (fun _ _ => id) fun _ _ => trivial).mono ?_
  rintro _ ⟨t, _⟩ ⟨rfl, hdevice, hother⟩
  exact h.address context hdevice hother

theorem initializeDeviceAt_noneDangling (h : NoneDangling (s, g)) :
    (initializeDeviceAt portIdx slotId s).Meets ((waitingIn NoneDangling).at g) fun _ t =>
      NoneDangling (t, g) := by
  apply initializeDeviceAt_meets (waitingIn_mild _ g) (I := fun _ t => NoneDangling (t, g))
  · intro op _ t ht
    cases op with
    | registers => exact ht
    | command cmd => exact ⟨ht.congr ⟨rfl, rfl⟩, fun _ u hsame => ht.congr ⟨hsame.device, rfl⟩⟩
    | transfer waitOn => exact ⟨ht, fun _ u hsame => ht.congr hsame⟩
    | assignAddress device => exact ht.congr ⟨rfl, rfl⟩
    | addDevice kind address => exact fun _ => ht.congr ⟨rfl, rfl⟩
    | unwrapFailed => trivial
  · exact fun _ _ => h.congr ⟨rfl, rfl⟩
  · exact fun t ht => ht.congr ⟨rfl, rfl⟩

/-- A disconnection frees the slots of the port one after the other. -/
theorem resetConnectionAt_frees
    (hwaiting : ∀ t freed rest, (s.portSlotIdMap portIdx).getD [] = freed ++ rest →
      (∀ slotId, t.device slotId = if slotId ∈ freed then none else s.device slotId) → J (t, g)) :
    (resetConnectionAt portIdx s).Meets ((waitingIn J).at g) fun _ t => ∀ slotId,
      t.device slotId = if slotId ∈ (s.portSlotIdMap portIdx).getD [] then none
        else s.device slotId := by
  apply resetConnectionAt_meets (waitingIn_mild J g)
    (I := fun slotIds t => ∃ freed, (s.portSlotIdMap portIdx).getD [] = freed ++ slotIds ∧
      ∀ slotId, t.device slotId = if slotId ∈ freed then none else s.device slotId)
  · rintro slotId slotIds t ⟨freed, hfreed, hdevice⟩
    exact hwaiting _ freed _ hfreed hdevice
  · rintro slotId slotIds t completion u ⟨freed, hfreed, hdevice⟩ hsame
    refine ⟨freed, hfreed, ?_⟩
    rw [show u.device = t.device from hsame.device]
    exact hdevice
  · rintro slotId slotIds t ⟨freed, hfreed, hdevice⟩ _
    refine ⟨freed ++ [slotId], by simp [hfreed], ?_⟩
    intro other
    by_cases hne : other = slotId
    · simp [hne]
    · simpa [Function.update_of_ne hne, hne] using hdevice other
  · exact fun _ _ _ _ _ _ _ => trivial
  · exact ⟨[], rfl, by simp⟩
  · rintro t ⟨freed, hfreed, hdevice⟩
    rw [List.append_nil] at hfreed
    rw [hfreed]
    exact hdevice

theorem withHistory_waitingIn {α : Type} {handler : Handler α}
    {post : α → Controller × DeviceContexts → Prop}
    (h : (handler s).Meets ((waitingIn J).at g) fun a t => post a (t, g)) :
    ((handler.withHistory : ContextHandler α) (s, g)).Meets (waitingIn J) post :=
  withHistory_meets (fun _ _ _ _ (hsame : SameContexts _ _) => hsame.contexts) h

/-- A handler leaves none dangling, if it disconnects no port with addresses in the array. -/
theorem Hotplug.run_noneDangling {hotplug : Hotplug} (h : NoneDangling x)
    (hok : ∀ portIdx, hotplug = .disconnect portIdx → NoneLoaded x portIdx) :
    (hotplug.run x).Meets (waitingIn NoneDangling) fun _ y => NoneDangling y := by
  obtain ⟨s, g⟩ := x
  cases hotplug with
  | attach device slotId context =>
      apply bind_meets
      apply (addressDeviceAt_noneDangling h).mono
      rintro trbPtr ⟨t, g'⟩ ht
      apply bind_meets
      apply withHistory_waitingIn
      apply awaitCompletion_meets (waitingIn_mild NoneDangling g') ht
      intro _ u hsame
      exact withHistory_waitingIn (initializeDeviceAt_noneDangling (ht.congr hsame))
  | addressDevice device slotId context =>
      apply bind_meets
      exact addressDeviceAt_noneDangling h
  | initializeDevice portIdx slotId =>
      exact withHistory_waitingIn (initializeDeviceAt_noneDangling h)
  | disconnect portIdx =>
      apply withHistory_waitingIn
      have hfree := hok portIdx rfl
      apply (resetConnectionAt_frees ?_).mono
      · exact fun _ t hdevice => (noneDangling_free_iff h hdevice).mpr hfree
      · intro t freed rest hslots hdevice
        refine (noneDangling_free_iff h hdevice).mpr fun slotId hmem => hfree slotId ?_
        rw [hslots]
        exact List.mem_append_left rest hmem

theorem hotplugging_poll {future : Future} {answer : Option Event}
    (hpoll : hotplugging.poll future x = (answer, y)) : SameContexts x y := by
  obtain ⟨events, popped, hstate⟩ := pollFuture_state future x.1
  simp only [hotplugging, Prod.mk.injEq, hstate] at hpoll
  obtain ⟨_, rfl⟩ := hpoll
  exact ⟨rfl, rfl⟩

theorem hotplugging_respects (hJ : ∀ x y, J x → SameContexts x y → J y) :
    hotplugging.Respects (waitingIn J) J :=
  Scheduler.respects_of_same SameContexts SameContexts.trans id hotplugging_poll Iff.rfl
    (hJ _ _) (hJ _ _)

/-- A disconnection that has come to its end. -/
theorem disconnect_noneDangling_iff
    {y : Scheduled (Controller × DeviceContexts) Future Event Fault} (h : NoneDangling x)
    (hy : hotplugging.Handling (fun _ _ => True) (.disconnect portIdx) x y)
    (hidle : y.task = .idle) : NoneDangling y.state ↔ NoneLoaded x portIdx := by
  obtain ⟨s, g⟩ := x
  have hok : Scheduler.Ok (waitingIn fun _ => True) (fun y => y.2 = g ∧ ∀ slotId,
      y.1.device slotId = if slotId ∈ (s.portSlotIdMap portIdx).getD [] then none
        else s.device slotId) y := by
    refine hy.returns ((hotplugging_respects fun _ _ _ _ => trivial).when _) ?_
    apply withHistory_waitingIn
    apply (resetConnectionAt_frees fun _ _ _ _ _ => trivial).mono
    exact fun _ t hdevice => ⟨rfl, hdevice⟩
  obtain ⟨⟨t, g'⟩, task⟩ := y
  cases hidle
  obtain ⟨rfl, hdevice⟩ := hok
  exact noneDangling_free_iff h hdevice

/-- No disconnection of the run finds addresses in the array for the slots of its port. -/
def DisconnectsUnloaded (x : Scheduled (Controller × DeviceContexts) Future Event Fault) :
    Scheduler.Label Hotplug → Prop
  | .start (.disconnect portIdx) => NoneLoaded x.state portIdx
  | _ => True

/-- A new controller with an array that is zero behind the first entry. -/
def Unloaded (x : Controller × DeviceContexts) : Prop :=
  Fresh x.1 ∧ ∀ slotId, 1 ≤ slotId → x.2.array slotId = 0

/-- In every run in which no port with addresses in the array is disconnected, none dangles.
A disconnection that has come to its end leaves none dangling exactly if the port had none. -/
theorem contexts_not_dangling
    (x y : Scheduled (Controller × DeviceContexts) Future Event Fault) (portIdx : Nat) :
    (((hotplugging.system Unloaded).guard DisconnectsUnloaded).Reachable x →
      (∀ e, x.task ≠ .failed e) → NoneDangling x.state) ∧
    (NoneDangling x.state →
      hotplugging.Handling (fun _ _ => True) (.disconnect portIdx) x.state y → y.task = .idle →
      (NoneDangling y.state ↔ NoneLoaded x.state portIdx)) := by
  refine ⟨?_, disconnect_noneDangling_iff⟩
  intro hx hobserved
  have hok := Scheduler.reachable_ok
    (hotplugging_respects fun _ _ (h : NoneDangling _) hsame => h.congr hsame)
    (fun x hx slotId hpos harray => absurd (hx.2 slotId hpos) harray)
    (fun x hotplug h hok => Hotplug.run_noneDangling h ?_) hx
  swap
  · rintro portIdx rfl
    exact hok
  exact hok.observed hobserved (fun _ => id) fun _ _ => id

/-- A device at the first root port gets an address in slot 1. -/
def addressFirst : Hotplug :=
  .addressDevice ⟨0, 0, 5, none, none⟩ 1 ⟨0x2000, by decide, by decide⟩

def unloaded : Scheduled (Controller × DeviceContexts) Future Event Fault :=
  ⟨(detached 1 fun _ => [], ⟨fun _ => 0, fun _ => 0⟩), .idle⟩

theorem contexts_not_dangling_first :
    let x := hotplugging.started addressFirst unloaded
    x.state.2.array 1 = 0x2000 ∧ NoneDangling x.state := by
  intro x
  have h₀ : ((hotplugging.system Unloaded).guard DisconnectsUnloaded).Reachable unloaded :=
    .init ⟨⟨⟨_, _, _, _, _, rfl⟩, fun _ _ => rfl⟩, rfl⟩
  have h₁ := Scheduler.guard_reachable_started (i := addressFirst) h₀ trivial
  have hobserved : x.failure = none := by decide +kernel
  exact ⟨by decide +kernel,
    (contexts_not_dangling x x 0).1 h₁ (Scheduled.not_failed hobserved)⟩

theorem sameContexts_setEvents (x : Controller × DeviceContexts) (events : List Event) :
    SameContexts x (x.1.setEvents events, x.2) :=
  ⟨rfl, rfl⟩

/-- The device is unplugged, and the `DisableSlot` command is answered. -/
def unplugFirst (x : Scheduled (Controller × DeviceContexts) Future Event Fault) :
    Scheduled (Controller × DeviceContexts) Future Event Fault :=
  let waiting := hotplugging.started (.disconnect 0) x
  hotplugging.polled
    ⟨(waiting.state.1.setEvents [.commandCompletion ⟨1, 1, 1⟩], waiting.state.2), waiting.task⟩

/-- The array still has the address of the context. -/
theorem unplugged_context_dangling :
    ¬ ∀ x, (hotplugging.system Unloaded).Reachable x → (∀ e, x.task ≠ .failed e) →
      NoneDangling x.state := by
  intro h
  have h₀ : (hotplugging.system Unloaded).Reachable unloaded :=
    .init ⟨⟨⟨_, _, _, _, _, rfl⟩, fun _ _ => rfl⟩, rfl⟩
  have h₁ := Scheduler.reachable_started addressFirst h₀
  have h₂ := Scheduler.reachable_started (Hotplug.disconnect 0) h₁
  have h₃ := Scheduler.reachable_env h₂
    (sameContexts_setEvents _ [.commandCompletion ⟨1, 1, 1⟩])
  have h₄ : (hotplugging.system Unloaded).Reachable
      (unplugFirst (hotplugging.started addressFirst unloaded)) :=
    Scheduler.reachable_polled h₃
  have hnone := h _ h₄ (Scheduled.not_failed (by decide +kernel)) 1 le_rfl (by decide +kernel)
  exact absurd hnone (by decide +kernel)

end DeviceContexts

end LemolaOs.Xhci
