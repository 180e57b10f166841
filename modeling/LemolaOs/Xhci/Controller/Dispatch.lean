import LemolaOs.Xhci.Controller.PollForever

/-!
# Reports go to the driver of their device

Devices are attached (`address_device_at`, then `start_initialization`, which
registers keyboards and mice with the class drivers) and disconnected with their root
port (`reset_connection_at`, which frees the slots for later devices). `driver_kind`
is in step with the slots if it names the driver with which the device in a slot was
registered, and no driver for an empty slot.

A class driver knows one slot, and nobody resets it. So a device must not take the
slot of another one of its kind, a keyboard must not also be a mouse, and a
registered device must not be disconnected; every other step stays in step.

The registrations of the devices are a history variable: no code reads it.
-/

namespace LemolaOs.Xhci.Controller

open Code Resumption Usb.ClassDriverManager

/-- The class drivers with which an initialisation registers its device. -/
def registrations (ops : List HostOp) : List Usb.DriverKind :=
  ops.filterMap fun op =>
    match op with
    | .addDevice kind _ => some kind
    | _ => none

/-- The registrations of the initialised device in each slot. -/
abbrev History := Nat → Option (List Usb.DriverKind)

/-- A device gets a slot and an address, and is initialised. -/
def attach (device : InitPortDevice) (slotId : Nat) (ops : List HostOp) : Handler Unit := do
  modify (·.setInitialization slotId ops)
  let trbPtr ← addressDeviceAt device.portIndex slotId device.routing device.speed
    device.parentHubSlotId device.parentPortIndex
  let _ ← awaitCompletion trbPtr
  initializeDeviceAt device.portIndex slotId

inductive Plug where
  | attach (device : InitPortDevice) (slotId : Nat) (ops : List HostOp)
  | disconnect (portIdx : Nat)

/-- The handler, and then the record of what it did. -/
def Plug.run : Plug → Code (Controller × History) Future Event Fault Unit
  | .attach device slotId ops => do
      (Controller.attach device slotId ops).withHistory
      modify fun x => (x.1, Function.update x.2 slotId (some (registrations ops)))
  | .disconnect portIdx => do
      (resetConnectionAt portIdx).withHistory
      modify fun x => (x.1, fun slotId => if x.1.device slotId = none then none else x.2 slotId)

/-- `driver_kind` is in step with the slots. -/
structure InStep (x : Controller × History) : Prop where
  empty : ∀ slotId, x.1.device slotId = none → x.1.classDrivers.driverKind slotId = none
  mouse : ∀ slotId kinds, x.1.device slotId ≠ none → x.2 slotId = some kinds →
    (x.1.classDrivers.driverKind slotId = some .mouse ↔ .mouse ∈ kinds)
  keyboard : ∀ slotId kinds, x.1.device slotId ≠ none → x.2 slotId = some kinds →
    (x.1.classDrivers.driverKind slotId = some .keyboard ↔ .keyboard ∈ kinds)

/-- The hardware and the other tasks: devices, slots and class drivers stay. -/
structure SameDevices (x y : Controller × History) : Prop where
  device : y.1.device = x.1.device
  slots : y.1.portSlotIdMap = x.1.portSlotIdMap
  classDrivers : y.1.classDrivers = x.1.classDrivers
  initialization : y.1.initialization = x.1.initialization
  history : y.2 = x.2

/-- Handlers wait only while the drivers are in step. -/
def dispatch : Protocol (Controller × History) Future Event Fault where
  waiting _ x := InStep x
  resumed _ x _ y := SameDevices x y
  failing _ := True

theorem dispatch_tame (h : History) : Tame (dispatch.at h) := fun _ _ => trivial

/-- Attachments and disconnections in any order. -/
def plugging : Scheduler (Controller × History) Future Event Fault Plug where
  start := Plug.run
  poll future x := ((pollFuture future x.1).1, (pollFuture future x.1).2, x.2)
  env := SameDevices

/-- Between handlers an empty slot has no history. -/
structure Tidy (x : Controller × History) : Prop where
  inStep : InStep x
  empty : ∀ slotId, x.1.device slotId = none → x.2 slotId = none

variable {s t : Controller} {h : History} {slotId : Nat} {x y : Controller × History}

theorem InStep.congr (hx : InStep x) (hdevice : y.1.device = x.1.device)
    (hdrivers : y.1.classDrivers = x.1.classDrivers) (hhistory : y.2 = x.2) : InStep y := by
  obtain ⟨hempty, hmouse, hkeyboard⟩ := hx
  refine ⟨?_, ?_, ?_⟩
  · rw [hdevice, hdrivers]
    exact hempty
  · rw [hdevice, hdrivers, hhistory]
    exact hmouse
  · rw [hdevice, hdrivers, hhistory]
    exact hkeyboard

theorem SameDevices.trans {z : Controller × History} (hxy : SameDevices x y)
    (hyz : SameDevices y z) : SameDevices x z :=
  ⟨hyz.device.trans hxy.device, hyz.slots.trans hxy.slots,
    hyz.classDrivers.trans hxy.classDrivers, hyz.initialization.trans hxy.initialization,
    hyz.history.trans hxy.history⟩

/-- The device in `slotId` is new and has been registered with `kinds` so far. -/
structure Registered (s : Controller) (slotId : Nat) (kinds : List Usb.DriverKind)
    (t : Controller) : Prop where
  device : t.device slotId ≠ none
  other : ∀ other, other ≠ slotId → t.device other = s.device other
  mouse : t.classDrivers.mouse.slotId =
    if .mouse ∈ kinds then some slotId else s.classDrivers.mouse.slotId
  keyboard : t.classDrivers.keyboard.slotId =
    if .keyboard ∈ kinds then some slotId else s.classDrivers.keyboard.slotId

/-- No driver loses the slot of another device to these registrations, and only one driver is
concerned. -/
structure Welcome (s : Controller) (kinds : List Usb.DriverKind) : Prop where
  one : ¬ (.mouse ∈ kinds ∧ .keyboard ∈ kinds)
  mouse : .mouse ∈ kinds → s.classDrivers.mouse.slotId = none
  keyboard : .keyboard ∈ kinds → s.classDrivers.keyboard.slotId = none

theorem Welcome.mono {kinds kinds' : List Usb.DriverKind} (hwelcome : Welcome s kinds)
    (hsub : kinds' ⊆ kinds) : Welcome s kinds' :=
  ⟨fun hboth => hwelcome.one ⟨hsub hboth.1, hsub hboth.2⟩, fun hm => hwelcome.mouse (hsub hm),
    fun hk => hwelcome.keyboard (hsub hk)⟩

/-- A registration leaves the drivers of the other slots alone. -/
theorem Registered.driverKind_of_ne {kinds : List Usb.DriverKind} (hr : Registered s slotId kinds t)
    (hwelcome : Welcome s kinds) {other : Nat} (hne : other ≠ slotId) :
    t.classDrivers.driverKind other = s.classDrivers.driverKind other := by
  have hself : some slotId ≠ some other := fun heq => hne (Option.some_injective _ heq).symm
  apply driverKind_congr
  · rw [hr.mouse]
    split
    next hm => simp [hself, hwelcome.mouse hm]
    next => exact Iff.rfl
  · rw [hr.keyboard]
    split
    next hk => simp [hself, hwelcome.keyboard hk]
    next => exact Iff.rfl

/-- A new device has the driver with which it was registered. -/
theorem Registered.inStep {kinds : List Usb.DriverKind} {h' : History}
    (hr : Registered s slotId kinds t)
    (hwelcome : Welcome s kinds) (hstep : InStep (s, h)) (hnone : s.device slotId = none)
    (hhistory : h' = h ∧ h slotId = none ∨ h' = Function.update h slotId (some kinds)) :
    InStep (t, h') := by
  have hempty := driverKind_eq_none_iff.mp (hstep.empty slotId hnone)
  have hother {other : Nat} (hne : other ≠ slotId) : h' other = h other := by
    obtain ⟨rfl, _⟩ | rfl := hhistory
    · rfl
    · exact Function.update_of_ne hne _ _
  have hself {kinds' : List Usb.DriverKind} (hkinds : h' slotId = some kinds') :
      kinds' = kinds := by
    obtain ⟨rfl, hnone⟩ | rfl := hhistory
    · rw [hnone] at hkinds
      cases hkinds
    · rw [Function.update_self] at hkinds
      exact (Option.some_injective _ hkinds).symm
  refine ⟨?_, ?_, ?_⟩
  · intro other hdevice
    have hne : other ≠ slotId := by
      rintro rfl
      exact hr.device hdevice
    rw [hr.driverKind_of_ne hwelcome hne]
    exact hstep.empty other ((hr.other other hne).symm.trans hdevice)
  · intro other kinds' hdevice hkinds
    by_cases hne : other = slotId
    · subst hne
      rw [hself hkinds, driverKind_eq_mouse_iff, hr.mouse]
      split
      next hm => simp [hm]
      next hm => simp [hm, hempty.1]
    · rw [hr.driverKind_of_ne hwelcome hne]
      exact hstep.mouse other kinds' ((hr.other other hne) ▸ hdevice)
        ((hother hne).symm.trans hkinds)
  · intro other kinds' hdevice hkinds
    by_cases hne : other = slotId
    · subst hne
      rw [hself hkinds, driverKind_eq_keyboard_iff, hr.mouse, hr.keyboard]
      have hone := hwelcome.one
      by_cases hm : .mouse ∈ kinds
      · simp [hm] at hone ⊢
        exact hone
      · by_cases hk : .keyboard ∈ kinds
        · simp [hm, hk, hempty.1]
        · simp [hm, hk, hempty.2]
    · rw [hr.driverKind_of_ne hwelcome hne]
      exact hstep.keyboard other kinds' ((hr.other other hne) ▸ hdevice)
        ((hother hne).symm.trans hkinds)

theorem Registered.congr {kinds : List Usb.DriverKind} {u : Controller}
    (hr : Registered s slotId kinds t) (hdevice : u.device = t.device)
    (hdrivers : u.classDrivers = t.classDrivers) : Registered s slotId kinds u := by
  obtain ⟨hnew, hother, hmouse, hkeyboard⟩ := hr
  refine ⟨?_, ?_, ?_, ?_⟩
  · rwa [hdevice]
  · rwa [hdevice]
  · rwa [hdrivers]
  · rwa [hdrivers]

theorem registrations_concat (ops : List HostOp) (op : HostOp) :
    registrations (ops ++ [op]) = registrations ops ++ registrations [op] :=
  List.filterMap_append

/-- A registration. -/
theorem Registered.addDevice {kinds : List Usb.DriverKind} (hr : Registered s slotId kinds t)
    (kind : Usb.DriverKind) (address : Nat) :
    Registered s slotId (kinds ++ [kind])
      (t.setClassDrivers (t.classDrivers.addDevice kind slotId address).2) where
  device := hr.device
  other := hr.other
  mouse := by
    rw [setClassDrivers_classDrivers, addDevice_mouse_slotId, hr.mouse]
    cases kind <;> simp
  keyboard := by
    rw [setClassDrivers_classDrivers, addDevice_keyboard_slotId, hr.keyboard]
    cases kind <;> simp

section Attach

variable {ops : List HostOp} (htidy : Tidy (s, h)) (hwelcome : Welcome s (registrations ops))
  (hnone : s.device slotId = none)

include htidy hwelcome hnone

/-- Some of the steps of the initialisation have been taken. -/
theorem Registered.waiting {past future : List HostOp} (hops : ops = past ++ future)
    (hr : Registered s slotId (registrations past) t) : InStep (t, h) := by
  apply hr.inStep (hwelcome.mono ?_) htidy.inStep hnone (.inl ⟨rfl, htidy.empty slotId hnone⟩)
  rw [hops, registrations, registrations, List.filterMap_append]
  exact List.subset_append_left _ _

theorem hostOpOk_dispatch {op : HostOp} {past future : List HostOp}
    (hops : ops = past ++ op :: future) (hr : Registered s slotId (registrations past) t) :
    HostOpOk (dispatch.at h) slotId t
      (fun u => ∃ past, ops = past ++ future ∧ Registered s slotId (registrations past) u) op := by
  have hwait : InStep (t, h) := hr.waiting htidy hwelcome hnone hops
  have hnext {u : Controller}
      (hu : Registered s slotId (registrations past ++ registrations [op]) u) :
      ∃ past, ops = past ++ future ∧ Registered s slotId (registrations past) u :=
    ⟨past ++ [op], by simp [hops], by rwa [registrations_concat]⟩
  have hother (hop : registrations [op] = []) {u : Controller} (hdevice : u.device = t.device)
      (hdrivers : u.classDrivers = t.classDrivers) :
      ∃ past, ops = past ++ future ∧ Registered s slotId (registrations past) u := by
    apply hnext
    rw [hop, List.append_nil]
    exact hr.congr hdevice hdrivers
  cases op with
  | registers => exact hother rfl rfl rfl
  | command cmd =>
      exact ⟨hwait.congr rfl rfl rfl, fun _ u hsame =>
        hother rfl hsame.device hsame.classDrivers⟩
  | transfer waitOn =>
      exact ⟨hwait, fun _ u hsame => hother rfl hsame.device hsame.classDrivers⟩
  | assignAddress device => exact hother rfl rfl rfl
  | addDevice kind address => exact fun _ => hnext (hr.addDevice kind address)
  | unwrapFailed => trivial

end Attach

theorem attach_dispatch {ops : List HostOp} {device : InitPortDevice} (htidy : Tidy (s, h))
    (hwelcome : Welcome s (registrations ops)) :
    (attach device slotId ops s).Meets (dispatch.at h) fun _ t =>
      s.device slotId = none ∧ Registered s slotId (registrations ops) t := by
  apply bind_meets
  apply bind_meets
  apply addressDeviceAt_meets (dispatch_tame h).mild
  · exact fun _ he _ => (dispatch_tame h).slotError he
  intro ⟨_, hnone⟩ _
  have hnew : Registered s slotId [] ((((((s.setInitialization slotId ops).setSlots device.portIndex
      (some (((s.setInitialization slotId ops).portSlotIdMap device.portIndex).getD [] ++
        [slotId]))).setDevice slotId (some ((s.setInitialization slotId ops).addressed
        device.portIndex device.routing device.speed device.parentHubSlotId
        device.parentPortIndex)))).setPhase device.portIndex .addressingDevice).issue
        (.addressDevice slotId)) :=
    ⟨by simp, fun other hne => by simp [Function.update_of_ne hne], by simp, by simp⟩
  apply bind_meets
  apply awaitCompletion_meets (dispatch_tame h).mild
  · exact Registered.waiting htidy hwelcome hnone (show ops = [] ++ ops from rfl) hnew
  · intro completion t hsame
    have hr : Registered s slotId [] t := hnew.congr hsame.device hsame.classDrivers
    have hplan : t.initialization slotId = ops := by
      rw [hsame.initialization]
      simp
    apply initializeDeviceAt_meets (dispatch_tame h).mild
      (I := fun rest u => ∃ past, ops = past ++ rest ∧ Registered s slotId (registrations past) u)
    · rintro op rest u ⟨past, hops, hu⟩
      exact hostOpOk_dispatch htidy hwelcome hnone hops hu
    · intro _ _
      exact ⟨[], hplan.symm, hr.congr rfl rfl⟩
    · rintro u ⟨past, hops, hu⟩
      rw [List.append_nil] at hops
      subst hops
      exact ⟨hnone, hu.congr rfl rfl⟩

/-- Freeing a slot that no driver knows. -/
theorem InStep.setDevice_none (hstep : InStep (s, h))
    (hkind : s.classDrivers.driverKind slotId = none) : InStep (s.setDevice slotId none, h) := by
  have hother {other : Nat} (hdevice : (s.setDevice slotId none).device other ≠ none) :
      s.device other ≠ none := by
    by_cases heq : other = slotId
    · subst heq
      simp at hdevice
    · simpa [Function.update_of_ne heq] using hdevice
  refine ⟨?_, ?_, ?_⟩
  · intro other hdevice
    by_cases heq : other = slotId
    · rw [heq]
      exact hkind
    · apply hstep.empty
      simpa [Function.update_of_ne heq] using hdevice
  · exact fun other kinds hdevice => hstep.mouse other kinds (hother hdevice)
  · exact fun other kinds hdevice => hstep.keyboard other kinds (hother hdevice)

theorem resetConnectionAt_dispatch {portIdx : Nat} (hstep : InStep (s, h))
    (hkinds : ∀ slotId ∈ (s.portSlotIdMap portIdx).getD [],
      s.classDrivers.driverKind slotId = none) :
    (resetConnectionAt portIdx s).Meets (dispatch.at h) fun _ t => InStep (t, h) := by
  apply resetConnectionAt_meets (dispatch_tame h).mild
    (I := fun slotIds t => InStep (t, h) ∧
      ∀ slotId ∈ slotIds, t.classDrivers.driverKind slotId = none)
  · exact fun slotId slotIds t ht => ht.1.congr rfl rfl rfl
  · intro slotId slotIds t completion u ht hsame
    refine ⟨ht.1.congr hsame.device hsame.classDrivers rfl, ?_⟩
    rw [show u.classDrivers = t.classDrivers from hsame.classDrivers]
    exact ht.2
  · intro slotId slotIds t ht _
    exact ⟨ht.1.setDevice_none (ht.2 slotId List.mem_cons_self),
      fun other hmem => ht.2 other (List.mem_cons_of_mem slotId hmem)⟩
  · exact fun _ _ _ _ _ _ he => (dispatch_tame h).slotError he
  · exact ⟨hstep.congr rfl rfl rfl, hkinds⟩
  · exact fun t ht => ht.1.congr rfl rfl rfl

/-- The new device is welcome to the class drivers, and no registered device is
disconnected. -/
def StaysInStep (x : Controller × History) : Plug → Prop
  | .attach _ _ ops => Welcome x.1 (registrations ops)
  | .disconnect portIdx => ∀ slotId ∈ (x.1.portSlotIdMap portIdx).getD [],
      x.1.classDrivers.driverKind slotId = none

theorem withHistory_dispatch {handler : Handler Unit} {post : Unit → Controller × History → Prop}
    (hmeets : (handler x.1).Meets (dispatch.at x.2) fun a t => post a (t, x.2)) :
    ((handler.withHistory : Code (Controller × History) Future Event Fault Unit) x).Meets dispatch
      post :=
  withHistory_meets (fun _ _ _ _ (hsame : SameDevices _ _) => hsame.history) hmeets

theorem Plug.run_dispatch {plug : Plug} (htidy : Tidy x) (hok : StaysInStep x plug) :
    (plug.run x).Meets dispatch fun _ y => Tidy y := by
  cases plug with
  | attach device slotId ops =>
      apply bind_meets
      apply withHistory_dispatch
      apply (attach_dispatch htidy hok).mono
      rintro _ t ⟨hnone, hr⟩
      refine ⟨hr.inStep hok htidy.inStep hnone (.inr rfl), ?_⟩
      intro other hdevice
      have hne : other ≠ slotId := by
        rintro rfl
        exact hr.device hdevice
      rw [hr.other other hne] at hdevice
      simpa [Function.update_of_ne hne] using htidy.empty other hdevice
  | disconnect portIdx =>
      apply bind_meets
      apply withHistory_dispatch
      apply (resetConnectionAt_dispatch htidy.inStep hok).mono
      intro _ t ht
      have hkeep {slotId : Nat} (hdevice : t.device slotId ≠ none) :
          (if t.device slotId = none then none else x.2 slotId) = x.2 slotId := if_neg hdevice
      refine ⟨⟨ht.empty, ?_, ?_⟩, ?_⟩
      · exact fun slotId kinds hdevice hkinds =>
          ht.mouse slotId kinds hdevice ((hkeep hdevice).symm.trans hkinds)
      · exact fun slotId kinds hdevice hkinds =>
          ht.keyboard slotId kinds hdevice ((hkeep hdevice).symm.trans hkinds)
      · exact fun slotId hdevice => if_pos hdevice

theorem plugging_poll {future : Future} {answer : Option Event}
    (hpoll : plugging.poll future x = (answer, y)) : SameDevices x y := by
  obtain ⟨events, popped, hstate⟩ := pollFuture_state future x.1
  simp only [plugging, Prod.mk.injEq, hstate] at hpoll
  obtain ⟨_, rfl⟩ := hpoll
  exact ⟨rfl, rfl, rfl, rfl, rfl⟩

theorem Tidy.congr (hx : Tidy x) (hsame : SameDevices x y) : Tidy y where
  inStep := hx.inStep.congr hsame.device hsame.classDrivers hsame.history
  empty := by
    rw [hsame.device, hsame.history]
    exact hx.empty

theorem plugging_respects_dispatch : plugging.Respects dispatch Tidy :=
  Scheduler.respects_of_same SameDevices SameDevices.trans id plugging_poll Iff.rfl
    Tidy.congr fun hx hsame => hx.congr hsame.device hsame.classDrivers hsame.history

/-- Every plug event of the run stays in step. -/
def StartsStayInStep (x : Scheduled (Controller × History) Future Event Fault) :
    Scheduler.Label Plug → Prop
  | .start plug => StaysInStep x.state plug
  | _ => True

/-- A new controller with new class drivers. -/
def Unplugged (x : Controller × History) : Prop :=
  (∃ numberOfPorts numberOfDeviceSlots portsc mice keyboards hubs initialization,
    x.1 = new numberOfPorts numberOfDeviceSlots portsc (.new mice keyboards hubs) initialization) ∧
  ∀ slotId, x.2 slotId = none

theorem Unplugged.tidy (hx : Unplugged x) : Tidy x := by
  obtain ⟨⟨_, _, _, _, _, _, _, hnew⟩, hhistory⟩ := hx
  refine ⟨⟨?_, ?_, ?_⟩, fun slotId _ => hhistory slotId⟩
  · intro slotId _
    rw [hnew]
    rfl
  · intro slotId _ hdevice
    rw [hnew] at hdevice
    exact absurd rfl hdevice
  · intro slotId _ hdevice
    rw [hnew] at hdevice
    exact absurd rfl hdevice

/-- In every run in which new devices are welcome and registered ones are not disconnected,
`driver_kind` is in step with the slots. -/
theorem dispatch_in_step {x : Scheduled (Controller × History) Future Event Fault}
    (hx : ((plugging.system Unplugged).guard StartsStayInStep).Reachable x)
    (hobserved : ∀ e, x.task ≠ .failed e) : InStep x.state := by
  have hok := Scheduler.reachable_ok plugging_respects_dispatch (fun x hx => hx.tidy)
    (fun x plug htidy hok => Plug.run_dispatch htidy hok) hx
  exact hok.observed hobserved (fun _ htidy => htidy.inStep) fun _ _ => id

/-- A mouse at the first port. -/
def attachMouse : Plug := .attach ⟨0, 0, 5, none, none⟩ 1 [.addDevice .mouse 1]

/-- The answer to a command arrives, and the waiting handler is polled. -/
def answerWith (completion : CommandCompletion)
    (x : Scheduled (Controller × History) Future Event Fault) :
    Scheduled (Controller × History) Future Event Fault :=
  plugging.polled ⟨(x.state.1.setEvents [.commandCompletion completion], x.state.2), x.task⟩

theorem plugging_env_setEvents (x : Controller × History) (events : List Event) :
    plugging.env x (x.1.setEvents events, x.2) :=
  ⟨rfl, rfl, rfl, rfl, rfl⟩

/-- A mouse is attached. -/
def withMouse : Scheduled (Controller × History) Future Event Fault :=
  answerWith ⟨0, 1, 1⟩
    (plugging.started attachMouse ⟨(detached 1 fun _ => [], fun _ => none), .idle⟩)

theorem dispatch_in_step_withMouse :
    withMouse.state.1.classDrivers.driverKind 1 = some .mouse ∧ InStep withMouse.state := by
  have h₀ : ((plugging.system Unplugged).guard StartsStayInStep).Reachable
      ⟨(detached 1 fun _ => [], fun _ => none), .idle⟩ :=
    .init ⟨⟨⟨_, _, _, _, _, _, _, rfl⟩, fun _ => rfl⟩, rfl⟩
  have hwelcome : StaysInStep (detached 1 fun _ => [], fun _ => none) attachMouse :=
    ⟨by decide, fun _ => rfl, fun _ => rfl⟩
  have h₁ := Scheduler.guard_reachable_started (i := attachMouse) h₀ hwelcome
  have h₂ : ((plugging.system Unplugged).guard StartsStayInStep).Reachable withMouse :=
    Scheduler.guard_reachable_polled
      (Scheduler.guard_reachable_env h₁ trivial
        (plugging_env_setEvents _ [.commandCompletion ⟨0, 1, 1⟩])) trivial
  have hobserved : withMouse.failure = none := by decide +kernel
  exact ⟨by decide +kernel, dispatch_in_step h₂ (Scheduled.not_failed hobserved)⟩

/-- A mouse is unplugged; its slot still has the mouse driver. -/
theorem unplugged_mouse_not_in_step :
    ¬ ∀ x, (plugging.system Unplugged).Reachable x → (∀ e, x.task ≠ .failed e) →
      InStep x.state := by
  intro h
  have hanswer (completion : CommandCompletion)
      (x : Scheduled (Controller × History) Future Event Fault)
      (hx : (plugging.system Unplugged).Reachable x) :
      (plugging.system Unplugged).Reachable (answerWith completion x) :=
    Scheduler.reachable_polled (Scheduler.reachable_env hx (plugging_env_setEvents _ _))
  have h₀ : (plugging.system Unplugged).Reachable
      ⟨(detached 1 fun _ => [], fun _ => none), .idle⟩ :=
    .init ⟨⟨⟨_, _, _, _, _, _, _, rfl⟩, fun _ => rfl⟩, rfl⟩
  have h₁ := hanswer ⟨0, 1, 1⟩ _ (Scheduler.reachable_started attachMouse h₀)
  have h₂ := hanswer ⟨1, 1, 1⟩ _ (Scheduler.reachable_started (.disconnect 0) h₁)
  have hstep := h _ h₂ (Scheduled.not_failed (by decide +kernel))
  refine absurd (hstep.empty 1 ?_) ?_
  · decide +kernel
  · decide +kernel

end LemolaOs.Xhci.Controller
