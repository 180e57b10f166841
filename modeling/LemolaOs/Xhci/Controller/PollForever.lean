import LemolaOs.Xhci.Controller.Specs

/-!
# `poll_forever`

The kernel runs the controller in one task. It processes the events that were put
aside, the events of the ring, and the events of the hub driver, one after another;
at start-up it configures the ports that are connected. The order of these calls is
left open here. While a handler waits, the task polls its future: an event for
somebody else is put aside.

What the hardware and the rest of the kernel may do in between is the parameter `env`.
-/

namespace LemolaOs.Xhci.Controller

open Code Resumption

/-- The calls of `poll_forever`, and that of the start-up loop. -/
inductive Entry where
  | processOnceReceived
  | processEvent
  | processUserEvent
  | configurePortAt (portIdx : Nat)
  deriving DecidableEq, Repr

namespace Entry

def run : Entry → Handler Unit
  | .processOnceReceived => Controller.processOnceReceived
  | .processEvent => Controller.processEvent
  | .processUserEvent => Controller.processUserEvent
  | .configurePortAt portIdx => Controller.configurePortAt portIdx

/-- The event that a call will process. -/
def event (s : Controller) : Entry → Option Event
  | .processOnceReceived => s.popped.getLast?
  | .processEvent => s.events.head?
  | _ => none

/-- The state in which it is processed. -/
def popped (s : Controller) : Entry → Controller
  | .processOnceReceived => s.setPopped s.popped.dropLast
  | .processEvent => s.setEvents s.events.tail
  | _ => s

/-- What becomes of a call. -/
theorem run_meets {c : Protocol Controller Future Event Fault} (mild : Mild c) {s : Controller}
    {entry : Entry} {post : Unit → Controller → Prop} (hnone : post () s)
    (hevent : ∀ event, entry.event s = some event →
      (processEventRingEvent event (entry.popped s)).Meets c post)
    (huser : ∀ event events, entry = .processUserEvent → s.userEvents = event :: events →
      (processInitPortDeviceEvent event (s.setUserEvents events)).Meets c post)
    (hport : ∀ portIdx, entry = .configurePortAt portIdx →
      s.portConfigPhase portIdx = .notConnected → (resetPortAt portIdx s).Meets c post) :
    (entry.run s).Meets c post := by
  cases entry with
  | processOnceReceived =>
      apply processOnceReceived_meets mild fun _ => hnone
      intro event events h
      have hrun := hevent event (by simp [Entry.event, h])
      simpa [Entry.popped, h] using hrun
  | processEvent =>
      apply processEvent_meets mild fun _ => hnone
      intro event events h
      have hrun := hevent event (by simp [Entry.event, h])
      simpa [Entry.popped, h] using hrun
  | processUserEvent =>
      exact processUserEvent_meets mild (fun _ => hnone) fun event events => huser event events rfl
  | configurePortAt portIdx => exact configurePortAt_meets mild hnone (hport portIdx rfl)

/-- Without a lock, a call takes its event off the queue and processes it. -/
theorem run_of_event {s : Controller} {entry : Entry} {event : Event} (hheld : s.held = [])
    (h : entry.event s = some event) :
    entry.run s = processEventRingEvent event (entry.popped s) := by
  cases entry with
  | processOnceReceived =>
      have hpop : (withLock .eventRing do
          let s ← get
          modify (·.setPopped s.popped.dropLast)
          return s.popped.getLast? : Handler (Option Event)) s =
          .done s.popped.getLast? (s.setPopped s.popped.dropLast) := by
        apply withLock_done (by simp [hheld])
        rfl
      have hlast : s.popped.getLast? = some event := h
      rw [run, Controller.processOnceReceived, bind_apply, hpop, bind_done, hlast]
      rfl
  | processEvent =>
      have hpop : (withLock .registers <| withLock .eventRing do
          let s ← get
          modify (·.setEvents s.events.tail)
          return s.events.head? : Handler (Option Event)) s =
          .done s.events.head? (s.setEvents s.events.tail) := by
        apply withLock_done (by simp [hheld])
        apply withLock_done (by simp [hheld])
        rfl
      have hhead : s.events.head? = some event := h
      rw [run, Controller.processEvent, bind_apply, hpop, bind_done, hhead]
      rfl
  | processUserEvent | configurePortAt portIdx => cases h

end Entry

/-- One poll of a future. -/
def pollFuture (future : Future) (s : Controller) : Option Event × Controller :=
  match s.events with
  | [] => (none, s)
  | event :: events =>
      if future.waitsFor event then (some event, s.setEvents events)
      else (none, (s.setEvents events).putAside event)

def pollForever (env : Controller → Controller → Prop) :
    Scheduler Controller Future Event Fault Entry where
  start := Entry.run
  poll := pollFuture
  env := env

/-- A controller that has just been created. -/
def Fresh (s : Controller) : Prop :=
  ∃ numberOfPorts numberOfDeviceSlots portsc classDrivers initialization,
    s = new numberOfPorts numberOfDeviceSlots portsc classDrivers initialization

/-- A port to which a device has just been plugged. -/
def plugged : PortSc :=
  { PortSc.empty with
    currentConnectStatus := true
    connectStatusChange := true
    portSpeed := 3
    enablesOnReset := true }

/-- A controller with nothing attached to its ports. -/
def detached (numberOfPorts : Nat) (initialization : Nat → List HostOp) : Controller :=
  new numberOfPorts 8 (fun _ => .empty) (.new 8 8 8) initialization

/-- A device has been plugged to the first port, and the controller has posted the event. -/
def pluggedIn (s : Controller) : Controller :=
  (s.setPort 0 plugged).setEvents [.portStatusChange ⟨1⟩]

/-- The initialisation of a hub at the first root port with a device behind it. -/
def hubWithDevice : List HostOp :=
  [.addDevice .hub 1, .assignAddress ⟨0, 1, 3, some 1, some 1⟩]

theorem pollFuture_some {future : Future} {s t : Controller} {event : Event}
    (h : pollFuture future s = (some event, t)) :
    future.waitsFor event = true ∧
      ∃ events, s.events = event :: events ∧ t = s.setEvents events := by
  rw [pollFuture] at h
  split at h
  · simp at h
  next front events hevents =>
    split at h
    next hmine =>
      simp only [Prod.mk.injEq, Option.some.injEq] at h
      obtain ⟨rfl, rfl⟩ := h
      exact ⟨hmine, events, hevents, rfl⟩
    next => simp at h

theorem pollFuture_none {future : Future} {s t : Controller} (h : pollFuture future s = (none, t)) :
    (s.events = [] ∧ t = s) ∨ ∃ event events, s.events = event :: events ∧
      future.waitsFor event = false ∧ t = (s.setEvents events).putAside event := by
  rw [pollFuture] at h
  split at h
  next hevents =>
    simp only [Prod.mk.injEq, true_and] at h
    exact .inl ⟨hevents, h.symm⟩
  next front events hevents =>
    split at h
    next => simp at h
    next hother =>
      simp only [Prod.mk.injEq, true_and] at h
      exact .inr ⟨front, events, hevents, by simpa using hother, h.symm⟩

/-- A poll changes only where the events are. -/
theorem pollFuture_state (future : Future) (s : Controller) :
    ∃ events popped, (pollFuture future s).2 = (s.setEvents events).setPopped popped := by
  rw [pollFuture]
  split
  · exact ⟨s.events, s.popped, rfl⟩
  next event events _ =>
    split
    · exact ⟨events, s.popped, rfl⟩
    · exact ⟨events, s.popped ++ [event], rfl⟩

end LemolaOs.Xhci.Controller
