import LemolaOs.Xhci.Controller.Locks

/-!
# When a call chain deadlocks

A call chain is started by an event, by `process_user_event`, or by
`configure_port_at`, and holds no lock at the start. The port registers may change
before every access. The only way to lock a mutex twice is that `enable_slot_at`
reads a port that is not ready: its guard of the registers is still alive when it
calls `reset_port_at`. What the last reset has seen does not help, since the
registers were unlocked in between.
-/

namespace LemolaOs.Xhci.Controller

open Code Resumption

/-- No lock is held. -/
@[simps] def unlocked (s : Controller) : Controller := { s with held := [] }

/-- Nothing the chain may still do is a deadlock, if `enable_slot_at` reads what `shows`
admits. -/
def DeadlockFree {α : Type} (shows : PortSc → Prop)
    (x : Resumption Controller Pause Event Fault α) : Prop :=
  x.Meets (portRule shows) fun _ _ => True

/-- The port of a status change for which `enable_slot_at` is called, unless the reset before
it fails an assertion. -/
def PortEnablesSlot (s : Controller) (portIdx : Nat) : Prop :=
  portIdx < s.numberOfPorts ∧ portIdx < 256 ∧
    match s.portConfigPhase portIdx with
    | .notConnected | .resettingPort =>
        s.addressingPortIndex = some portIdx ∨ s.addressingPortIndex = none
    | .waitingAddressed => s.addressingPortIndex = none
    | _ => False

/-- The chains that call `enable_slot_at` for a port that exists. -/
def Chain.EnablesSlot (s : Controller) : Chain → Prop
  | .ringEvent (.portStatusChange event) =>
      0 < event.portId ∧ PortEnablesSlot s (event.portId - 1)
  | .userEvent => ∃ event, s.userEvents.head? = some event ∧
      event.portIndex < s.numberOfPorts ∧ event.portIndex < 256
  | _ => False

section Outcomes

variable {α : Type} {shows : PortSc → Prop}

theorem deadlockFree_done (a : α) (s : Controller) : DeadlockFree shows (.done a s) := trivial

theorem panic_meets {post : α → Controller → Prop} (p : Panic) (s : Controller) :
    (.fail (.panic p) s : Resumption Controller Pause Event Fault α).Meets (portRule shows) post :=
  fun _ h => by cases h

/-- Code with a lock set runs through when it starts without locks. -/
theorem Locks.deadlockFree {M : Set Mutex} {x : PortHandler α} (h : Locks (portRule shows) M x)
    (s : Controller) : DeadlockFree shows (x s.unlocked) :=
  (h s.unlocked (by simp)).mono fun _ _ _ => trivial

theorem setAddressing_unlocked (s : Controller) (index : Option Nat) :
    s.unlocked.setAddressing index = (s.setAddressing index).unlocked := rfl

theorem setPorts_unlocked (s : Controller) (portsc : Nat → PortSc) :
    s.unlocked.setPorts portsc = (s.setPorts portsc).unlocked := rfl

theorem setPorts_hold (s : Controller) (m : Mutex) (portsc : Nat → PortSc) :
    (s.hold m).setPorts portsc = (s.setPorts portsc).hold m := rfl

end Outcomes

namespace Volatile

section Evaluation

variable {α : Type} {shows : PortSc → Prop} {s t : Controller} {m : Mutex} {portIdx : Nat}

theorem lift_done {x : Handler α} {a : α} (h : x s = .done a t) : lift x s = .done a t := by
  rw [lift, Code.relabel, h, Resumption.relabel]

theorem lift_fail {x : Handler α} {e : Fault} (h : x s = .fail e t) : lift x s = .fail e t := by
  rw [lift, Code.relabel, h, Resumption.relabel]

theorem withLock_of_free {body : PortHandler α} (hm : m ∉ s.held) :
    withLock m body s = (body (s.hold m)).bind fun a t => .done a (t.release m) := by
  have hlock : lift (lock m) s = .done () (s.hold m) := lift_done (by simp [lock, hm])
  rw [withLock, bind_apply, hlock, bind_done]
  rfl

theorem withLock_of_held {body : PortHandler α} (hm : m ∈ s.held) :
    withLock m body s = .fail (.deadlock m) s := by
  have hlock : lift (lock m) s = .fail (.deadlock m) s := lift_fail (by simp [lock, hm])
  rw [withLock, bind_apply, hlock, bind_fail]

/-- An access sees any contents of the registers. -/
theorem access_bind_meets {x : PortHandler α} {post : α → Controller → Prop} :
    ((await .access >>= fun _ => x : PortHandler α) s).Meets (portRule shows) post ↔
      ∀ portsc, (x (s.setPorts portsc)).Meets (portRule shows) post := by
  constructor
  · intro h portsc
    exact h.2 .hostController _ ⟨portsc, rfl⟩
  · refine fun h => ⟨trivial, ?_⟩
    rintro _ _ ⟨portsc, rfl⟩
    exact h portsc

theorem enableSlot_bind_meets {x : PortHandler α} {post : α → Controller → Prop} :
    ((await (.enableSlot portIdx) >>= fun _ => x : PortHandler α) s).Meets (portRule shows) post ↔
      ∀ portsc, shows (portsc portIdx) → (x (s.setPorts portsc)).Meets (portRule shows) post := by
  constructor
  · intro h portsc hshows
    exact h.2 .hostController _ ⟨portsc, hshows, rfl⟩
  · refine fun h => ⟨trivial, ?_⟩
    rintro _ _ ⟨portsc, hshows, rfl⟩
    exact h portsc hshows

theorem readPort_meets (f : PortSc → α) {post : α → Controller → Prop} (hm : .registers ∉ s.held)
    (hport : portIdx < s.numberOfPorts) :
    ((withLock .registers do
        let portsc ← readVolatileAt .access portIdx
        return f portsc) s).Meets (portRule shows) post ↔
      ∀ portsc, post (f (portsc portIdx)) (s.setPorts portsc) := by
  rw [withLock_of_free hm, meets_bind, bind_apply, meets_bind, readVolatileAt, access_bind_meets]
  refine forall_congr' fun portsc => ?_
  rw [lift_done (x := Controller.readVolatileAt portIdx) (s := (s.hold .registers).setPorts portsc)
    (readVolatileAt_eq hport)]
  simp only [pure_apply, meets_done, setPorts_hold, release_hold, setPorts_portsc, hold_portsc]

theorem readPort_meets_of_not (f : PortSc → α) {post : α → Controller → Prop}
    (hm : .registers ∉ s.held) (hport : ¬ portIdx < s.numberOfPorts) :
    ((withLock .registers do
        let portsc ← readVolatileAt .access portIdx
        return f portsc) s).Meets (portRule shows) post := by
  rw [withLock_of_free hm, meets_bind, bind_apply, meets_bind, readVolatileAt, access_bind_meets]
  intro portsc
  rw [lift_fail (x := Controller.readVolatileAt portIdx) (s := (s.hold .registers).setPorts portsc)
    (readVolatileAt_of_not hport)]
  exact panic_meets _ _

/-- `reset_port_at` may find nothing connected and return at once. -/
theorem resetPortAt_meets {post : Unit → Controller → Prop} (hm : .registers ∉ s.held)
    (hport : portIdx < s.numberOfPorts)
    (h : (resetPortAt portIdx s).Meets (portRule shows) post) :
    post () (s.setPorts fun _ => PortSc.empty) := by
  rw [resetPortAt, bind_apply, meets_bind] at h
  have hconnected := (readPort_meets PortSc.currentConnectStatus hm hport).mp h fun _ => .empty
  rw [bind_apply, meets_bind] at hconnected
  exact (readPort_meets (s := s.setPorts fun _ => .empty) PortSc.connectStatusChange hm hport).mp
    hconnected fun _ => .empty

/-- With the registers locked, `reset_port_at` does not get past its first line. -/
theorem resetPortAt_of_held (hm : .registers ∈ s.held) :
    resetPortAt portIdx s = .fail (.deadlock .registers) s := by
  rw [resetPortAt, bind_apply, isPortConnectedAt, withLock_of_held hm, bind_fail]

end Evaluation

section Enumeration

variable {shows : PortSc → Prop} {s : Controller} {portIdx : Nat}

/-- What `enable_slot_at` does with the PORTSC it reads, under the guard of the registers. -/
def enableSlotWith (again : PortHandler Nat) (portIdx : Nat) (portsc : PortSc) :
    PortHandler Nat :=
  if portsc.Ready then do
    withLock .portConfigureState (lift (setPortPhaseAt portIdx .enablingSlot))
    withLock .commandRing (lift (pushCommand .enableSlot))
  else do
    withLock .portConfigureState (lift (setPortPhaseAt portIdx .notConnected))
    resetPortAt portIdx
    again

theorem enableSlotBody_eq (again : PortHandler Nat) :
    enableSlotBody again portIdx = withLock .registers
      (readVolatileAt (.enableSlot portIdx) portIdx >>= enableSlotWith again portIdx) := rfl

/-- Setting a phase under a guard. -/
theorem setPhaseLocked_eq (phase : PortConfigPhase) (hm : .portConfigureState ∉ s.held)
    (hphase : portIdx < 256) :
    withLock .portConfigureState (lift (setPortPhaseAt portIdx phase)) s =
      .done () (s.setPhase portIdx phase) := by
  rw [withLock_of_free hm, lift_done (setPortPhaseAt_eq phase hphase), bind_done, setPhase_hold,
    release_hold]

theorem setPhaseLocked_of_not (phase : PortConfigPhase) (hm : .portConfigureState ∉ s.held)
    (hphase : ¬ portIdx < 256) :
    withLock .portConfigureState (lift (setPortPhaseAt portIdx phase)) s =
      .fail (.panic .outOfRange) (s.hold .portConfigureState) := by
  have hset : setPortPhaseAt portIdx phase (s.hold .portConfigureState) =
      .fail (.panic .outOfRange) (s.hold .portConfigureState) := by
    rw [setPortPhaseAt, bind_apply, ensure_of_not _ hphase, bind_fail]
  rw [withLock_of_free hm, lift_fail hset, bind_fail]

/-- A port that is not ready is reset, and the registers are locked already. -/
theorem enableSlotWith_of_not_ready {again : PortHandler Nat} {portsc : PortSc}
    (hregisters : .registers ∈ s.held) (hstate : .portConfigureState ∉ s.held)
    (hphase : portIdx < 256) (hready : ¬ portsc.Ready) :
    enableSlotWith again portIdx portsc s =
      .fail (.deadlock .registers) (s.setPhase portIdx .notConnected) := by
  rw [enableSlotWith, if_neg hready, bind_apply, setPhaseLocked_eq _ hstate hphase, bind_done,
    bind_apply, resetPortAt_of_held (by simpa using hregisters), bind_fail]

/-- A port without a phase. -/
theorem enableSlotWith_of_phase {again : PortHandler Nat} {portsc : PortSc}
    (hstate : .portConfigureState ∉ s.held) (hphase : ¬ portIdx < 256) :
    enableSlotWith again portIdx portsc s =
      .fail (.panic .outOfRange) (s.hold .portConfigureState) := by
  rw [enableSlotWith]
  split
  · rw [bind_apply, setPhaseLocked_of_not _ hstate hphase, bind_fail]
  · rw [bind_apply, setPhaseLocked_of_not _ hstate hphase, bind_fail]

theorem enableSlotAt_meets {post : Nat → Controller → Prop} (hport : portIdx < s.numberOfPorts) :
    (enableSlotAt portIdx s.unlocked).Meets (portRule shows) post ↔
      ∀ portsc, shows (portsc portIdx) →
        (enableSlotWith (Code.fail (.panic .assertion)) portIdx (portsc portIdx)
          ((s.setPorts portsc).unlocked.hold .registers)).Meets (portRule shows) fun trbPtr t =>
            post trbPtr (t.release .registers) := by
  rw [enableSlotAt, enableSlotBody_eq, withLock_of_free (by simp), meets_bind,
    bind_apply, meets_bind, readVolatileAt, enableSlot_bind_meets]
  refine forall₂_congr fun portsc _ => ?_
  rw [lift_done (x := Controller.readVolatileAt portIdx)
    (s := (s.unlocked.hold .registers).setPorts portsc) (readVolatileAt_eq hport)]
  exact Iff.rfl

/-- Without the port, or its phase, `enable_slot_at` panics. -/
theorem enableSlotAt_meets_of_not {post : Nat → Controller → Prop}
    (h : ¬ (portIdx < s.numberOfPorts ∧ portIdx < 256)) :
    (enableSlotAt portIdx s.unlocked).Meets (portRule shows) post := by
  by_cases hport : portIdx < s.numberOfPorts
  · rw [enableSlotAt_meets hport]
    intro portsc _
    rw [enableSlotWith_of_phase (by simp) fun hphase => h ⟨hport, hphase⟩]
    exact panic_meets _ _
  · rw [enableSlotAt, enableSlotBody_eq, withLock_of_free (by simp), meets_bind,
      bind_apply, meets_bind, readVolatileAt, enableSlot_bind_meets]
    intro portsc _
    rw [lift_fail (x := Controller.readVolatileAt portIdx)
      (s := (s.unlocked.hold .registers).setPorts portsc) (readVolatileAt_of_not hport)]
    exact panic_meets _ _

/-- Whatever was true of the port before, it must be ready when `enable_slot_at` reads it. -/
theorem ready_of_enableSlotAt {post : Nat → Controller → Prop} (hport : portIdx < s.numberOfPorts)
    (hphase : portIdx < 256)
    (h : (enableSlotAt portIdx s.unlocked).Meets (portRule shows) post) :
    ∀ portsc, shows portsc → portsc.Ready := by
  intro portsc hshows
  by_contra hready
  have hread := (enableSlotAt_meets hport).mp h (fun _ => portsc) hshows
  rw [enableSlotWith_of_not_ready (by simp) (by simp) hphase hready] at hread
  exact hread .registers rfl

/-- `reset_port_at` and then `enable_slot_at`. -/
theorem ready_of_enumerate (hport : portIdx < s.numberOfPorts) (hphase : portIdx < 256)
    (h : DeadlockFree shows ((do
      resetPortAt portIdx
      let _ ← enableSlotAt portIdx
      return () : PortHandler Unit) s.unlocked)) :
    ∀ portsc, shows portsc → portsc.Ready := by
  rw [DeadlockFree, bind_apply, meets_bind] at h
  have henable := resetPortAt_meets (s := s.unlocked) (by simp) hport h
  rw [setPorts_unlocked, bind_apply, meets_bind] at henable
  exact ready_of_enableSlotAt (s := s.setPorts fun _ => .empty) hport hphase henable

end Enumeration

section PortStatusChange

variable {shows : PortSc → Prop} {s : Controller} {portIdx : Nat}
  (hport : portIdx < s.numberOfPorts) (hphase : portIdx < 256)

include hport hphase

theorem processNotConnected_deadlockFree_iff (h : s.portConfigPhase portIdx = .notConnected) :
    DeadlockFree shows (processNotConnected portIdx s.unlocked) ↔
      (PortEnablesSlot s portIdx → ∀ portsc, shows portsc → portsc.Ready) := by
  by_cases hfree : s.addressingPortIndex = some portIdx ∨ s.addressingPortIndex = none
  · have hcan : canProcessConnect portIdx s.unlocked = .done true s.unlocked := by
      apply Controller.withLock_done (by simp)
      simp [hfree]
    refine ⟨fun hrun _ => ?_, fun hready => ?_⟩
    · rw [processNotConnected, bind_apply, lift_done hcan, bind_done, if_pos rfl] at hrun
      exact ready_of_enumerate hport hphase hrun
    · have henables : PortEnablesSlot s portIdx := by
        simp only [PortEnablesSlot, h]
        exact ⟨hport, hphase, hfree⟩
      exact (processNotConnected_locks (hready henables) portIdx).deadlockFree s
  · have hcan : canProcessConnect portIdx s.unlocked =
        .done false (s.unlocked.setPhase portIdx .waitingAddressed) := by
      apply Controller.withLock_done (by simp)
      simp [hfree, setPortPhaseAt_eq _ hphase]
    rw [processNotConnected, bind_apply, lift_done hcan, bind_done]
    refine iff_of_true (deadlockFree_done _ _) fun henables => ?_
    simp only [PortEnablesSlot, h] at henables
    exact absurd henables.2.2 hfree

theorem processResettingPort_deadlockFree_iff (h : s.portConfigPhase portIdx = .resettingPort) :
    DeadlockFree shows (processResettingPort portIdx s.unlocked) ↔
      (PortEnablesSlot s portIdx → ∀ portsc, shows portsc → portsc.Ready) := by
  by_cases hfree : s.addressingPortIndex = some portIdx ∨ s.addressingPortIndex = none
  · have hcan := canProcessReset_of_free (s := s.unlocked) (by simp) hfree
    refine ⟨fun hrun _ => ?_, fun hready => ?_⟩
    · rw [processResettingPort, bind_apply, lift_done hcan, bind_done, if_pos rfl, DeadlockFree,
        bind_apply, meets_bind, setAddressing_unlocked] at hrun
      exact ready_of_enableSlotAt (s := s.setAddressing (some portIdx)) hport hphase hrun
    · have henables : PortEnablesSlot s portIdx := by
        simp only [PortEnablesSlot, h]
        exact ⟨hport, hphase, hfree⟩
      exact (processResettingPort_locks (hready henables) portIdx).deadlockFree s
  · obtain ⟨hself, hnone⟩ := not_or.mp hfree
    have hcan := canProcessReset_of_taken (s := s.unlocked) (by simp) hphase hself hnone
    rw [processResettingPort, bind_apply, lift_done hcan, bind_done]
    refine iff_of_true (deadlockFree_done _ _) fun henables => ?_
    simp only [PortEnablesSlot, h] at henables
    exact absurd henables.2.2 hfree

theorem processWaitingAddressed_deadlockFree_iff (event : PortStatusChange)
    (h : s.portConfigPhase portIdx = .waitingAddressed) :
    DeadlockFree shows (processWaitingAddressed portIdx event s.unlocked) ↔
      (PortEnablesSlot s portIdx → ∀ portsc, shows portsc → portsc.Ready) := by
  by_cases hfree : s.addressingPortIndex = none
  · have hcan : canStartInitialization portIdx s.unlocked = .done true
        ((s.setAddressing (some portIdx)).setPhase portIdx .notConnected).unlocked := by
      apply Controller.withLock_done (by simp)
      simp [hfree, setAddressingPortIndex, setPortPhaseAt_eq _ hphase]
      rfl
    refine ⟨fun hrun _ => ?_, fun hready => ?_⟩
    · rw [processWaitingAddressed, bind_apply, lift_done hcan, bind_done, if_pos rfl, bind_apply,
        withLock_of_free (by simp), pure_apply, bind_done, bind_done, release_hold] at hrun
      exact ready_of_enumerate (s := (s.setAddressing (some portIdx)).setPhase portIdx
        .notConnected) hport hphase hrun
    · have henables : PortEnablesSlot s portIdx := by
        simp only [PortEnablesSlot, h]
        exact ⟨hport, hphase, hfree⟩
      exact (processWaitingAddressed_locks (hready henables) portIdx event).deadlockFree s
  · have hcan : canStartInitialization portIdx s.unlocked = .done false s.unlocked := by
      apply Controller.withLock_done (by simp)
      simp [hfree]
    rw [processWaitingAddressed, bind_apply, lift_done hcan, bind_done]
    refine iff_of_true ?_ fun henables => ?_
    · have hlocks : Locks (portRule shows) {.eventRing}
          (withLock .eventRing (modify (·.putAside (.portStatusChange event)))) :=
        locks_guarded (.modify fun _ => rfl) rfl
      exact hlocks.deadlockFree s
    · simp only [PortEnablesSlot, h] at henables
      exact absurd henables.2.2 hfree

end PortStatusChange

theorem processPortStatusChangeEvent_deadlockFree_iff (shows : PortSc → Prop) (s : Controller)
    (event : PortStatusChange) :
    DeadlockFree shows (processPortStatusChangeEvent event s.unlocked) ↔
      (0 < event.portId ∧ PortEnablesSlot s (event.portId - 1) →
        ∀ portsc, shows portsc → portsc.Ready) := by
  rw [processPortStatusChangeEvent, DeadlockFree, bind_apply]
  by_cases hid : 0 < event.portId
  swap
  · rw [lift_fail (ensure_of_not _ hid), bind_fail]
    exact iff_of_true (panic_meets _ _) fun h => absurd h.1 hid
  rw [lift_done (ensure_of _ hid), bind_done, bind_apply, meets_bind, isPortConnectedAt]
  by_cases hport : event.portId - 1 < s.numberOfPorts
  swap
  · exact iff_of_true (readPort_meets_of_not (s := s.unlocked) _ (by simp) hport)
      fun h => absurd h.2.1 hport
  rw [readPort_meets (s := s.unlocked) _ (by simp) hport]
  -- the registers are other ones now, and the rest is as before
  have : Nonempty (Nat → PortSc) := ⟨s.portsc⟩
  refine Iff.trans (forall_congr' fun portsc => ?_) (forall_const (Nat → PortSc))
  rw [setPorts_unlocked]
  generalize hu : s.setPorts portsc = u
  have hsame : PortEnablesSlot s (event.portId - 1) ↔ PortEnablesSlot u (event.portId - 1) := by
    rw [← hu]
    exact Iff.rfl
  replace hport : event.portId - 1 < u.numberOfPorts := by rwa [← hu]
  rw [and_iff_right hid, hsame, bind_apply, withLock_of_free (by simp)]
  by_cases hphase : event.portId - 1 < 256
  swap
  · have hread : portPhaseAt (event.portId - 1) (u.unlocked.hold .portConfigureState) =
        .fail (.panic .outOfRange) (u.unlocked.hold .portConfigureState) := by
      rw [portPhaseAt, bind_apply, ensure_of_not _ hphase, bind_fail]
    rw [lift_fail hread, bind_fail, bind_fail]
    exact iff_of_true (panic_meets _ _) fun h => absurd h.2.1 hphase
  have hread : portPhaseAt (event.portId - 1) (u.unlocked.hold .portConfigureState) =
      .done (u.portConfigPhase (event.portId - 1)) (u.unlocked.hold .portConfigureState) := by
    simp [portPhaseAt, ensure, hphase]
  rw [lift_done hread, bind_done, bind_done, release_hold]
  have hother {b : Bool} (hmatch : ¬ PortEnablesSlot u (event.portId - 1)) :
      DeadlockFree shows ((if b then resetConnectionAt (event.portId - 1) else return ())
        u.unlocked) ↔
        (PortEnablesSlot u (event.portId - 1) → ∀ portsc, shows portsc → portsc.Ready) := by
    refine iff_of_true ?_ fun h => absurd h hmatch
    exact Locks.deadlockFree (.ite (resetConnectionAt_locks _) (.pure _)) u
  cases h : u.portConfigPhase (event.portId - 1) with
  | notConnected => exact processNotConnected_deadlockFree_iff hport hphase h
  | resettingPort => exact processResettingPort_deadlockFree_iff hport hphase h
  | waitingAddressed => exact processWaitingAddressed_deadlockFree_iff hport hphase event h
  | enablingSlot => exact hother (by simp [PortEnablesSlot, h])
  | addressingDevice => exact hother (by simp [PortEnablesSlot, h])
  | initializingDevice => exact hother (by simp [PortEnablesSlot, h])
  | configuringEndpoints => exact hother (by simp [PortEnablesSlot, h])
  | configured => exact hother (by simp [PortEnablesSlot, h])

/-- After `enable_slot_at` nothing deadlocks in the handling of a device behind a hub. -/
theorem processInitPortDeviceEvent_deadlockFree_iff (shows : PortSc → Prop) (s : Controller)
    (event : InitPortDevice) :
    DeadlockFree shows (processInitPortDeviceEvent event s.unlocked) ↔
      (event.portIndex < s.numberOfPorts ∧ event.portIndex < 256 →
        ∀ portsc, shows portsc → portsc.Ready) := by
  by_cases hport : event.portIndex < s.numberOfPorts ∧ event.portIndex < 256
  · refine ⟨fun hrun _ => ?_, fun hready => ?_⟩
    · rw [processInitPortDeviceEvent, DeadlockFree, bind_apply, meets_bind] at hrun
      exact ready_of_enableSlotAt hport.1 hport.2 hrun
    · exact (processInitPortDeviceEvent_locks (hready hport) event).deadlockFree s
  · rw [processInitPortDeviceEvent, DeadlockFree, bind_apply, meets_bind]
    exact iff_of_true (enableSlotAt_meets_of_not hport) fun h => absurd h hport

theorem processUserEvent_deadlockFree_iff (shows : PortSc → Prop) (s : Controller) :
    DeadlockFree shows (processUserEvent s.unlocked) ↔
      (Chain.EnablesSlot s .userEvent → ∀ portsc, shows portsc → portsc.Ready) := by
  have hpop : popUserEvent s.unlocked =
      .done s.userEvents.head? (s.setUserEvents s.userEvents.tail).unlocked :=
    Controller.withLock_done (by simp) rfl
  rw [processUserEvent, bind_apply, lift_done hpop, bind_done]
  cases h : s.userEvents.head? with
  | none => exact iff_of_true (deadlockFree_done _ _) (by simp [Chain.EnablesSlot, h])
  | some event =>
      refine (processInitPortDeviceEvent_deadlockFree_iff shows
        (s.setUserEvents s.userEvents.tail) event).trans ?_
      simp [Chain.EnablesSlot, h]

end Volatile

/-- A chain that starts without locks locks no mutex twice, whatever happens to the port
registers and while it waits, if and only if it does not call `enable_slot_at`, or every PORTSC
that `enable_slot_at` may read is that of a port that is ready. -/
theorem deadlockFree_iff (shows : PortSc → Prop) (s : Controller) (chain : Chain) :
    DeadlockFree shows (chain.run s.unlocked) ↔
      (chain.EnablesSlot s → ∀ portsc, shows portsc → portsc.Ready) := by
  cases chain with
  | userEvent => exact Volatile.processUserEvent_deadlockFree_iff shows s
  | configurePort portIdx =>
      exact iff_of_true ((Volatile.configurePortAt_locks portIdx).deadlockFree s)
        (by simp [Chain.EnablesSlot])
  | ringEvent event =>
      have hlocks {x : PortHandler Unit} (h : Locks (portRule shows) Set.univ x) :
          DeadlockFree shows (x s.unlocked) ↔ (False → ∀ portsc, shows portsc → portsc.Ready) :=
        iff_of_true (h.deadlockFree s) False.elim
      cases event with
      | portStatusChange event =>
          exact Volatile.processPortStatusChangeEvent_deadlockFree_iff shows s event
      | commandCompletion event => exact hlocks (Volatile.processCommandCompletionEvent_locks event)
      | transferEvent event => exact hlocks (Volatile.locks_lift (processTransferEvent_locks event))
      | hostController => exact hlocks (.pure _)
      | bandwidthRequest => exact hlocks (Volatile.locks_lift (.panicked _))
      | doorbell => exact hlocks (Volatile.locks_lift (.panicked _))
      | deviceNotification => exact hlocks (Volatile.locks_lift (.panicked _))
      | mfindexWrap => exact hlocks (Volatile.locks_lift (.panicked _))

/-- The device was pulled out again before its connection was handled: the change bit is
set, nothing is connected, and no register changes any more. -/
theorem disconnected_port_deadlocks :
    ¬ ∀ (s : Controller) (chain : Chain), DeadlockFree (fun _ => True) (chain.run s.unlocked) := by
  intro h
  let pulled : PortSc := { PortSc.empty with connectStatusChange := true }
  let s : Controller := new 1 8 (fun _ => pulled) (.new 8 8 8) fun _ => []
  let chain : Chain := .ringEvent (.portStatusChange ⟨1⟩)
  have hcalm : (chain.run.answer calm s.unlocked).Meets lockRule fun _ _ => True := by
    refine (h s chain).answer (fun _ he => he) (fun _ _ _ _ _ => trivial) ?_ ?_
    · rintro (future | _ | portIdx) q t r u hq hu
      · exact hu
      · cases hq
      · cases hq
    · rintro (future | _ | portIdx) r t hq
      · cases hq
      · exact ⟨t.portsc, rfl⟩
      · exact ⟨t.portsc, trivial, rfl⟩
  have hrun : chain.handler s.unlocked = .fail (.deadlock .registers)
      ((s.unlocked.setPhase 0 .notConnected).hold .registers) := rfl
  rw [Chain.run_calm, hrun] at hcalm
  exact hcalm .registers rfl

end LemolaOs.Xhci.Controller
