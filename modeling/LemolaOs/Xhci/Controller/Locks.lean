import LemolaOs.Xhci.Controller.Volatile

/-!
# Which handlers lock themselves out

`Locks c M x` says that code `x` takes only locks in `M`, releases what it takes,
and never takes a lock twice, whatever the protocol `c` lets happen while it waits.
It is proved function by function from the structure of the code. The only function
without such a set is `enable_slot_at`: if it reads a port that is not ready it calls
`reset_port_at` with the registers locked. As long as it reads ready ports only, it
has one, and so have the functions that call it.
-/

namespace LemolaOs.Xhci.Controller

open Code Resumption

/-- The rule for the locks of one call chain: others may change everything while the chain
waits, but not its locks, and no failure is a deadlock. -/
def lockRule : Protocol Controller Future Event Fault where
  waiting _ _ := True
  resumed _ s _ t := t.held = s.held
  failing e := ∀ m, e ≠ .deadlock m

/-- The rule for the locks where the port registers change. At an access nothing else changes, and
`enable_slot_at` reads a PORTSC that `shows` admits. -/
def portRule (shows : PortSc → Prop) : Protocol Controller Pause Event Fault where
  waiting _ _ := True
  resumed q s _ t :=
    match q with
    | .event _ => t.held = s.held
    | .access => ∃ portsc, t = s.setPorts portsc
    | .enableSlot portIdx => ∃ portsc, shows (portsc portIdx) ∧ t = s.setPorts portsc
  failing e := ∀ m, e ≠ .deadlock m

def Locks {π α : Type} (c : Protocol Controller π Event Fault) (M : Set Mutex)
    (x : Code Controller π Event Fault α) : Prop :=
  ∀ s, (∀ m ∈ s.held, m ∉ M) → (x s).Meets c fun _ t => t.held = s.held

namespace Locks

section Rules

variable {π α β : Type} {c : Protocol Controller π Event Fault} {M N : Set Mutex}
  {x : Code Controller π Event Fault α}

theorem mono (h : Locks c M x) (hsub : M ⊆ N) : Locks c N x :=
  fun s hs => h s fun m hm hmem => hs m hm (hsub hmem)

theorem pure (a : α) : Locks c M (pure a) := fun _ _ => rfl

theorem get : Locks c M get := fun _ _ => rfl

theorem modify {f : Controller → Controller} (h : ∀ s, (f s).held = s.held) :
    Locks c M (modify f) := fun s _ => h s

/-- Sequencing, with a fact about the value that is handed on. -/
theorem bind_of {P : α → Prop} {f : α → Code Controller π Event Fault β}
    (hx : ∀ s, (∀ m ∈ s.held, m ∉ M) → (x s).Meets c fun a t => t.held = s.held ∧ P a)
    (hf : ∀ a, P a → Locks c M (f a)) : Locks c M (x >>= f) := by
  intro s hs
  rw [bind_apply, meets_bind]
  refine (hx s hs).mono ?_
  intro a t ht
  refine (hf a ht.2 t (by rwa [ht.1])).mono ?_
  intro b u hu
  rw [hu, ht.1]

theorem bind {f : α → Code Controller π Event Fault β} (hx : Locks c M x)
    (hf : ∀ a, Locks c M (f a)) : Locks c M (x >>= f) :=
  bind_of (fun s hs => (hx s hs).mono fun _ _ h => ⟨h, trivial⟩) fun a _ => hf a

theorem ite {p : Prop} [Decidable p] {y : Code Controller π Event Fault α} (hx : Locks c M x)
    (hy : Locks c M y) : Locks c M (if p then x else y) := by
  split
  · exact hx
  · exact hy

/-- A guard around code that does not take the same lock. -/
theorem within {m : Mutex} {lock unlock : Code Controller π Event Fault Unit}
    (hlock : ∀ s : Controller, m ∉ s.held → lock s = .done () (s.hold m))
    (hunlock : ∀ s : Controller, unlock s = .done () (s.release m))
    (h : Locks c M x) (hm : m ∉ M) (hsub : insert m M ⊆ N) :
    Locks c N (do lock; let a ← x; unlock; return a) := by
  intro s hs
  have hfree : m ∉ s.held := fun hmem => hs m hmem (hsub (Set.mem_insert m M))
  simp only [bind_apply, hlock s hfree, bind_done, meets_bind, hunlock, pure_apply, meets_done]
  refine (h (s.hold m) ?_).mono ?_
  · intro n hn
    rw [hold_held, List.mem_cons] at hn
    obtain rfl | hn := hn
    · exact hm
    · exact fun hmem => hs n hn (hsub (Set.mem_insert_of_mem m hmem))
  · intro a t ht
    rw [release_held, ht, hold_held, List.erase_cons_head]

end Rules

section Handlers

variable {α : Type} {M N : Set Mutex} {x : Handler α}

theorem panicked (p : Panic) : Locks lockRule M (Code.fail (.panic p) : Handler α) :=
  fun _ _ m h => by cases h

theorem await (f : Future) : Locks lockRule M (await f) := fun _ _ => ⟨trivial, fun _ _ h => h⟩

theorem ensure (p : Prop) [Decidable p] (e : Panic) : Locks lockRule M (ensure p e) :=
  .ite (.pure ()) (.panicked e)

theorem withLock {m : Mutex} (h : Locks lockRule M x) (hm : m ∉ M) (hsub : insert m M ⊆ N) :
    Locks lockRule N (withLock m x) :=
  within (fun s hfree => by simp [lock, hfree]) (fun _ => rfl) h hm hsub

/-- A guard around code that takes no lock. -/
theorem guarded {m : Mutex} (h : Locks lockRule ∅ x) (hm : m ∈ M) :
    Locks lockRule M (Controller.withLock m x) :=
  h.withLock (Set.notMem_empty m) (Set.insert_subset hm (Set.empty_subset M))

end Handlers

end Locks

section Functions

theorem portPhaseAt_locks (portIdx : Nat) : Locks lockRule ∅ (portPhaseAt portIdx) :=
  .bind (.ensure _ _) fun _ => .bind .get fun _ => .pure _

theorem setPortPhaseAt_locks (portIdx : Nat) (phase : PortConfigPhase) :
    Locks lockRule ∅ (setPortPhaseAt portIdx phase) :=
  .bind (.ensure _ _) fun _ => .modify fun _ => rfl

theorem setAddressingPortIndex_locks (index : Option Nat) :
    Locks lockRule ∅ (setAddressingPortIndex index) := .modify fun _ => rfl

theorem pushCommand_locks (cmd : Command) : Locks lockRule ∅ (pushCommand cmd) :=
  .bind .get fun _ => .bind (.modify fun _ => rfl) fun _ => .pure _

/-- What the ports need. -/
def portLocks : Set Mutex := {.registers, .portConfigureState}

theorem canProcessReset_locks (portIdx : Nat) :
    Locks lockRule portLocks (canProcessReset portIdx) := by
  refine .guarded (.bind .get fun _ => .ite (.pure _) (.ite ?_ ?_)) (by simp [portLocks])
  · exact .bind (setAddressingPortIndex_locks _) fun _ => .pure _
  · exact .bind (setPortPhaseAt_locks _ _) fun _ => .pure _

theorem unwrapDevice_locks {M : Set Mutex} (device : Option Device) :
    Locks lockRule M (unwrapDevice device) := by
  cases device with
  | none => exact .panicked _
  | some device => exact .pure _

theorem withDevice_locks {α : Type} {M N : Set Mutex} {slotId : Nat}
    {body : Option Device → Handler α} (h : ∀ device, Locks lockRule M (body device))
    (hm : .device slotId ∉ M) (hsub : insert (.device slotId) M ⊆ N) :
    Locks lockRule N (withDevice slotId body) :=
  .bind .get fun _ => .bind (.ensure _ _) fun _ => .withLock (.bind .get fun _ => h _) hm hsub

/-- What a device needs: its own lock and the base address array. -/
def slotLocks (slotId : Nat) : Set Mutex := {.device slotId, .deviceContexts}

theorem readMaxSlots_locks (slotId : Nat) : Locks lockRule (slotLocks slotId) readMaxSlots :=
  .guarded (.bind .get fun _ => .pure _) (by simp [slotLocks])

theorem inspectDevice_locks {slotId : Nat} {M : Set Mutex} (hm : .device slotId ∈ M) (e : Panic) :
    Locks lockRule M (withDevice slotId fun device => ensure device.isSome e) :=
  withDevice_locks (M := ∅) (fun _ => .ensure _ _) (Set.notMem_empty _)
    (Set.insert_subset hm (Set.empty_subset M))

theorem allocateDevice_locks (portIndex slotId routing : Nat) :
    Locks lockRule (slotLocks slotId) (allocateDevice portIndex slotId routing) := by
  refine .bind (readMaxSlots_locks slotId) fun _ => .bind (.ensure _ _) fun _ => ?_
  refine withDevice_locks (M := ∅) (fun device => ?_) (Set.notMem_empty _) (by simp [slotLocks])
  exact .bind (.ensure _ _) fun _ => .modify fun _ => rfl

theorem deallocateDevice_locks (slotId : Nat) :
    Locks lockRule (slotLocks slotId) (deallocateDevice slotId) := by
  refine withDevice_locks (M := ∅) (fun device => ?_) (Set.notMem_empty _) (by simp [slotLocks])
  exact .bind (.ensure _ _) fun _ => .modify fun _ => rfl

theorem loadDeviceContext_locks (slotId : Nat) :
    Locks lockRule (slotLocks slotId) (loadDeviceContext slotId) := by
  refine .bind (readMaxSlots_locks slotId) fun _ => .bind (.ensure _ _) fun _ => ?_
  refine .bind (inspectDevice_locks (by simp [slotLocks]) _) fun _ => ?_
  exact .guarded (.pure _) (by simp [slotLocks])

/-- What a device needs while it is initialised. -/
def hostLocks : Set Mutex := {.registers, .commandRing, .eventRing, .userEventRing}

theorem awaitEvent_locks (f : Future) : Locks lockRule hostLocks (awaitEvent f) := by
  refine .bind (.guarded (.pure _) (by simp [hostLocks])) fun _ => ?_
  refine .bind (.withLock (M := {.registers}) ?_ (by simp) ?_) fun _ => .await f
  · exact .guarded (.pure _) rfl
  · rintro m (rfl | rfl) <;> simp [hostLocks]

theorem awaitCompletion_locks (trbPtr : Nat) :
    Locks lockRule hostLocks (awaitCompletion trbPtr) := by
  refine .bind (awaitEvent_locks _) fun event => ?_
  cases event with
  | commandCompletion completion => exact .pure _
  | _ => exact .panicked _

theorem hostOp_locks (slotId : Nat) (op : HostOp) :
    Locks lockRule hostLocks (hostOp slotId op) := by
  have hregisters : Locks lockRule hostLocks (withLock .registers (pure ())) :=
    .guarded (.pure _) (by simp [hostLocks])
  cases op with
  | registers => exact hregisters
  | command cmd =>
      refine .bind (.guarded (pushCommand_locks _) (by simp [hostLocks])) fun _ => ?_
      exact .bind hregisters fun _ => .bind (awaitCompletion_locks _) fun _ => .pure _
  | transfer waitOn =>
      exact .bind hregisters fun _ => .bind (awaitEvent_locks _) fun _ => .pure _
  | assignAddress device => exact .guarded (.modify fun _ => rfl) (by simp [hostLocks])
  | addDevice kind address =>
      exact .bind .get fun _ => .bind (.modify fun _ => rfl) fun _ => .ensure _ _
  | unwrapFailed => exact .panicked _

theorem hostOps_locks (slotId : Nat) (ops : List HostOp) :
    Locks lockRule hostLocks (hostOps slotId ops) := by
  induction ops with
  | nil => exact .pure _
  | cons op ops ih => exact .bind (hostOp_locks slotId op) fun _ => ih

theorem initializeDeviceAt_locks (portIdx slotId : Nat) :
    Locks lockRule Set.univ (initializeDeviceAt portIdx slotId) := by
  refine withDevice_locks (M := {.device slotId}ᶜ) (fun device => ?_) (by simp)
    (Set.subset_univ _)
  have hhost : hostLocks ⊆ {.device slotId}ᶜ := by
    rintro m (rfl | rfl | rfl | rfl) <;> simp
  refine .bind (.ensure _ _) fun _ => ?_
  refine .bind (.guarded (setPortPhaseAt_locks _ _) (by simp)) fun _ => ?_
  refine .bind (.bind .get fun _ => (hostOps_locks _ _).mono hhost) fun _ => ?_
  exact .guarded (.bind (setPortPhaseAt_locks _ _) fun _ => setAddressingPortIndex_locks _)
    (by simp)

theorem disableSlot_locks (slotId left : Nat) :
    Locks lockRule hostLocks (disableSlot slotId left) := by
  induction left with
  | zero => exact .panicked _
  | succ left ih =>
      refine .bind (.guarded (pushCommand_locks _) (by simp [hostLocks])) fun _ => ?_
      refine .bind (.guarded (.pure _) (by simp [hostLocks])) fun _ => ?_
      exact .bind (awaitCompletion_locks _) fun _ => .ite (.pure _) ih

theorem disableSlots_locks (slotIds : List Nat) :
    Locks lockRule {.portConfigureState}ᶜ (disableSlots slotIds) := by
  induction slotIds with
  | nil => exact .pure _
  | cons slotId slotIds ih =>
      refine .bind ((disableSlot_locks _ _).mono ?_) fun _ => ?_
      · rintro m (rfl | rfl | rfl | rfl) <;> simp
      refine .bind ((deallocateDevice_locks _).mono ?_) fun _ => ih
      rintro m (rfl | rfl) <;> simp

theorem enablingPort_locks : Locks lockRule portLocks enablingPort := by
  refine .guarded (.bind .get fun s => ?_) (by simp [portLocks])
  cases s.addressingPortIndex with
  | none => exact .panicked _
  | some portIdx =>
      exact .bind (portPhaseAt_locks _) fun _ => .bind (.ensure _ _) fun _ => .pure _

theorem finishAddressing_locks (portIndex : Nat) :
    Locks lockRule portLocks (finishAddressing portIndex) := by
  refine .guarded (.bind .get fun s => .bind (.ensure _ _) fun _ => ?_) (by simp [portLocks])
  refine .bind (portPhaseAt_locks _) fun _ => .bind (.ensure _ _) fun _ => ?_
  exact .bind (setAddressingPortIndex_locks _) fun _ => .pure _

theorem processTransferEvent_locks (event : TransferEvent) :
    Locks lockRule Set.univ (processTransferEvent event) := by
  rw [processTransferEvent]
  split
  · exact .panicked _
  · refine .ite (.bind ?_ fun trb => ?_) (.pure _)
    · refine withDevice_locks (M := ∅) (fun device => ?_) (Set.notMem_empty _)
        (Set.subset_univ _)
      refine .bind (.ensure _ _) fun _ => .bind .get fun s => ?_
      cases s.transferAt event.trbPointer with
      | none => exact .panicked _
      | some trb => exact .pure _
    · cases trb with
      | other => exact .pure _
      | normal transferLength =>
          refine .bind .get fun s => ?_
          cases s.classDrivers.driverKind event.slotId with
          | none => exact .panicked _
          | some kind =>
              refine .bind (.ensure _ _) fun _ =>
                .bind (inspectDevice_locks (Set.mem_univ _) _) fun _ => ?_
              exact .ite (.pure _) (.guarded (.pure _) trivial)

end Functions

namespace Volatile

variable {α : Type} {shows : PortSc → Prop} {M N : Set Mutex}

/-- What a handler locks, it also locks while the port registers change. -/
theorem locks_lift {x : Handler α} (h : Locks lockRule M x) : Locks (portRule shows) M (lift x) :=
  fun s hs => relabel_meets.mpr (h s hs)

theorem locks_withLock {m : Mutex} {x : PortHandler α} (h : Locks (portRule shows) M x)
    (hm : m ∉ M) (hsub : insert m M ⊆ N) : Locks (portRule shows) N (withLock m x) :=
  .within (fun s hfree => by simp [lift, Code.relabel, Resumption.relabel, lock, hfree])
    (fun _ => rfl) h hm
    hsub

theorem locks_guarded {m : Mutex} {x : PortHandler α} (h : Locks (portRule shows) ∅ x)
    (hm : m ∈ M) : Locks (portRule shows) M (withLock m x) :=
  locks_withLock h (Set.notMem_empty m) (Set.insert_subset hm (Set.empty_subset M))

theorem locks_withDevice {slotId : Nat} {body : Option Device → PortHandler α}
    (h : ∀ device, Locks (portRule shows) M (body device)) (hm : .device slotId ∉ M)
    (hsub : insert (.device slotId) M ⊆ N) : Locks (portRule shows) N (withDevice slotId body) :=
  .bind .get fun _ => .bind (locks_lift (.ensure _ _)) fun _ =>
    locks_withLock (.bind .get fun _ => h _) hm hsub

theorem locks_access : Locks (portRule shows) M (await .access) := by
  refine fun s _ => ⟨trivial, ?_⟩
  rintro _ _ ⟨portsc, rfl⟩
  exact rfl

theorem readVolatileAt_locks (portIdx : Nat) :
    Locks (portRule shows) ∅ (readVolatileAt .access portIdx) :=
  .bind locks_access fun _ =>
    locks_lift (.bind .get fun _ => .bind (.ensure _ _) fun _ => .pure _)

theorem updateVolatileAt_locks (portIdx : Nat) (f : PortSc → PortSc) :
    Locks (portRule shows) ∅ (updateVolatileAt portIdx f) :=
  .bind locks_access fun _ =>
    locks_lift (.bind .get fun _ => .bind (.ensure _ _) fun _ => .modify fun _ => rfl)

/-- Reading a port register under its own guard. -/
theorem readPort_locks (portIdx : Nat) (f : PortSc → α) :
    Locks (portRule shows) portLocks
      (withLock .registers do let portsc ← readVolatileAt .access portIdx; return f portsc) :=
  locks_guarded (.bind (readVolatileAt_locks _) fun _ => .pure _) (by simp [portLocks])

theorem resetRegisters_locks (portIdx : Nat) :
    Locks (portRule shows) portLocks (resetRegisters portIdx) := by
  refine locks_guarded ?_ (by simp [portLocks])
  refine .bind (updateVolatileAt_locks _ _) fun _ => ?_
  refine .bind (updateVolatileAt_locks _ _) fun _ => ?_
  refine .bind (updateVolatileAt_locks _ _) fun _ => ?_
  exact .bind (readVolatileAt_locks _) fun _ => locks_lift (.ensure _ _)

theorem resetPortAt_locks (portIdx : Nat) :
    Locks (portRule shows) portLocks (resetPortAt portIdx) := by
  refine .bind (readPort_locks _ _) fun _ => .bind (readPort_locks _ _) fun _ => ?_
  refine .ite (.pure _) (.ite (.pure _) ?_)
  refine .bind (readPort_locks _ _) fun _ => ?_
  refine .bind (locks_lift (canProcessReset_locks _)) fun _ => .ite (.pure _) ?_
  refine .bind (locks_guarded ?_ (by simp [portLocks])) fun _ => resetRegisters_locks _
  exact .bind (locks_lift (portPhaseAt_locks _)) fun _ => locks_lift (.ensure _ _)

theorem configurePortAt_locks (portIdx : Nat) :
    Locks (portRule shows) portLocks (configurePortAt portIdx) := by
  refine .bind (locks_guarded ?_ (by simp [portLocks])) fun _ => ?_
  · exact .bind (locks_lift (portPhaseAt_locks _)) fun _ => .pure _
  · exact .ite (resetPortAt_locks _) (.pure _)

/-- All locks of the controller. -/
theorem addressDeviceAt_locks (portIndex slotId routing speed : Nat)
    (parentHubSlotId parentPortIndex : Option Nat) :
    Locks (portRule shows) Set.univ (addressDeviceAt portIndex slotId routing speed
      parentHubSlotId parentPortIndex) := by
  refine .bind (locks_guarded (.modify fun _ => rfl) trivial) fun _ => ?_
  refine .bind (locks_lift ((allocateDevice_locks _ _ _).mono (Set.subset_univ _))) fun _ => ?_
  refine .bind (locks_lift (inspectDevice_locks (Set.mem_univ _) _)) fun _ => ?_
  -- the registers are locked for the rest, and then also `port_configure_state`
  refine locks_withLock (M := {.registers}ᶜ) ?_ (by simp) (Set.subset_univ _)
  refine .bind ((readVolatileAt_locks _).mono (Set.empty_subset _)) fun _ => ?_
  refine .bind (locks_lift (withDevice_locks (M := ∅) (fun device => ?_) (Set.notMem_empty _)
    (by simp))) fun _ => ?_
  · refine .bind (unwrapDevice_locks _) fun _ => .bind (.ensure _ _) fun _ => ?_
    exact .modify fun _ => rfl
  refine .bind (locks_lift ((loadDeviceContext_locks _).mono ?_)) fun _ => ?_
  · rintro m (rfl | rfl) <;> simp
  refine locks_withLock (M := {.registers, .portConfigureState}ᶜ) ?_ (by simp) ?_
  · refine .bind (locks_lift ((setPortPhaseAt_locks _ _).mono (Set.empty_subset _))) fun _ => ?_
    refine .bind (locks_lift (inspectDevice_locks (by simp) _)) fun _ => ?_
    exact locks_guarded (locks_lift (pushCommand_locks _)) (by simp)
  · intro m hm
    grind

theorem resetConnectionAt_locks (portIdx : Nat) :
    Locks (portRule shows) Set.univ (resetConnectionAt portIdx) := by
  refine locks_withLock (M := {.portConfigureState}ᶜ) ?_ (by simp) (Set.subset_univ _)
  refine .bind (locks_lift (.bind .get fun _ => .ite (.modify fun _ => rfl) (.pure _))) fun _ => ?_
  refine .bind (locks_lift ((setPortPhaseAt_locks _ _).mono (Set.empty_subset _))) fun _ => ?_
  refine .bind (locks_guarded (.bind .get fun _ => .pure _) (by simp)) fun _ => ?_
  refine .bind (locks_guarded (updateVolatileAt_locks _ _) (by simp)) fun _ => ?_
  refine .bind (locks_lift (disableSlots_locks _)) fun _ => ?_
  exact locks_guarded (.modify fun _ => rfl) (by simp)

theorem processEnableSlotCompletion_locks (slotId : Nat) :
    Locks (portRule shows) Set.univ (processEnableSlotCompletion slotId) :=
  .bind (locks_lift (enablingPort_locks.mono (Set.subset_univ _))) fun _ =>
    .bind (addressDeviceAt_locks _ _ _ _ _ _) fun _ => .pure _

/-- The next port is reset with the device still locked. -/
theorem processAddressDeviceCompletion_locks (slotId : Nat) :
    Locks (portRule shows) Set.univ (processAddressDeviceCompletion slotId) := by
  refine .bind (locks_withDevice (M := portLocks) (fun device => ?_) (by simp [portLocks])
    (Set.subset_univ _)) fun _ => locks_lift (initializeDeviceAt_locks _ _)
  cases device with
  | none => exact locks_lift (.panicked _)
  | some device =>
      refine .bind (locks_lift (.ensure _ _)) fun _ => ?_
      refine .bind (locks_lift (finishAddressing_locks _)) fun waiting => .bind ?_ fun _ => .pure _
      cases waiting with
      | none => exact .pure _
      | some portIdx => exact resetPortAt_locks _

theorem processCommandCompletionEvent_locks (event : CommandCompletion) :
    Locks (portRule shows) Set.univ (processCommandCompletionEvent event) := by
  refine .ite (.bind .get fun s => ?_) (.pure _)
  cases s.commandAt event.commandTrbPointer with
  | none => exact .pure _
  | some cmd =>
      cases cmd with
      | enableSlot => exact processEnableSlotCompletion_locks _
      | addressDevice slotId => exact processAddressDeviceCompletion_locks _
      | configureEndpoint slotId => exact locks_guarded (.modify fun _ => rfl) trivial
      | disableSlot slotId => exact locks_lift (.panicked _)
      | evaluateContext slotId => exact locks_lift (.panicked _)
      | other => exact locks_lift (.panicked _)

/-- What `enable_slot_at` reads is a PORTSC that `shows` admits. -/
theorem readVolatileAt_shows (portIdx : Nat) (s : Controller) :
    (readVolatileAt (.enableSlot portIdx) portIdx s).Meets (portRule shows) fun portsc t =>
      t.held = s.held ∧ shows portsc := by
  refine ⟨trivial, ?_⟩
  rintro _ _ ⟨portsc, hshows, rfl⟩
  refine relabel_meets.mpr ?_
  by_cases hport : portIdx < s.numberOfPorts
  · have hread : Controller.readVolatileAt portIdx (s.setPorts portsc) =
        .done (portsc portIdx) (s.setPorts portsc) := readVolatileAt_eq hport
    rw [hread]
    exact ⟨rfl, hshows⟩
  · rw [readVolatileAt_of_not (s := s.setPorts portsc) hport]
    exact fun m h => by cases h

section Ready

variable (hready : ∀ portsc, shows portsc → portsc.Ready)

include hready

/-- A port that is ready when it is read is not reset again. -/
theorem enableSlotAt_locks (portIdx : Nat) :
    Locks (portRule shows) Set.univ (enableSlotAt portIdx) := by
  refine locks_withLock (M := {.registers}ᶜ) ?_ (by simp) (Set.subset_univ _)
  refine .bind_of (P := shows) (fun s _ => readVolatileAt_shows portIdx s) fun portsc h => ?_
  rw [if_pos (hready portsc h)]
  refine .bind (locks_guarded (locks_lift (setPortPhaseAt_locks _ _)) (by simp)) fun _ => ?_
  exact locks_guarded (locks_lift (pushCommand_locks _)) (by simp)

theorem enumerate_locks (portIdx : Nat) :
    Locks (portRule shows) Set.univ (do
      resetPortAt portIdx
      let _ ← enableSlotAt portIdx
      return () : PortHandler Unit) :=
  .bind ((resetPortAt_locks _).mono (Set.subset_univ _)) fun _ =>
    .bind (enableSlotAt_locks hready _) fun _ => .pure _

theorem processNotConnected_locks (portIdx : Nat) :
    Locks (portRule shows) Set.univ (processNotConnected portIdx) := by
  refine .bind (locks_lift (.guarded (.bind .get fun _ => .ite (.pure _) ?_) trivial)) fun _ =>
    .ite (enumerate_locks hready _) (.pure _)
  exact .bind (setPortPhaseAt_locks _ _) fun _ => .pure _

theorem processResettingPort_locks (portIdx : Nat) :
    Locks (portRule shows) Set.univ (processResettingPort portIdx) :=
  .bind (locks_lift ((canProcessReset_locks _).mono (Set.subset_univ _))) fun _ =>
    .ite (.bind (enableSlotAt_locks hready _) fun _ => .pure _) (.pure _)

theorem processWaitingAddressed_locks (portIdx : Nat) (event : PortStatusChange) :
    Locks (portRule shows) Set.univ (processWaitingAddressed portIdx event) := by
  refine .bind (locks_lift (.guarded (.bind .get fun _ => .ite ?_ (.pure _)) trivial)) fun _ =>
    .ite (.bind (locks_guarded (.pure _) trivial) fun _ => enumerate_locks hready _)
      (locks_guarded (.modify fun _ => rfl) trivial)
  exact .bind (setAddressingPortIndex_locks _) fun _ => .bind (setPortPhaseAt_locks _ _) fun _ =>
    .pure _

theorem processInitPortDeviceEvent_locks (event : InitPortDevice) :
    Locks (portRule shows) Set.univ (processInitPortDeviceEvent event) := by
  have hwait (trbPtr : Nat) : Locks (portRule shows) Set.univ (lift (awaitCompletion trbPtr)) :=
    locks_lift ((awaitCompletion_locks _).mono (Set.subset_univ _))
  refine .bind (enableSlotAt_locks hready _) fun _ => .bind (hwait _) fun completion => ?_
  refine .bind (locks_lift (.ensure _ _)) fun _ => ?_
  refine .bind (addressDeviceAt_locks _ _ _ _ _ _) fun _ => .bind (hwait _) fun completion => ?_
  refine .bind (locks_lift (.ensure _ _)) fun _ => .bind .get fun s => ?_
  split
  · exact locks_lift (initializeDeviceAt_locks _ _)
  · exact .pure _

end Ready

end Volatile

end LemolaOs.Xhci.Controller
