import LemolaOs.Usb.ClassDriver
import LemolaOs.Usb.DriverTable

/-!
# One table in three views

The table of a class driver is looked at from three sides. `ClassDriver` is the driver itself.
`Ticking` is the driver in the loop of `tick_until_running_state`, which has a clock of its own: a
round of that loop is a call of the driver for each device that is not running yet
(`Ticking.tickDevice_eq`). `DriverInfo` is what the controller has to know of it, the number of
the slots and the addresses in them: `DriverInfo.Shows`. It shows the table after every run of
calls that the kernel makes, of which none removes a device, and it turns a device away if and
only if the driver does (`info_shows`).

What the views have in common is the column of the addresses. Only `add_device` and
`remove_device` write to it.
-/

namespace LemolaOs.Usb

open Attempt (Keeps)

/-- A column of the table is the same. -/
def SameColumn {τ κ : Type} (column : τ → κ) (s t : τ) : Prop := column t = column s

instance {τ κ : Type} (column : τ → κ) : Std.Refl (SameColumn column) := ⟨fun _ => rfl⟩

instance {τ κ : Type} (column : τ → κ) : IsTrans τ (SameColumn column) :=
  ⟨fun _ _ _ h h' => h'.trans h⟩

namespace ClassDriver

variable {δ σ γ : Type} {D : DeviceClass δ σ γ}

/-- The addresses, slot by slot. -/
def addresses (D : DeviceClass δ σ γ) (s : ClassDriver δ σ γ) : List (Option UInt8) :=
  s.devices.map (Option.map D.addr)

theorem reduceOption_addresses (s : ClassDriver δ σ γ) :
    (s.addresses D).reduceOption = s.devices.reduceOption.map D.addr :=
  List.reduceOption_map

/-- The device in a slot becomes another with its address. -/
theorem map_addr_set {devices : List (Option δ)} {i : Nat} {device device' : δ}
    (hslot : devices[i]? = some (some device)) (haddr : D.addr device' = D.addr device) :
    (devices.set i (some device')).map (Option.map D.addr) =
      devices.map (Option.map D.addr) := by
  obtain ⟨hi, hget⟩ := List.getElem?_eq_some_iff.mp hslot
  refine List.ext_getElem (by simp) fun j hj hj' => ?_
  rw [List.getElem_map, List.getElem_map, List.getElem_set]
  split
  next hij =>
      subst hij
      rw [hget, Option.map_some, Option.map_some, haddr]
  next => rfl

theorem keeps_tickDevice (millis i : Nat) :
    Keeps (SameColumn (addresses D)) (tickDevice D millis i) := by
  intro s
  cases hslot : s.devices[i]? with
  | none => exact Attempt.meets_of_idle (by rw [tickDevice, hslot])
  | some slot =>
      cases slot with
      | none => exact Attempt.meets_of_idle (by rw [tickDevice, hslot])
      | some device =>
          have hkeeps := D.keepsAddr millis ⟨device, s.host, s.log⟩
          rw [Attempt.Meets]
          cases hfsm : D.fsm millis ⟨device, s.host, s.log⟩ with
          | error p =>
              rw [tickDevice_of_panic hslot hfsm]
              trivial
          | ok ended =>
              obtain ⟨outcome, n⟩ := ended
              rw [tickDevice_of_ok hslot hfsm]
              cases outcome with
              | error e =>
                  have hset := map_addr_set hslot (hkeeps.failed hfsm)
                  cases e <;> exact hset
              | ok => exact map_addr_set hslot (hkeeps.returned hfsm)

/-- No call of a machine changes an address. -/
theorem keeps_tick (millis : Nat) : Keeps (SameColumn (addresses D)) (tick D millis) :=
  Attempt.keeps_get.bind fun _ => Attempt.keeps_forM_range' (keeps_tickDevice millis)

end ClassDriver

namespace Ticking

open InputOnlyDevice

variable {P : InputParams} {σ : Type} {types : UsbTypes} {host : Host σ} {i : Nat}
  {s t : Ticking P σ} {endpointSearcher : List UInt8 → Rust (Option EndpointInfo)}

/-- The devices with the machine that the loop calls. -/
abbrev loopClass (P : InputParams) (types : UsbTypes) (host : Host σ)
    (endpointSearcher : List UInt8 → Rust (Option EndpointInfo)) :
    DeviceClass (InputOnlyDevice P) σ (UInt8 × List UInt8) :=
  deviceClass P "no interface found" types host endpointSearcher

/-- The driver in the loop. -/
def driver (s : Ticking P σ) : ClassDriver (InputOnlyDevice P) σ (UInt8 × List UInt8) :=
  ⟨s.devices, s.host, s.log⟩

/-- A call of the driver, while the clock stands. -/
def callDriver {α : Type}
    (call : ClassDriver.DriverCall (InputOnlyDevice P) σ (UInt8 × List UInt8) α) :
    Attempt Panic DriverError (Ticking P σ) α := fun s => do
  let (result, d) ← call s.driver
  .ok (result, ⟨d.devices, d.host, d.log, s.millis⟩)

section CallDriver

variable {α : Type}
  {call : ClassDriver.DriverCall (InputOnlyDevice P) σ (UInt8 × List UInt8) α}

theorem callDriver_of_ok {result : Except DriverError α}
    {d : ClassDriver (InputOnlyDevice P) σ (UInt8 × List UInt8)}
    (h : call s.driver = .ok (result, d)) :
    callDriver call s = .ok (result, ⟨d.devices, d.host, d.log, s.millis⟩) := by
  rw [callDriver, h]
  rfl

theorem callDriver_of_panic {p : Panic} (h : call s.driver = .error p) :
    callDriver call s = .error p := by
  rw [callDriver, h]
  rfl

theorem keeps_callDriver {D : DeviceClass (InputOnlyDevice P) σ (UInt8 × List UInt8)}
    (h : Keeps (SameColumn (ClassDriver.addresses D)) call) :
    Keeps (SameColumn fun s : Ticking P σ => s.driver.addresses D) (callDriver call) := by
  intro s
  cases hcall : call s.driver with
  | error p =>
      rw [Attempt.Meets, callDriver_of_panic hcall]
      trivial
  | ok ended =>
      obtain ⟨outcome, d⟩ := ended
      rw [Attempt.Meets, callDriver_of_ok hcall]
      cases outcome with
      | error e => exact (h s.driver).failed hcall
      | ok a => exact (h s.driver).returned hcall

end CallDriver

/-- A device that is not running yet is called as `tick` would call it at the time of the loop,
and the clock goes on behind the call unless it has failed for good. -/
theorem tickDevice_eq {device : InputOnlyDevice P} (hslot : s.devices[i]? = some (some device))
    (hstate : device.state ≠ .running) :
    tickDevice types host i s =
      (callDriver (ClassDriver.tickDevice (loopClass P types host endpointSearcher) s.millis i) >>=
        fun _ => tickClock) s := by
  have hdriver : s.driver.devices[i]? = some (some device) := hslot
  rw [tickDevice, hslot]
  dsimp only
  rw [if_neg hstate]
  cases hfsm : InputOnlyDevice.fsm types host s.millis ⟨device, s.host, s.log⟩ with
  | error p =>
      have hpanic := ClassDriver.tickDevice_of_panic
        (D := loopClass P types host endpointSearcher) hdriver hfsm
      exact (Attempt.bind_of_panic (callDriver_of_panic hpanic)).symm
  | ok ended =>
      obtain ⟨outcome, m⟩ := ended
      have hended := ClassDriver.tickDevice_of_ok
        (D := loopClass P types host endpointSearcher) hdriver hfsm
      cases outcome with
      | error e =>
          cases e with
          | permanent reason => exact (Attempt.bind_of_error (callDriver_of_ok hended)).symm
          | retry reason =>
              rw [Attempt.bind_of_ok (callDriver_of_ok hended)]
              rfl
      | ok =>
          rw [Attempt.bind_of_ok (callDriver_of_ok hended)]
          rfl

theorem keeps_tickClock (D : DeviceClass (InputOnlyDevice P) σ (UInt8 × List UInt8)) :
    Keeps (SameColumn fun s : Ticking P σ => s.driver.addresses D) tickClock := by
  intro s
  rw [Attempt.Meets, tickClock]
  cases usizeAdd s.millis 1 with
  | error p => trivial
  | ok millis => rfl

theorem keeps_tickDevice (types : UsbTypes) (host : Host σ)
    (endpointSearcher : List UInt8 → Rust (Option EndpointInfo)) (i : Nat) :
    Keeps (SameColumn fun s : Ticking P σ =>
        s.driver.addresses (loopClass P types host endpointSearcher))
      (tickDevice types host i) := by
  intro s
  cases hslot : s.devices[i]? with
  | none => exact Attempt.meets_of_idle (by rw [tickDevice, hslot])
  | some slot =>
      cases slot with
      | none => exact Attempt.meets_of_idle (by rw [tickDevice, hslot])
      | some device =>
          by_cases hstate : device.state = .running
          · refine Attempt.meets_of_idle (a := ()) ?_
            rw [tickDevice, hslot]
            exact if_pos hstate
          · have hcall := keeps_callDriver (ClassDriver.keeps_tickDevice
              (D := loopClass P types host endpointSearcher) s.millis i)
            have hround := hcall.bind (fun _ => keeps_tickClock _) s
            rwa [Attempt.Meets, ← tickDevice_eq hslot hstate] at hround

theorem keeps_tickBody (types : UsbTypes) (host : Host σ)
    (endpointSearcher : List UInt8 → Rust (Option EndpointInfo)) :
    Keeps (SameColumn fun s : Ticking P σ =>
        s.driver.addresses (loopClass P types host endpointSearcher))
      (tickBody types host) := by
  refine (keeps_tickClock _).bind fun _ => Attempt.keeps_get.bind fun s => ?_
  split
  · exact Attempt.keeps_pure _
  · exact Attempt.keeps_get.bind fun s => Attempt.keeps_forM_range'
      (keeps_tickDevice types host endpointSearcher)

/-- The loop writes no address either, when it ends with an error too. -/
theorem addresses_tickLoop {fuel : Nat} {result : Except DriverError Unit}
    (h : tickLoop types host fuel s = Fueled.lift (.ok (result, t))) :
    t.driver.addresses (loopClass P types host endpointSearcher) =
      s.driver.addresses (loopClass P types host endpointSearcher) := by
  induction fuel generalizing s with
  | zero => exact absurd h Fueled.out_ne_lift
  | succ fuel ih =>
      rw [tickLoop] at h
      split at h
      next =>
          have hkeeps := keeps_tickBody types host endpointSearcher s
          cases hbody : tickBody types host s with
          | error p =>
              rw [hbody] at h
              cases h
          | ok ended =>
              obtain ⟨outcome, u⟩ := ended
              rw [hbody] at h
              cases outcome with
              | error e =>
                  cases h
                  exact hkeeps.failed hbody
              | ok => exact (ih h).trans (hkeeps.returned hbody)
      next =>
          cases h
          rfl

end Ticking

section Map

variable {δ σ γ : Type} {D : DeviceClass δ σ γ} {s t : ClassDriver δ σ γ} {m : DeviceMap δ σ γ}

/-- A driver with the addresses of a map stands for a map with these addresses. -/
theorem Represents.of_sameColumn (h : Represents D s m)
    (hsame : SameColumn (ClassDriver.addresses D) s t) :
    ∃ m', Represents D t m' ∧ ∀ address, m'.devices address = none ↔ m.devices address = none := by
  have hcolumn : t.devices.reduceOption.map D.addr = s.devices.reduceOption.map D.addr := by
    rw [← ClassDriver.reduceOption_addresses, ← ClassDriver.reduceOption_addresses, hsame]
  have hholds := SlotTable.Holds.of_distinct (hcolumn ▸ h.holds.distinct)
  refine ⟨⟨_, t.host, t.log⟩, ⟨hholds, rfl, rfl⟩, fun address => ?_⟩
  rw [hholds.eq_none_iff, h.holds.eq_none_iff, hcolumn]

end Map

/-- A driver that is a map is one after `tick_until_running_state`, with the same addresses. -/
theorem tickUntilRunningState_represents {P : InputParams} {σ : Type} {types : UsbTypes}
    {host : Host σ} {endpointSearcher : List UInt8 → Rust (Option EndpointInfo)}
    {s : ClassDriver (InputOnlyDevice P) σ (UInt8 × List UInt8)}
    {m : DeviceMap (InputOnlyDevice P) σ (UInt8 × List UInt8)} {t : Ticking P σ} {fuel : Nat}
    {result : Except DriverError Unit}
    (h : Represents (Ticking.loopClass P types host endpointSearcher) s m)
    (hrun : tickUntilRunningState types host s.devices s.host fuel =
      Fueled.lift (.ok (result, t))) :
    ∃ m', Represents (Ticking.loopClass P types host endpointSearcher) t.driver m' ∧
      ∀ address, m'.devices address = none ↔ m.devices address = none :=
  h.of_sameColumn (Ticking.addresses_tickLoop hrun)

namespace DriverInfo

variable {δ σ γ : Type} {D : DeviceClass δ σ γ} {s t : ClassDriver δ σ γ} {info : DriverInfo}

/-- The controller knows the table. -/
structure Shows (info : DriverInfo) (addresses : List (Option UInt8)) : Prop where
  slots : addresses.length = info.maxDevices
  devices : (addresses.reduceOption.map UInt8.toNat).Perm info.devices

theorem shows_new (maxDevices : Nat) (s : σ) :
    Shows ⟨none, [], maxDevices⟩ ((ClassDriver.new maxDevices s).addresses D) := by
  constructor
  · simp [ClassDriver.addresses, ClassDriver.new]
  · simp [ClassDriver.addresses, ClassDriver.new]

/-- There is room for both or for neither, and then both have the device. -/
theorem Shows.addDevice {address maxPacketSize : UInt8} {result : Except DriverError Unit}
    (h : info.Shows (s.addresses D)) (slotId : Nat)
    (hcall : ClassDriver.addDevice D address maxPacketSize s = .ok (result, t)) :
    ((info.addDevice slotId address.toNat).1 = true ↔ result = .ok ()) ∧
      (info.addDevice slotId address.toNat).2.Shows (t.addresses D) := by
  have hcount : info.devices.length = s.devices.reduceOption.length := by
    rw [← h.devices.length_eq, List.length_map, ClassDriver.reduceOption_addresses,
      List.length_map]
  have hslots : s.devices.length = info.maxDevices := by
    rw [← h.slots, ClassDriver.addresses, List.length_map]
  rw [ClassDriver.addDevice] at hcall
  cases hinsert : SlotTable.insert (D.new address maxPacketSize) s.devices with
  | none =>
      rw [hinsert] at hcall
      cases hcall
      have hfull : ¬info.devices.length < info.maxDevices := by
        rw [hcount, SlotTable.insert_eq_none_iff.mp hinsert, hslots]
        exact Nat.lt_irrefl _
      rw [DriverInfo.addDevice, if_neg hfull]
      refine ⟨iff_of_false Bool.false_ne_true fun hok => ?_, h.slots, h.devices⟩
      cases hok
  | some devices =>
      rw [hinsert] at hcall
      cases hcall
      obtain ⟨hlength, hperm⟩ := SlotTable.insert_spec hinsert
      have hroom : info.devices.length < info.maxDevices := by
        rw [hcount, ← hslots]
        refine Nat.lt_of_le_of_ne (List.reduceOption_length_le _) fun hfull => ?_
        rw [SlotTable.insert_eq_none_iff.mpr hfull] at hinsert
        cases hinsert
      rw [DriverInfo.addDevice, if_pos hroom]
      refine ⟨iff_of_true rfl rfl, ?_, ?_⟩
      · rw [ClassDriver.addresses, List.length_map, hlength, hslots]
      · have hcolumn := (hperm.map D.addr).map UInt8.toNat
        rw [List.map_cons, D.newAddr, List.map_cons,
          ← ClassDriver.reduceOption_addresses] at hcolumn
        rw [ClassDriver.reduceOption_addresses]
        exact hcolumn.trans ((h.devices.cons _).trans (List.perm_append_singleton _ _).symm)

/-- A call of the kernel, which never removes a device. -/
def KernelStep (D : DeviceClass δ σ γ) (s : ClassDriver δ σ γ)
    (label : ClassDriver.Op × Except DriverError Unit) (t : ClassDriver δ σ γ) : Prop :=
  ClassDriver.call D label.1 s = .ok (label.2, t) ∧
    ∀ address, label.1 ≠ .removeDevice address

/-- What the controller keeps of a call for a device in a slot. -/
inductive Step (slotOf : UInt8 → Nat) :
    DriverInfo → ClassDriver.Op × Except DriverError Unit → DriverInfo → Prop where
  | added {info info' : DriverInfo} {address maxPacketSize : UInt8}
      (h : info.addDevice (slotOf address) address.toNat = (true, info')) :
      Step slotOf info (.addDevice address maxPacketSize, .ok ()) info'
  | full {info info' : DriverInfo} {address maxPacketSize : UInt8} {e : DriverError}
      (h : info.addDevice (slotOf address) address.toNat = (false, info')) :
      Step slotOf info (.addDevice address maxPacketSize, .error e) info'
  | tick {info : DriverInfo} {millis : Nat} {result : Except DriverError Unit} :
      Step slotOf info (.tick millis, result) info

theorem Shows.step {slotOf : UInt8 → Nat} {label : ClassDriver.Op × Except DriverError Unit}
    (h : info.Shows (s.addresses D)) (hstep : KernelStep D s label t) :
    ∃ info', Step slotOf info label info' ∧ info'.Shows (t.addresses D) := by
  obtain ⟨op, result⟩ := label
  obtain ⟨hcall, hkept⟩ := hstep
  cases op with
  | addDevice address maxPacketSize =>
      obtain ⟨haccepts, hshows⟩ := h.addDevice (slotOf address) hcall
      refine ⟨_, ?_, hshows⟩
      cases result with
      | error e =>
          refine .full (Prod.ext (Bool.eq_false_iff.mpr fun haccepted => ?_) rfl)
          cases haccepts.mp haccepted
      | ok => exact .added (Prod.ext (haccepts.mpr rfl) rfl)
  | removeDevice address => exact absurd rfl (hkept address)
  | tick millis =>
      refine ⟨info, .tick, ?_⟩
      have hkeeps := ClassDriver.keeps_tick (D := D) millis s
      cases result with
      | error e => exact hkeeps.failed hcall ▸ h
      | ok => exact hkeeps.returned hcall ▸ h

/-- The controller knows the table after every run of calls of the kernel, and it has turned away
the devices that the driver has. -/
theorem info_shows (D : DeviceClass δ σ γ) (slotOf : UInt8 → Nat) (maxDevices : Nat) (s₀ : σ)
    {calls : List (ClassDriver.Op × Except DriverError Unit)}
    (hrun : Runs (KernelStep D) (.new maxDevices s₀) calls s) :
    ∃ info, Runs (Step slotOf) ⟨none, [], maxDevices⟩ calls info ∧
      info.Shows (s.addresses D) := by
  have hstep : ∀ s info label t, Shows info (s.addresses D) → KernelStep D s label t →
      ∃ info', Step slotOf info label info' ∧ info'.Shows (t.addresses D) :=
    fun _ _ _ _ h => h.step
  exact hrun.simulate hstep (shows_new maxDevices s₀)

end DriverInfo

end LemolaOs.Usb
