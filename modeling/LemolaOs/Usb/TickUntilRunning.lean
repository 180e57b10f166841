import LemolaOs.Usb.ObligingHost

/-!
# The driver's loop comes to an end

The devices are called when the clock is at a multiple of one million, the next of which is
`nextRound`. From one round to the next the clock advances by at most a `period`: one million,
and one for each device of the table. Each call brings a device on, or costs a Retry, or the
device has still to settle. From this one can tell for each device a time by which it is
running, its `deadline`, however many Retry errors come in between; it depends on the state of
the device, the next round and the Retry errors that are left, and no round makes it later. The
clock is thus bounded as long as a device is not running, and the loop ends.

The clock is a `usize`. The loop ends well if the deadlines are representable; it does not if
a device is to settle at the end of all times.
-/

namespace LemolaOs.Usb

open Attempt

variable {P : InputParams} {σ : Type}

section Deadline

/-- The next multiple of one million. -/
def nextRound (millis : Nat) : Nat := (millis / 1000000 + 1) * 1000000

/-- What the clock advances by from one round to the next, with `n` devices. -/
def period (n : Nat) : Nat := 1000000 + n

/-- The calls that a device needs, apart from those that have no effect. -/
def callsLeft : DeviceState → Nat
  | .addressed | .waitForSettle _ => 5
  | .getConfig => 4
  | .setConfig _ => 3
  | .setProtocol => 2
  | .setIdle => 1
  | .running => 0

/-- The time from which each call has an effect, if the next round is at `c`. -/
def effectiveFrom (P : InputParams) (n c : Nat) : DeviceState → Nat
  | .addressed => c + n + P.settleDelay + period n
  | .waitForSettle settled => max c (settled + period n)
  | .getConfig | .setConfig _ | .setProtocol | .setIdle | .running => c

/-- The time by which a device is running, if `r` Retry errors are left. -/
def deadline (P : InputParams) (n c r : Nat) (state : DeviceState) : Nat :=
  effectiveFrom P n c state + (r + callsLeft state) * period n

variable {n c r r' t : Nat} {state state' : DeviceState}

theorem effectiveFrom_mono {c' : Nat} (h : c ≤ c') :
    effectiveFrom P n c state ≤ effectiveFrom P n c' state := by
  cases state <;> simp only [effectiveFrom] <;> omega

theorem deadline_mono {c' : Nat} (hc : c ≤ c') (hr : r ≤ r') :
    deadline P n c r state ≤ deadline P n c' r' state :=
  Nat.add_le_add (effectiveFrom_mono hc) (Nat.mul_le_mul_right _ (by omega))

theorem effectiveFrom_add_period :
    effectiveFrom P n (c + period n) state ≤ effectiveFrom P n c state + period n := by
  cases state <;> simp only [effectiveFrom] <;> omega

/-- A period is paid for with a call or a Retry error. -/
theorem deadline_le_of_lt {c' : Nat}
    (hfrom : effectiveFrom P n c' state' ≤ effectiveFrom P n c state + period n)
    (hcalls : r' + callsLeft state' < r + callsLeft state) :
    deadline P n c' r' state' ≤ deadline P n c r state := by
  have hpaid : (r' + callsLeft state') * period n + period n ≤
      (r + callsLeft state) * period n := by
    rw [← Nat.succ_mul]
    exact Nat.mul_le_mul_right _ hcalls
  rw [deadline, deadline]
  omega

theorem deadline_retry (h : r' < r) :
    deadline P n (c + period n) r' state ≤ deadline P n c r state :=
  deadline_le_of_lt effectiveFrom_add_period (by omega)

theorem deadline_advance (ht : t ≤ c + n)
    (hrunning : InputOnlyDevice.nextState P t state ≠ .running) :
    deadline P n (c + period n) r (InputOnlyDevice.nextState P t state) ≤
      deadline P n c r state := by
  cases state with
  | addressed =>
      -- the call itself is not counted: the device has to settle first
      have hsettled : max (c + period n) (t + P.settleDelay + period n) ≤
          c + n + P.settleDelay + period n := by omega
      exact Nat.add_le_add_right hsettled _
  | waitForSettle settled =>
      have hfrom : c + period n ≤ max c (settled + period n) + period n := by omega
      exact deadline_le_of_lt hfrom (Nat.lt_succ_self _)
  | getConfig => exact deadline_le_of_lt (Nat.le_refl _) (Nat.lt_succ_self _)
  | setConfig configIndex => exact deadline_le_of_lt (Nat.le_refl _) (Nat.lt_succ_self _)
  | setProtocol => exact deadline_le_of_lt (Nat.le_refl _) (Nat.lt_succ_self _)
  | setIdle => exact absurd rfl hrunning
  | running => exact absurd rfl hrunning

/-- A device that has still to settle waits for a round behind that. -/
theorem deadline_settle {settled : Nat} (hc : c ≤ t) (ht : t ≤ settled) :
    deadline P n (c + period n) r (.waitForSettle settled) ≤
      deadline P n c r (.waitForSettle settled) := by
  have hfrom : max (c + period n) (settled + period n) ≤ max c (settled + period n) := by omega
  exact Nat.add_le_add_right hfrom _

/-- No call makes a deadline later. -/
theorem deadline_moves (hmoves : InputOnlyDevice.Moves P t state r state' r') (hc : c ≤ t)
    (ht : t ≤ c + n) (hrunning : state' ≠ .running) :
    deadline P n (c + period n) r' state' ≤ deadline P n c r state := by
  cases hmoves with
  | advance hle => exact (deadline_mono (Nat.le_refl _) hle).trans (deadline_advance ht hrunning)
  | retry hlt => exact deadline_retry hlt
  | settle hle => exact deadline_settle hc hle

theorem effectiveFrom_le_deadline : effectiveFrom P n c state ≤ deadline P n c r state :=
  Nat.le_add_right _ _

/-- No device is running before the next round is over. -/
theorem add_period_le_deadline (hrunning : state ≠ .running) :
    c + period n ≤ deadline P n c r state := by
  have hfrom : c ≤ effectiveFrom P n c state := by
    cases state <;> simp only [effectiveFrom] <;> omega
  have hcalls : 1 ≤ callsLeft state := by
    cases state with
    | running => exact absurd rfl hrunning
    | _ => simp only [callsLeft]; omega
  have hperiod : 1 * period n ≤ (r + callsLeft state) * period n :=
    Nat.mul_le_mul_right _ (by omega)
  rw [deadline]
  omega

theorem lt_nextRound (millis : Nat) : millis < nextRound millis := by
  rw [nextRound]
  omega

theorem nextRound_le (millis : Nat) : nextRound millis ≤ millis + 1000000 := by
  rw [nextRound]
  omega

/-- The next round stays what it is until it is due. -/
theorem nextRound_succ_of_not_dvd {millis : Nat} (h : (millis + 1) % 1000000 ≠ 0) :
    nextRound (millis + 1) = nextRound millis := by
  rw [nextRound, nextRound]
  omega

theorem nextRound_eq_succ {millis : Nat} (h : (millis + 1) % 1000000 = 0) :
    nextRound millis = millis + 1 := by
  rw [nextRound]
  omega

/-- The time at which a device has settled, if that is known. -/
def settledAt : DeviceState → Nat
  | .waitForSettle settled => settled
  | .addressed | .getConfig | .setConfig _ | .setProtocol | .setIdle | .running => 0

/-- The deadline at the beginning of the loop. -/
theorem deadline_start_le :
    deadline P n (nextRound 0) r state ≤ settledAt state + P.settleDelay + (r + 7) * period n := by
  have hround : nextRound 0 + n = period n := by rw [nextRound, period]
  have hcalls : callsLeft state ≤ 5 := by
    cases state <;> simp only [callsLeft] <;> omega
  have hfrom : effectiveFrom P n (nextRound 0) state ≤
      settledAt state + P.settleDelay + 2 * period n := by
    cases state <;> simp only [effectiveFrom, settledAt] <;> omega
  have hpaid : (r + callsLeft state) * period n ≤ (r + 5) * period n :=
    Nat.mul_le_mul_right _ (by omega)
  have hsum : (r + 7) * period n = (r + 5) * period n + 2 * period n := by
    rw [← Nat.add_mul]
  rw [deadline]
  omega

end Deadline

section Loop

open InputOnlyDevice

variable {types : UsbTypes} {host : Host σ} {rest : σ → Nat} {config : σ → UInt8 → List UInt8}
  {n bound c i : Nat} {s : Ticking P σ}

/-- What is required of a device of the table. -/
structure SoundDevice (types : UsbTypes) (config : σ → UInt8 → List UInt8)
    (d : InputOnlyDevice P) : Prop where
  reached : Reached types d
  suited : Suited types config d

/-- Between the rounds: all deadlines are kept. -/
structure Timely (types : UsbTypes) (rest : σ → Nat) (config : σ → UInt8 → List UInt8)
    (n bound : Nat) (s : Ticking P σ) : Prop where
  length : s.devices.length = n
  sound : ∀ d, some d ∈ s.devices → SoundDevice types config d
  deadline_le : ∀ d, some d ∈ s.devices → d.state ≠ .running →
    deadline P n (nextRound s.millis) (rest s.host) d.state ≤ bound

/-- In the round at `c`, when the devices below `i` have been called. -/
structure InRound (types : UsbTypes) (rest : σ → Nat) (config : σ → UInt8 → List UInt8)
    (n bound c i : Nat) (s : Ticking P σ) : Prop where
  length : s.devices.length = n
  sound : ∀ d, some d ∈ s.devices → SoundDevice types config d
  le_millis : c ≤ s.millis
  millis_le : s.millis ≤ c + i
  called : ∀ j d, j < i → s.devices[j]? = some (some d) → d.state ≠ .running →
    deadline P n (c + period n) (rest s.host) d.state ≤ bound
  waiting : ∀ j d, i ≤ j → s.devices[j]? = some (some d) → d.state ≠ .running →
    deadline P n c (rest s.host) d.state ≤ bound

/-- There is nothing to call at an index. -/
theorem InRound.skip (h : InRound types rest config n bound c i s)
    (hskip : ∀ d, s.devices[i]? = some (some d) → d.state = .running) :
    InRound types rest config n bound c (i + 1) s where
  length := h.length
  sound := h.sound
  le_millis := h.le_millis
  millis_le := h.millis_le.trans (by omega)
  called j d hj hd hrunning := by
    obtain hlt | rfl := Nat.lt_succ_iff_lt_or_eq.mp hj
    · exact h.called j d hlt hd hrunning
    · exact absurd (hskip d hd) hrunning
  waiting j d hj hd hrunning := h.waiting j d (by omega) hd hrunning

/-- The device at an index has been called. -/
theorem InRound.call {device : InputOnlyDevice P}
    {m : Machine (InputOnlyDevice P) σ (UInt8 × List UInt8)}
    (h : InRound types rest config n bound c i s) (hdevice : s.devices[i]? = some (some device))
    (hrunning : device.state ≠ .running) (hreached : Reached types m.device)
    (hmoved : Moved rest s.millis ⟨device, s.host, s.log⟩ m) (hi : i < n) :
    InRound types rest config n bound c (i + 1)
      ⟨s.devices.set i (some m.device), m.host, m.log, s.millis + 1⟩ where
  length := by rw [List.length_set, h.length]
  sound d hd := by
    obtain hd | heq := List.mem_or_eq_of_mem_set hd
    · exact h.sound d hd
    · cases heq
      have hsuited := (h.sound device (List.mem_of_getElem? hdevice)).suited
      exact ⟨hreached, hmoved.1.suited hsuited⟩
  le_millis := h.le_millis.trans (Nat.le_succ _)
  millis_le := Nat.succ_le_succ h.millis_le
  called j d hj hd hrunning' := by
    obtain hlt | rfl := Nat.lt_succ_iff_lt_or_eq.mp hj
    · rw [List.getElem?_set_ne (by omega)] at hd
      exact (deadline_mono (Nat.le_refl _) hmoved.2.rest_le).trans (h.called j d hlt hd hrunning')
    · have hlt : j < s.devices.length := by rw [h.length]; exact hi
      rw [List.getElem?_set_self hlt] at hd
      cases hd
      have hle := h.waiting j device (Nat.le_refl j) hdevice hrunning
      exact (deadline_moves hmoved.2 h.le_millis (h.millis_le.trans (by omega)) hrunning').trans hle
  waiting j d hj hd hrunning' := by
    rw [List.getElem?_set_ne (by omega)] at hd
    exact (deadline_mono (Nat.le_refl _) hmoved.2.rest_le).trans
      (h.waiting j d (by omega) hd hrunning')

/-- What a part of the round ends with: it neither fails nor panics. -/
def returns {α : Type} (inv : Ticking P σ → Prop) : Post Panic DriverError (Ticking P σ) α :=
  ⟨fun _ s => inv s, fun _ _ => False, fun _ => False⟩

open Ticking

theorem pending_iff : s.pending = true ↔ ∃ d, some d ∈ s.devices ∧ d.state ≠ .running := by
  rw [pending, List.any_eq_true]
  constructor
  · rintro ⟨slot, hslot, hstate⟩
    cases slot with
    | none => cases hstate
    | some d => exact ⟨d, hslot, by simpa using hstate⟩
  · rintro ⟨d, hd, hstate⟩
    exact ⟨some d, hd, by simpa using hstate⟩

theorem tickClock_meets {inv : Ticking P σ → Prop} (hclock : s.millis + 1 < usizeSize)
    (hinv : inv { s with millis := s.millis + 1 }) : tickClock.Meets s (returns inv) := by
  rw [Meets, tickClock, usizeAdd_eq_ok.mpr ⟨hclock, rfl⟩]
  exact hinv

/-- A call of the inner loop. -/
theorem call_meets {device : InputOnlyDevice P} (h : Obliging host rest config)
    (hbound : bound < usizeSize) (hi : i < n) (hs : InRound types rest config n bound c i s)
    (hdevice : s.devices[i]? = some (some device)) (hrunning : device.state ≠ .running) :
    (tickDevice types host i).Meets s (returns (InRound types rest config n bound c (i + 1))) := by
  obtain ⟨hreached, hsuited⟩ := hs.sound device (List.mem_of_getElem? hdevice)
  have hdeadline := hs.waiting i device (Nat.le_refl i) hdevice hrunning
  have hmillis := hs.millis_le
  have hclock : s.millis + 1 < usizeSize := by
    have hround := (add_period_le_deadline hrunning).trans hdeadline
    rw [period] at hround
    omega
  have hsettled (haddressed : device.state = .addressed) :
      s.millis + P.settleDelay < usizeSize := by
    have hfrom := (effectiveFrom_le_deadline).trans hdeadline
    rw [haddressed, effectiveFrom] at hfrom
    omega
  have hmoves : (InputOnlyDevice.fsm types host s.millis).Meets ⟨device, s.host, s.log⟩
      (moves rest s.millis ⟨device, s.host, s.log⟩) :=
    fsmWith_moves h hsuited hreached.found hsettled hrunning
  rw [Meets, tickDevice, hdevice]
  dsimp only
  rw [if_neg hrunning]
  cases hrun : InputOnlyDevice.fsm types host s.millis ⟨device, s.host, s.log⟩ with
  | error p => exact hmoves.panicked hrun
  | ok ended =>
      obtain ⟨result, m⟩ := ended
      have hnext : Reached types m.device := .fsmWith hreached hrun
      cases result with
      | ok =>
          exact tickClock_meets hclock (hs.call hdevice hrunning hnext (hmoves.returned hrun) hi)
      | error e =>
          obtain ⟨⟨reason, rfl⟩, hmoved⟩ := hmoves.failed hrun
          exact tickClock_meets hclock (hs.call hdevice hrunning hnext hmoved hi)

/-- A round of the inner loop. -/
theorem tickDevice_meets (h : Obliging host rest config) (hbound : bound < usizeSize) (hi : i < n)
    (hs : InRound types rest config n bound c i s) :
    (tickDevice types host i).Meets s (returns (InRound types rest config n bound c (i + 1))) := by
  have hskip (hrunning : ∀ d, s.devices[i]? = some (some d) → d.state = .running) :
      tickDevice types host i s = .ok (.ok (), s) := by
    rw [tickDevice]
    split
    next => rfl
    next => rfl
    next device hdevice => rw [if_pos (hrunning device hdevice)]
  by_cases hcall : ∃ device, s.devices[i]? = some (some device) ∧ device.state ≠ .running
  · obtain ⟨device, hdevice, hrunning⟩ := hcall
    exact call_meets h hbound hi hs hdevice hrunning
  · have hrunning : ∀ d, s.devices[i]? = some (some d) → d.state = .running := by
      simpa using hcall
    rw [Meets, hskip hrunning]
    exact hs.skip hrunning

/-- A round for all devices. -/
theorem tickDevices_meets (h : Obliging host rest config) (hbound : bound < usizeSize)
    (hs : InRound types rest config n bound c 0 s) :
    (tickDevices types host).Meets s (returns (InRound types rest config n bound c n)) := by
  have hloop : ((List.range' 0 n).forM (tickDevice types host)).Meets s
      (returns (InRound types rest config n bound c (0 + n))) :=
    meets_forM_range' (fun i s hi => tickDevice_meets h hbound (by omega)) hs
  rw [Nat.zero_add] at hloop
  refine meets_get_bind.mpr ?_
  rw [hs.length]
  exact hloop

/-- The round is over before the next one is due. -/
theorem InRound.timely (h : InRound types rest config n bound c n s) :
    Timely types rest config n bound s where
  length := h.length
  sound := h.sound
  deadline_le d hd hrunning := by
    obtain ⟨j, hj⟩ := List.mem_iff_getElem?.mp hd
    have hlt : j < n := by
      rw [← h.length]
      exact (List.getElem?_eq_some_iff.mp hj).1
    have hnext : nextRound s.millis ≤ c + period n := by
      have hround := nextRound_le s.millis
      have hmillis := h.millis_le
      rw [period]
      omega
    exact (deadline_mono hnext (Nat.le_refl _)).trans (h.called j d hlt hj hrunning)

/-- The next round is due. -/
theorem Timely.inRound (h : Timely types rest config n bound s)
    (hdue : (s.millis + 1) % 1000000 = 0) :
    InRound types rest config n bound (s.millis + 1) 0 { s with millis := s.millis + 1 } where
  length := h.length
  sound := h.sound
  le_millis := Nat.le_refl _
  millis_le := Nat.le_refl _
  called j d hj := absurd hj (Nat.not_lt_zero j)
  waiting j d _ hd hrunning := by
    have hle := h.deadline_le d (List.mem_of_getElem? hd) hrunning
    rwa [nextRound_eq_succ hdue] at hle

/-- The clock has not come to the bound. -/
theorem Timely.millis_lt (h : Timely types rest config n bound s) (hpending : s.pending = true) :
    s.millis < bound := by
  obtain ⟨d, hd, hrunning⟩ := pending_iff.mp hpending
  have hround := (add_period_le_deadline hrunning).trans (h.deadline_le d hd hrunning)
  have hmillis := lt_nextRound s.millis
  omega

/-- A round of the loop. -/
theorem tickBody_meets (h : Obliging host rest config) (hbound : bound < usizeSize)
    (hs : Timely types rest config n bound s) (hpending : s.pending = true) :
    (tickBody types host).Meets s
      (returns fun t => Timely types rest config n bound t ∧ s.millis < t.millis) := by
  have hclock : s.millis + 1 < usizeSize := by
    have := hs.millis_lt hpending
    omega
  refine meets_bind.mpr (tickClock_meets hclock ?_)
  refine meets_get_bind.mpr ?_
  dsimp only
  split
  next hdue =>
    refine meets_pure.mpr ⟨⟨hs.length, hs.sound, fun d hd hrunning => ?_⟩, Nat.lt_succ_self _⟩
    have hle := hs.deadline_le d hd hrunning
    rwa [← nextRound_succ_of_not_dvd hdue] at hle
  next hdue =>
    have hround := tickDevices_meets h hbound (hs.inRound (not_not.mp hdue))
    exact hround.mono (fun _ t ht => ⟨ht.timely, ht.le_millis⟩) (fun _ _ => id) fun _ => id

/-- A round that is made. -/
theorem tickBody_eq_ok (h : Obliging host rest config) (hbound : bound < usizeSize)
    (hs : Timely types rest config n bound s) (hpending : s.pending = true) :
    ∃ t, tickBody types host s = .ok (.ok (), t) ∧ Timely types rest config n bound t ∧
      s.millis < t.millis := by
  have hbody := tickBody_meets h hbound hs hpending
  cases hrun : tickBody types host s with
  | error p => exact (hbody.panicked hrun).elim
  | ok ended =>
      obtain ⟨result, t⟩ := ended
      cases result with
      | error e => exact (hbody.failed hrun).elim
      | ok => exact ⟨t, rfl, hbody.returned hrun⟩

theorem tickLoop_of_not_pending (fuel : Nat) (h : s.pending = false) :
    tickLoop types host (fuel + 1) s = Fueled.lift (.ok (.ok (), s)) := by
  rw [tickLoop, h]
  rfl

theorem tickLoop_of_body {t : Ticking P σ} (fuel : Nat) (h : s.pending = true)
    (hbody : tickBody types host s = .ok (.ok (), t)) :
    tickLoop types host (fuel + 1) s = tickLoop types host fuel t := by
  rw [tickLoop, h, hbody]
  rfl

/-- The loop ends, since each round takes the clock on towards the bound. -/
theorem tickLoop_returns (h : Obliging host rest config) (hbound : bound < usizeSize) (k : Nat)
    (hs : Timely types rest config n bound s) (hk : bound ≤ s.millis + k) :
    ∃ t, Returns (fun fuel => tickLoop types host fuel s) (.ok (.ok (), t)) ∧
      t.pending = false := by
  induction k generalizing s with
  | zero =>
      have hpending : s.pending = false := by
        by_contra hne
        have hlt := hs.millis_lt (Bool.of_not_eq_false hne)
        omega
      exact ⟨s, ⟨1, tickLoop_of_not_pending 0 hpending⟩, hpending⟩
  | succ k ih =>
      cases hpending : s.pending with
      | false => exact ⟨s, ⟨1, tickLoop_of_not_pending 0 hpending⟩, hpending⟩
      | true =>
          obtain ⟨t, hbody, ht, hlt⟩ := tickBody_eq_ok h hbound hs hpending
          obtain ⟨u, ⟨fuel, hloop⟩, hu⟩ := ih ht (by omega)
          exact ⟨u, ⟨fuel + 1, (tickLoop_of_body fuel hpending hbody).trans hloop⟩, hu⟩

/-- All rounds are in time. -/
theorem Timely.of_reachable {s₀ : Ticking P σ} (h : Obliging host rest config)
    (hbound : bound < usizeSize) (hs₀ : Timely types rest config n bound s₀)
    (hs : (rounds types host s₀).Reachable s) : Timely types rest config n bound s := by
  refine hs.invariant ?_ ?_
  · rintro s rfl
    exact hs₀
  · rintro s _ t - hinv ⟨hpending, result, hrun⟩
    obtain ⟨t', hbody, ht', -⟩ := tickBody_eq_ok h hbound hinv hpending
    cases hbody.symm.trans hrun
    exact ht'

end Loop

/-- The loop ends with every device running, for devices in any states that the machine reaches,
if the host gives in and the clock lasts: until the devices have settled, a period for each Retry
error, and seven for the calls. In the meantime a device has an endpoint from `SetConfig` on. -/
theorem tickUntilRunningState_returns (P : InputParams) (types : UsbTypes) (host : Host σ)
    (rest : σ → Nat) (config : σ → UInt8 → List UInt8)
    (devices : List (Option (InputOnlyDevice P))) (s : σ) (h : Obliging host rest config)
    (hreached : ∀ d, some d ∈ devices → InputOnlyDevice.Reached types d)
    (hsuited : ∀ d, some d ∈ devices → Suited types config d)
    (hclock : ∀ d, some d ∈ devices → d.state ≠ .running →
      settledAt d.state + P.settleDelay + (rest s + 7) * (1000000 + devices.length) < usizeSize) :
    (∃ t, Returns (tickUntilRunningState types host devices s) (.ok (.ok (), t)) ∧
      ∀ d, some d ∈ t.devices → d.state = .running) ∧
    ∀ t, (Ticking.rounds types host (.start devices s)).Reachable t →
      ∀ d, some d ∈ t.devices → d.state.fromSetConfig = true → d.endpoint0.isSome = true := by
  have hstart : Timely types rest config devices.length (usizeSize - 1) (.start devices s) := by
    refine ⟨rfl, fun d hd => ⟨hreached d hd, hsuited d hd⟩, fun d hd hrunning => ?_⟩
    have hle : deadline P devices.length (nextRound 0) (rest s) d.state ≤
        settledAt d.state + P.settleDelay + (rest s + 7) * period devices.length :=
      deadline_start_le
    have hlt := hclock d hd hrunning
    rw [period] at hle
    exact Nat.le_sub_one_of_lt (lt_of_le_of_lt hle hlt)
  have hbound : usizeSize - 1 < usizeSize := by
    rw [usizeSize]
    omega
  constructor
  · obtain ⟨t, hreturns, hpending⟩ := tickLoop_returns h hbound usizeSize hstart (by omega)
    refine ⟨t, hreturns, fun d hd => ?_⟩
    by_contra hrunning
    rw [pending_iff.mpr ⟨d, hd, hrunning⟩] at hpending
    cases hpending
  · intro t ht d hd
    exact ((hstart.of_reachable h hbound ht).sound d hd).reached.found

/-- A keyboard that answers after some Retry errors. -/
def retryingHost : Host Nat where
  controlTransfer ep _ bufLen s :=
    let buffer : Nat → UInt8 := fun i => keyboardConfiguration.getD i 0
    if s = 0 then .ok (⟨.ok (bufLen.getD 0), buffer, ep.inToggle, ep.outToggle⟩, 0)
    else .ok (⟨.error (.retry "busy"), buffer, ep.inToggle, ep.outToggle⟩, s - 1)
  inTransfer ep len s := .ok (⟨.ok len, fun _ => 0, ep.inToggle, ep.outToggle⟩, s)

/-- A keyboard that was added to its driver. -/
def keyboard : InputOnlyDevice .bootKeyboard := .new 1 8 (epForBootkbd .usb2)

theorem bytesOf_getD (bytes : List UInt8) {len : Nat} (h : len ≤ bytes.length) :
    bytesOf (fun i => bytes.getD i 0) len = bytes.take len := by
  refine List.ext_getElem ?_ fun i hi hi' => ?_
  · rw [length_bytesOf, List.length_take, Nat.min_eq_left h]
  · rw [length_bytesOf] at hi
    simp [bytesOf, List.getElem?_eq_getElem (lt_of_lt_of_le hi h)]

theorem retryingHost_obliging : Obliging retryingHost id fun _ _ => keyboardConfiguration where
  answers ep request bufLen s := by
    by_cases hs : s = 0
    · subst hs
      exact ⟨_, _, rfl, .inl ⟨rfl, Nat.le_refl _⟩⟩
    · have hcall : retryingHost.controlTransfer ep request bufLen s =
          .ok (⟨.error (.retry "busy"), fun i => keyboardConfiguration.getD i 0, ep.inToggle,
            ep.outToggle⟩, s - 1) := if_neg hs
      exact ⟨_, _, hcall, .inr ⟨⟨_, rfl⟩, Nat.sub_one_lt hs⟩⟩
  configuration ep len s answer s' hcall _ hlen := by
    refine ⟨?_, rfl⟩
    rw [← bytesOf_getD _ hlen]
    simp only [retryingHost] at hcall
    split at hcall
    next =>
      cases hcall
      rfl
    next =>
      cases hcall
      rfl

theorem keyboard_suited :
    Suited .usb2 (fun (_ : Nat) _ => keyboardConfiguration) keyboard where
  isConfiguration _ := ⟨by decide, by decide, by decide⟩
  found _ := by
    refine ⟨⟨0, ⟨0x81, 3, 8, 10⟩⟩, ?_⟩
    change epForBootkbd .usb2 keyboardConfiguration = _
    rw [epForBootkbd, searchEndpoint_eq keyboardConfiguration_collect]
    decide +kernel

/-- A keyboard is brought to `Running`, three Retry errors notwithstanding. -/
theorem tickUntilRunningState_returns_keyboard :
    (∃ t, Returns (tickUntilRunningState .usb2 retryingHost [some keyboard, none] 3)
        (.ok (.ok (), t)) ∧ ∀ d, some d ∈ t.devices → d.state = .running) ∧
    ∀ t, (Ticking.rounds .usb2 retryingHost (.start [some keyboard, none] 3)).Reachable t →
      ∀ d, some d ∈ t.devices → d.state.fromSetConfig = true → d.endpoint0.isSome = true := by
  have heq {d : InputOnlyDevice .bootKeyboard} (hd : some d ∈ [some keyboard, none]) :
      d = keyboard := by simpa using hd
  refine tickUntilRunningState_returns .bootKeyboard .usb2 retryingHost id
    (fun _ _ => keyboardConfiguration) [some keyboard, none] 3 retryingHost_obliging
    (fun d hd => ?_) (fun d hd => ?_) fun d hd _ => ?_
  · rw [heq hd]
    exact .new 1 8 (epForBootkbd .usb2)
  · rw [heq hd]
    exact keyboard_suited
  · rw [heq hd]
    decide

section Endless

open Ticking

variable {types : UsbTypes} {host : Host σ} {s : Ticking P σ}

/-- The only device has to settle until the clock overflows. -/
def Endless (s : Ticking P σ) : Prop :=
  s.millis < usizeSize ∧
    ∃ d, s.devices = [some d] ∧ d.state = .waitForSettle (usizeSize - 1)

theorem Endless.tickClock_meets (h : Endless s) :
    tickClock.Meets s ⟨fun _ t => Endless t, fun _ _ => False, fun _ => True⟩ := by
  rw [Meets, tickClock]
  cases hclock : usizeAdd s.millis 1 with
  | error p => trivial
  | ok millis =>
      obtain ⟨hlt, rfl⟩ := usizeAdd_eq_ok.mp hclock
      exact ⟨hlt, h.2⟩

/-- A device that has not settled is left as it is. -/
theorem fsm_of_le {m : Machine (InputOnlyDevice P) σ (UInt8 × List UInt8)} {millis settled : Nat}
    (hstate : m.device.state = .waitForSettle settled) (hle : millis ≤ settled) :
    InputOnlyDevice.fsm types host millis m = .ok (.ok (), m) := by
  rw [InputOnlyDevice.fsm, InputOnlyDevice.fsmWith,
    bind_of_ok (show get m = .ok (.ok m, m) from rfl),
    hstate]
  dsimp only
  rw [if_neg (Nat.not_lt.mpr hle)]
  rfl

theorem Endless.tickDevice_meets (h : Endless s) :
    (tickDevice types host 0).Meets s ⟨fun _ t => Endless t, fun _ _ => False, fun _ => True⟩ := by
  obtain ⟨hmillis, d, hdevices, hstate⟩ := h
  have hcall : InputOnlyDevice.fsm types host s.millis ⟨d, s.host, s.log⟩ =
      .ok (.ok (), ⟨d, s.host, s.log⟩) := fsm_of_le hstate (Nat.le_sub_one_of_lt hmillis)
  have hslot : s.devices[0]? = some (some d) := by rw [hdevices]; rfl
  have hrunning : d.state ≠ .running := by rw [hstate]; exact nofun
  have hendless : Endless { s with devices := s.devices.set 0 (some d) } :=
    ⟨hmillis, d, by rw [hdevices]; rfl, hstate⟩
  rw [Meets, tickDevice, hslot]
  dsimp only
  rw [if_neg hrunning, hcall]
  exact hendless.tickClock_meets

theorem Endless.tickBody_meets (h : Endless s) :
    (tickBody types host).Meets s ⟨fun _ t => Endless t, fun _ _ => False, fun _ => True⟩ := by
  refine meets_bind.mpr (h.tickClock_meets.mono (fun _ t ht => ?_) (fun _ _ => id) fun _ => id)
  refine meets_get_bind.mpr ?_
  split
  · exact ht
  · have hround : (tickDevice types host 0).Meets t
        ⟨fun _ t => Endless t, fun _ _ => False, fun _ => True⟩ := ht.tickDevice_meets
    obtain ⟨-, d, hdevices, -⟩ := ht
    refine meets_get_bind.mpr ?_
    rw [hdevices]
    exact meets_bind.mpr hround

/-- The loop never ends well. -/
theorem Endless.tickLoop_ne (h : Endless s) (fuel : Nat) (t : Ticking P σ) :
    tickLoop types host fuel s ≠ Fueled.lift (.ok (.ok (), t)) := by
  induction fuel generalizing s with
  | zero => exact Fueled.out_ne_lift
  | succ fuel ih =>
      have hround : (tickBody types host).Meets s _ := h.tickBody_meets
      obtain ⟨-, d, hdevices, hstate⟩ := h
      have hpending : s.pending = true :=
        pending_iff.mpr ⟨d, by rw [hdevices]; exact List.mem_singleton_self _,
          by rw [hstate]; exact nofun⟩
      cases hbody : tickBody types host s with
      | error p =>
          rw [tickLoop, hpending, hbody]
          exact nofun
      | ok ended =>
          obtain ⟨result, t'⟩ := ended
          cases result with
          | error e => exact (hround.failed hbody).elim
          | ok =>
              rw [tickLoop_of_body fuel hpending hbody]
              exact ih (hround.returned hbody)

end Endless

/-- A keyboard that is to settle at the last time there is. The host has no Retry error left. -/
theorem endless_settle_never_running :
    ¬ ∀ (P : InputParams) (types : UsbTypes) (host : Host Nat) (rest : Nat → Nat)
      (config : Nat → UInt8 → List UInt8) (devices : List (Option (InputOnlyDevice P))) (s : Nat),
      Obliging host rest config → (∀ d, some d ∈ devices → InputOnlyDevice.Reached types d) →
      (∀ d, some d ∈ devices → Suited types config d) →
      ∃ t, Returns (tickUntilRunningState types host devices s) (.ok (.ok (), t)) ∧
        ∀ d, some d ∈ t.devices → d.state = .running := by
  intro hall
  have hcall : InputOnlyDevice.fsmWith "no interface found" .usb2 retryingHost (usizeSize - 3)
      ⟨keyboard, 0, []⟩ =
      .ok (.ok (), ⟨keyboard.setState (.waitForSettle (usizeSize - 1)), 0, []⟩) := rfl
  have hreached : InputOnlyDevice.Reached .usb2
      (keyboard.setState (.waitForSettle (usizeSize - 1))) :=
    .fsmWith (.new 1 8 (epForBootkbd .usb2)) hcall
  have hsame : InputOnlyDevice.SameDevice keyboard
      (keyboard.setState (.waitForSettle (usizeSize - 1))) := ⟨rfl, rfl⟩
  have hsuited := hsame.suited keyboard_suited
  obtain ⟨t, ⟨fuel, hloop⟩, -⟩ := hall .bootKeyboard .usb2 retryingHost id
    (fun _ _ => keyboardConfiguration) [some (keyboard.setState (.waitForSettle (usizeSize - 1)))] 0
    retryingHost_obliging (by simpa using hreached) (by simpa using hsuited)
  exact Endless.tickLoop_ne ⟨by decide, _, rfl, rfl⟩ fuel t hloop

end LemolaOs.Usb
