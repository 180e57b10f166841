import LemolaOs.Library.Inevitable
import LemolaOs.Usb.ControlPipe

/-!
# Every control transfer is answered

A controller that reports what it is asked to report, and other futures that leave alone what the
driver waits for, are all that a transfer needs. It is answered in every run then: something can be
done as long as it is not, and everything that is done brings it nearer. Two stages may ask for an
event in a row, and old reports may stand before the one that the driver waits for.
-/

namespace LemolaOs.Usb

open Xhci

namespace StageTrb

/-- The length that a report about the stage can leave. -/
def dataLength : StageTrb → Nat
  | .data _ length _ _ => length.toNat
  | .setup _ _ | .status _ _ => 0

/-- The controller reports at most once about a stage, and does so if it is asked to. A short
packet leaves no more than what was to be transferred. -/
structure Reports (stage : StageTrb) (reports : List (Nat × Nat)) : Prop where
  length_le : reports.length ≤ 1
  interrupts : stage.interrupts = true → reports ≠ []
  residue : ∀ r ∈ reports, r.1 = shortPacket → r.2 ≤ stage.dataLength

theorem reports_success (stage : StageTrb) : stage.Reports [(success, 0)] where
  length_le := le_rfl
  interrupts := fun _ => List.cons_ne_nil _ _
  residue := by
    intro r hr hshort
    rw [List.mem_singleton] at hr
    subst hr
    exact absurd hshort (by decide)

end StageTrb

namespace ControlTransfer

variable {transfer : ControlTransfer} {stage : StageTrb}

/-- What was to be transferred is the length of the request. -/
theorem dataLength_le (h : transfer.Fits) (hmem : stage ∈ transfer.stages) :
    stage.dataLength ≤ ((transfer.buf.map Prod.snd).map (· % 2 ^ 16)).getD 0 := by
  rw [stages] at hmem
  split at hmem
  next pointer len hbuf =>
    have hlen : len < 2 ^ 16 := h _ hbuf
    rw [hbuf, Option.map_some, Option.map_some, Option.getD_some, Nat.mod_eq_of_lt hlen]
    simp only [List.mem_cons, List.not_mem_nil, or_false] at hmem
    obtain rfl | rfl | rfl := hmem
    · exact Nat.zero_le _
    · rw [StageTrb.dataLength, UInt32.toNat_ofNat', Nat.mod_eq_of_lt (by omega)]
    · exact Nat.zero_le _
  next =>
    simp only [List.mem_cons, List.not_mem_nil, or_false] at hmem
    obtain rfl | rfl := hmem
    · exact Nat.zero_le _
    · exact Nat.zero_le _

end ControlTransfer

/-- The answer can be taken if a short packet leaves no more than the request. -/
theorem exists_controlTransferResult {bufLen : Option Nat} {trb : CompletedTransfer}
    (h : trb.completionCode = shortPacket →
      trb.trbTransferLength ≤ (bufLen.map (· % 2 ^ 16)).getD 0) :
    ∃ result, controlTransferResult bufLen trb = .ok result := by
  rw [controlTransferResult]
  cases hcode : completionCode trb.completionCode with
  | none => exact ⟨_, rfl⟩
  | some code =>
      by_cases hshort : code = shortPacket
      · have hsame : trb.completionCode = shortPacket := by
          rw [completionCode] at hcode
          split at hcode
          · exact (Option.some.inj hcode).trans hshort
          · cases hcode
        have hsub := usizeSub_eq_ok.mpr ⟨h hsame, rfl⟩
        simp only [if_pos hshort, hsub]
        exact ⟨_, rfl⟩
      · simp only [if_neg hshort]
        split
        · exact ⟨_, rfl⟩
        · exact ⟨_, rfl⟩

namespace ControlPipe

variable {links : LinkTrb} {trbs : StageTrbs links} {buffer : TrbBuffer} {m : Nat}
  {s t : ControlPipe}

/-- What a step has to keep to for the transfers to be answered. -/
def Obliging (trbs : StageTrbs links) (s : ControlPipe) : Label → Prop
  | .execute reports => ∃ stage, trbs.decode (s.shared.memory s.shared.dequeue) = some stage ∧
      stage.Reports reports
  | .aside => ∀ c ∈ s.current, ∀ posted ∈ s.events.head?, posted.event.trbPointer ∉ c.waitOn
  | .submit _ | .push | .write | .follow | .poll => True

/-- The stages of all transfers up to now. -/
def stages (s : ControlPipe) : List StageTrb := s.submitted.flatMap ControlTransfer.stages

/-- What the reports are good for. -/
structure Reporting (s : ControlPipe) : Prop where
  residue : ∀ posted ∈ s.events, ∀ stage, s.stages[posted.index]? = some stage →
    posted.event.completionCode = shortPacket → posted.event.trbTransferLength ≤ stage.dataLength
  /-- As long as nothing is reported, no stage that asks for it is executed. -/
  awaited : ∀ c ∈ s.current, (∃ posted ∈ s.events, s.base ≤ posted.index) ∨
    ∀ j stage, c.transfer.stages[j]? = some stage → stage.interrupts = true →
      s.shared.executed.length ≤ s.base + j

/-- The Link TRB is to be followed before anything else. -/
def atLink (m dequeue : Nat) : Nat := if dequeue = m then 1 else 0

/-- What is still to be done at most: the writes of the stages to come, their execution, the reports
about them and the Link TRB. -/
def work (m : Nat) (s : ControlPipe) : Nat :=
  s.todo.length * 12 + s.shared.pending.length +
    (s.shared.pushed.length - s.shared.executed.length) * 3 +
    atLink m s.shared.dequeue + s.events.length

/-- The stage that the controller executes. -/
theorem Inv.decode_dequeue (inv : Inv trbs buffer m s) (hlen : buffer.len = m + 1) (hm : 6 ≤ m)
    {shared : Shared TransferRing}
    (h : Shared.Step links (TransferRing.push links) s.shared .execute shared) :
    ∃ stage, trbs.decode (s.shared.memory s.shared.dequeue) = some stage ∧
      s.stages[s.shared.executed.length]? = some stage := by
  have hnext := (inv.execute hlen hm [] h).decode_executed hlen hm
  cases h with
  | execute owned notLink =>
      rw [List.map_append, List.map_singleton] at hnext
      obtain ⟨rest, hrest⟩ := hnext
      have hget := congrArg (·[s.shared.executed.length]?) hrest
      simp only [List.append_assoc, List.singleton_append, List.getElem?_map] at hget
      rw [List.getElem?_append_right (by rw [List.length_map]), List.length_map, Nat.sub_self,
        List.getElem?_cons_zero] at hget
      obtain ⟨stage, hstage, hdecode⟩ := Option.map_eq_some_iff.mp hget.symm
      exact ⟨stage, hdecode.symm, hstage⟩

theorem getElem?_stages {c : InProgress} (current : s.current = some c) {k : Nat}
    (h : s.base ≤ k) : s.stages[k]? = c.transfer.stages[k - s.base]? := by
  rw [stages, submitted_of_some current, List.flatMap_append, List.flatMap_singleton,
    List.getElem?_append_right h]
  rfl

theorem Inv.length_stages (inv : Inv trbs buffer m s) :
    s.shared.pushed.length + s.todo.length = s.stages.length := by
  have hlength := congrArg List.length inv.pushed
  rwa [List.length_append, List.length_map, List.length_map] at hlength

/-- The driver waits on every event about the current transfer. -/
theorem Inv.mem_waitOn (inv : Inv trbs buffer m s) (hlen : buffer.len = m + 1) (hm : 6 ≤ m)
    {c : InProgress} (current : s.current = some c) {posted : Posted} (hposted : posted ∈ s.events)
    (hbase : s.base ≤ posted.index) : posted.event.trbPointer ∈ c.waitOn := by
  obtain ⟨hcount, hwait⟩ := inv.waitOn c current
  have hlt := (inv.reported posted hposted).lt
  have hexecuted := executed_le hlen (by omega) inv.shared
  rw [(inv.reported posted hposted).pointer, hwait]
  refine List.mem_map_of_mem ?_
  rw [List.mem_range'_1]
  omega

namespace Reporting

theorem new : Reporting (new buffer) where
  residue := fun _ h => absurd h List.not_mem_nil
  awaited := fun _ h => absurd h.symm (Option.some_ne_none _)

/-- What was reported about a stage stays true when the next transfer is submitted. -/
theorem submit (h : Reporting s) (inv : Inv trbs buffer m s) (hlen : buffer.len = m + 1)
    (hm : 6 ≤ m) {transfer : ControlTransfer} (idle : s.current = none) (fits : transfer.Fits) :
    Reporting { s with current := some ⟨transfer, transfer.stages, []⟩ } := by
  have hexecuted := executed_le hlen (by omega) inv.shared
  have hstages : stages { s with current := some ⟨transfer, transfer.stages, []⟩ } =
      s.stages ++ transfer.stages := by
    rw [stages, submitted_of_some rfl, stages, submitted_of_none idle, List.flatMap_append,
      List.flatMap_singleton]
  refine ⟨?_, ?_⟩
  · intro posted hposted stage hstage
    have hlt := (inv.reported posted hposted).lt
    have hlength := inv.length_stages
    rw [hstages, List.getElem?_append_left (by omega)] at hstage
    exact h.residue posted hposted stage hstage
  · rintro c hc
    cases hc
    refine .inr fun j _ _ _ => ?_
    have hcount := ((inv.submit idle fits).waitOn _ rfl).1
    change s.base + 0 = s.shared.pushed.length at hcount
    change s.shared.executed.length ≤ s.base + j
    omega

/-- A step that leaves the transfers and the events as they are. -/
theorem frame (h : Reporting s) (hsubmitted : t.submitted = s.submitted)
    (hevents : t.events = s.events) (hbase : t.base = s.base)
    (hexecuted : t.shared.executed = s.shared.executed)
    (hcurrent : ∀ c' ∈ t.current, ∃ c ∈ s.current, c'.transfer = c.transfer) : Reporting t := by
  refine ⟨?_, ?_⟩
  · intro posted hposted stage hstage
    rw [stages, hsubmitted] at hstage
    rw [hevents] at hposted
    exact h.residue posted hposted stage hstage
  · intro c' hc'
    obtain ⟨c, hc, hsame⟩ := hcurrent c' hc'
    rw [hevents, hbase, hexecuted, hsame]
    exact h.awaited c hc

/-- The report about a stage that asks for one. -/
theorem execute (h : Reporting s) (inv : Inv trbs buffer m s) (hlen : buffer.len = m + 1)
    (hm : 6 ≤ m) {reports : List (Nat × Nat)} {shared : Shared TransferRing}
    (hstep : Shared.Step links (TransferRing.push links) s.shared .execute shared)
    (oblige : Obliging trbs s (.execute reports)) :
    Reporting
      { s with
        shared := shared
        events := s.events ++ reports.map fun r => s.report r.1 r.2 } := by
  obtain ⟨stage, hdecode, hreports⟩ := oblige
  obtain ⟨stage', hdecode', hstage⟩ := inv.decode_dequeue hlen hm hstep
  obtain rfl : stage = stage' := Option.some.inj (hdecode.symm.trans hdecode')
  have hnext : shared.executed.length = s.shared.executed.length + 1 := by
    cases hstep with
    | execute owned notLink => rw [List.length_append, List.length_singleton]
  refine ⟨?_, ?_⟩
  · intro posted hposted other hother
    rw [List.mem_append, List.mem_map] at hposted
    obtain hposted | ⟨r, hr, rfl⟩ := hposted
    · exact h.residue posted hposted other hother
    · obtain rfl : stage = other := Option.some.inj (hstage.symm.trans hother)
      exact hreports.residue r hr
  · intro c hc
    have hcurrent : s.current = some c := hc
    obtain ⟨posted, hposted, hbase⟩ | hnone := h.awaited c hc
    · exact .inl ⟨posted, List.mem_append_left _ hposted, hbase⟩
    · by_cases hhit : ∃ j other, c.transfer.stages[j]? = some other ∧ other.interrupts = true ∧
        s.shared.executed.length = s.base + j
      · obtain ⟨j, other, hother, hinterrupts, hindex⟩ := hhit
        have hsame : s.stages[s.shared.executed.length]? = some other := by
          rwa [getElem?_stages hcurrent (by omega), hindex, Nat.add_sub_cancel_left]
        obtain rfl : stage = other := Option.some.inj (hstage.symm.trans hsame)
        obtain ⟨r, rs, hcons⟩ := List.exists_cons_of_ne_nil (hreports.interrupts hinterrupts)
        refine .inl ⟨s.report r.1 r.2, ?_, ?_⟩
        · rw [hcons]
          exact List.mem_append_right _ List.mem_cons_self
        · change s.base ≤ s.shared.executed.length
          omega
      · refine .inr fun j other hother hinterrupts => ?_
        have hle := hnone j other hother hinterrupts
        have hne : s.shared.executed.length ≠ s.base + j := fun heq =>
          hhit ⟨j, other, hother, hinterrupts, heq⟩
        change shared.executed.length ≤ s.base + j
        omega

/-- An event that the driver does not wait for leaves the event ring. -/
theorem aside (h : Reporting s) (inv : Inv trbs buffer m s) (hlen : buffer.len = m + 1)
    (hm : 6 ≤ m) {posted : Posted} {events : List Posted} (front : s.events = posted :: events)
    (oblige : Obliging trbs s .aside) : Reporting { s with events := events } := by
  refine ⟨?_, ?_⟩
  · intro p hp
    exact h.residue p (front ▸ List.mem_cons_of_mem _ hp)
  · intro c hc
    obtain ⟨p, hp, hbase⟩ | hnone := h.awaited c hc
    · have hmine := inv.mem_waitOn hlen hm hc hp hbase
      rw [front, List.mem_cons] at hp
      obtain rfl | hp := hp
      · exact absurd hmine (oblige c hc p (by rw [front]; rfl))
      · exact .inl ⟨p, hp, hbase⟩
    · exact .inr hnone

theorem poll (h : Reporting s) {c : InProgress} {posted : Posted} {events : List Posted}
    {result : Except TransferError Nat} (current : s.current = some c)
    (front : s.events = posted :: events) : Reporting (s.ready c posted events result) := by
  refine ⟨?_, fun _ h => absurd h.symm (Option.some_ne_none _)⟩
  intro p hp stage hstage
  rw [stages, submitted_ready current] at hstage
  exact h.residue p (front ▸ List.mem_cons_of_mem _ hp) stage hstage

theorem step (h : Reporting s) (inv : Inv trbs buffer m s) (hlen : buffer.len = m + 1)
    (hm : 6 ≤ m) {i : Label} (oblige : Obliging trbs s i) (hstep : Step trbs s i t) :
    Reporting t := by
  cases hstep with
  | submit idle fits => exact h.submit inv hlen hm idle fits
  | push current next idle hpush =>
      refine h.frame ?_ rfl rfl rfl ?_
      · rw [submitted_of_some current, submitted_of_some rfl]
        rfl
      · rintro c' hc'
        cases hc'
        exact ⟨_, current, rfl⟩
  | write hshared =>
      cases hshared with
      | write hpending => exact h.frame rfl rfl rfl rfl fun c hc => ⟨c, hc, rfl⟩
  | execute hshared => exact h.execute inv hlen hm hshared oblige
  | follow hshared =>
      cases hshared with
      | follow owned link => exact h.frame rfl rfl rfl rfl fun c hc => ⟨c, hc, rfl⟩
  | poll current pushed idle front mine hresult => exact h.poll current front
  | aside front => exact h.aside inv hlen hm front oblige

end Reporting

theorem length_writes_le {r : ProducerRing} (hlen : buffer.len = m + 1) (hm : 0 < m) {p : Nat}
    (hr : r = .after buffer m p) {trb : TrbRaw} {writes : List WordWrite} {ring : ProducerRing}
    {ptr : Nat} (h : r.push links trb = .ok (writes, ring, ptr)) : writes.length ≤ 8 := by
  rw [hr, ProducerRing.push_after hlen hm] at h
  simp only [Except.ok.injEq, Prod.mk.injEq] at h
  obtain ⟨rfl, -, -⟩ := h
  rw [ProducerRing.linkWrites]
  split
  · exact le_rfl
  · exact Nat.le_add_left 4 4

/-- The Link TRB is followed at the end of the ring. -/
theorem dequeue_eq_of_follow {shared : Shared TransferRing} (hlen : buffer.len = m + 1)
    (hm : 0 < m)
    (hshared : (Shared.system links (TransferRing.push links) (.new buffer) (m + 1)).Reachable
      shared)
    (owned : (shared.memory shared.dequeue).cycleBit = shared.ccs)
    (link : links.isLink (shared.memory shared.dequeue) = true) : shared.dequeue = m := by
  have inv := ring_inv hlen hm hshared
  obtain ⟨f, -, hdeq, -⟩ := inv.delivery.reader
  refine Nat.le_antisymm hdeq (Nat.not_lt.mp fun hlt => ?_)
  exact Bool.false_ne_true ((inv.front_notLink hlt owned).symm.trans link)

/-- The transfer is answered, or there is less to be done for it. -/
theorem Inv.next (inv : Inv trbs buffer m s) (hlen : buffer.len = m + 1) (hm : 6 ≤ m)
    {c : InProgress} (current : s.current = some c) {i : Label} (oblige : Obliging trbs s i)
    (hstep : Step trbs s i t) :
    (∃ posted result, t.answered = s.answered ++ [⟨c.transfer, posted, result⟩]) ∨
      t.answered = s.answered ∧ (∃ c', t.current = some c' ∧ c'.transfer = c.transfer) ∧
        t.work m < s.work m := by
  have hle := executed_le hlen (by omega) inv.shared
  cases hstep with
  | submit idle fits => exact absurd (idle.symm.trans current).symm (Option.some_ne_none _)
  | poll current' pushed idle front mine h =>
      obtain rfl := Option.some.inj (current.symm.trans current')
      exact .inl ⟨_, _, rfl⟩
  | push current' next idle h =>
      obtain rfl := Option.some.inj (current.symm.trans current')
      refine .inr ⟨rfl, ⟨_, rfl, rfl⟩, ?_⟩
      have hwrites := length_writes_le hlen (by omega) (ring_inv hlen (by omega) inv.shared).ring
        ((TransferRing.push_wraps links).core_push h)
      simp only [work, todo, pushing, current, Option.elim_some, next, idle, List.length_append,
        List.length_cons, List.length_nil]
      omega
  | write h =>
      cases h with
      | write hpending =>
          refine .inr ⟨rfl, ⟨c, current, rfl⟩, ?_⟩
          simp only [work, todo, current, Option.elim_some, hpending, List.length_cons]
          omega
  | execute h =>
      have hnext := executed_le hlen (by omega) (inv.execute hlen hm [] h).shared
      obtain ⟨stage, -, hreports⟩ := oblige
      have hone := hreports.length_le
      cases h with
      | execute owned notLink =>
          refine .inr ⟨rfl, ⟨c, current, rfl⟩, ?_⟩
          simp only [List.length_append, List.length_singleton] at hnext
          have hlink : atLink m (s.shared.dequeue + 1) ≤ 1 := by
            rw [atLink]
            split <;> omega
          simp only [work, todo, current, Option.elim_some, List.length_append, List.length_map,
            List.length_singleton]
          omega
  | follow h =>
      cases h with
      | follow owned link =>
          refine .inr ⟨rfl, ⟨c, current, rfl⟩, ?_⟩
          have hdequeue := dequeue_eq_of_follow hlen (by omega) inv.shared owned link
          have hbefore : atLink m s.shared.dequeue = 1 := if_pos hdequeue
          have hafter : atLink m 0 = 0 := if_neg (by omega)
          simp only [work, todo, current, Option.elim_some, hbefore, hafter]
          omega
  | aside front =>
      refine .inr ⟨rfl, ⟨c, current, rfl⟩, ?_⟩
      simp only [work, todo, current, Option.elim_some, front, List.length_cons]
      omega

/-- What the controller can do, it can do obligingly. -/
theorem Inv.exists_controller (inv : Inv trbs buffer m s) (hlen : buffer.len = m + 1) (hm : 6 ≤ m)
    (hmore : s.shared.executed.length < s.shared.pushed.length) (idle : s.shared.pending = []) :
    ∃ i t, Obliging trbs s i ∧ Step trbs s i t := by
  by_contra hstuck
  have hreachable : (Shared.system links (TransferRing.push links) (.new buffer)
      buffer.len).Reachable s.shared := hlen ▸ inv.shared
  have hsafe := Shared.safe_of_reachable (TransferRing.push_wraps links) rfl (by omega) hreachable
  have hnone : ∀ i shared, Shared.Label.isController i = true →
      ¬ Shared.Step links (TransferRing.push links) s.shared i shared := by
    intro i shared hi hstep
    cases i with
    | push trb => cases hi
    | write => cases hi
    | execute =>
        obtain ⟨stage, hdecode, -⟩ := inv.decode_dequeue hlen hm hstep
        exact hstuck ⟨.execute [(success, 0)], _, ⟨stage, hdecode, stage.reports_success⟩,
          .execute hstep⟩
    | follow => exact hstuck ⟨.follow, _, trivial, .follow hstep⟩
  have hall := congrArg List.length (hsafe.complete hnone)
  rw [Shared.length_stamped, idle, hlen, Shared.written_nil] at hall
  omega

/-- An event that the driver waits for is an answer. -/
theorem Reporting.exists_result (h : Reporting s) (inv : Inv trbs buffer m s)
    (hlen : buffer.len = m + 1) (hm : 6 ≤ m) {c : InProgress} (current : s.current = some c)
    {posted : Posted} (hposted : posted ∈ s.events) (mine : posted.event.trbPointer ∈ c.waitOn) :
    ∃ result, controlTransferResult (c.transfer.buf.map Prod.snd) posted.event = .ok result := by
  have hbase := inv.base_le_index hlen hm current hposted mine
  have hlt := (inv.reported posted hposted).lt
  have hexecuted := executed_le hlen (by omega) inv.shared
  have hlength := inv.length_stages
  have hindex : posted.index < s.stages.length := by omega
  have hstage : s.stages[posted.index]? = some s.stages[posted.index] :=
    List.getElem?_eq_getElem hindex
  have hmem : s.stages[posted.index] ∈ c.transfer.stages := by
    rw [getElem?_stages current hbase] at hstage
    exact List.mem_of_getElem? hstage
  have hfits : c.transfer.Fits := by
    refine inv.fits _ ?_
    rw [submitted_of_some current]
    exact List.mem_append_right _ (List.mem_singleton_self _)
  exact exists_controlTransferResult fun hshort =>
    (h.residue posted hposted _ hstage hshort).trans (ControlTransfer.dataLength_le hfits hmem)

/-- Something can be done for the current transfer. -/
theorem Inv.possible (inv : Inv trbs buffer m s) (hlen : buffer.len = m + 1) (hm : 6 ≤ m)
    (h : Reporting s) {c : InProgress} (current : s.current = some c) :
    ∃ i t, Obliging trbs s i ∧ Step trbs s i t := by
  by_cases idle : s.shared.pending = []
  · by_cases pushed : c.todo = []
    · cases hevents : s.events with
      | cons posted events =>
          by_cases mine : posted.event.trbPointer ∈ c.waitOn
          · have hposted : posted ∈ s.events := by
              rw [hevents]
              exact List.mem_cons_self
            obtain ⟨result, hresult⟩ := h.exists_result inv hlen hm current hposted mine
            exact ⟨.poll, _, trivial, .poll current pushed idle hevents mine hresult⟩
          · refine ⟨.aside, _, ?_, .aside hevents⟩
            intro c' hc' p hp
            obtain rfl := Option.some.inj (current.symm.trans hc')
            rw [hevents, List.head?_cons] at hp
            obtain rfl := Option.some.inj hp
            exact mine
      | nil =>
          obtain ⟨posted, hposted, -⟩ | hnone := h.awaited c current
          · rw [hevents] at hposted
            exact absurd hposted List.not_mem_nil
          · -- the stage that asks for an event is still to be executed
            obtain ⟨j, hj, hinterrupts⟩ := c.transfer.exists_interrupts
            have hle := hnone j _ (List.getElem?_eq_getElem hj) hinterrupts
            have hlength := inv.length_stages
            have htodo : s.todo = [] := by rw [todo, current, Option.elim_some, pushed]
            have hstages : s.stages.length = s.base + c.transfer.stages.length := by
              rw [stages, ← stageCount, submitted_of_some current, stageCount_append,
                stageCount_singleton]
              rfl
            rw [htodo, List.length_nil, hstages] at hlength
            exact inv.exists_controller hlen hm (by omega) idle
    · obtain ⟨t, hpush⟩ := inv.exists_push hlen hm current pushed idle
      exact ⟨.push, t, trivial, hpush⟩
  · obtain ⟨d, rest, hpending⟩ := List.exists_cons_of_ne_nil idle
    exact ⟨.write, _, trivial, .write (.write hpending)⟩

/-- The history of a pipe whose steps are obliging. -/
theorem inv_of_guarded (hlen : buffer.len = m + 1) (hm : 6 ≤ m)
    (hs : ((system trbs buffer).guard (Obliging trbs)).Reachable s) :
    Inv trbs buffer m s ∧ Reporting s := by
  apply hs.invariant
  · rintro s rfl
    exact ⟨.new, .new⟩
  · rintro s i t - ⟨inv, h⟩ ⟨oblige, hstep⟩
    exact ⟨inv.step hlen hm hstep, h.step inv hlen hm oblige hstep⟩

/-- A transfer that is begun is answered, whatever the order in which the driver, the controller
and the other futures take their steps. -/
theorem control_transfer_answered (trbs : StageTrbs links) (buffer : TrbBuffer)
    (hlen : 7 ≤ buffer.len) (s : ControlPipe)
    (hs : ((system trbs buffer).guard (Obliging trbs)).Reachable s) (c : InProgress)
    (hc : s.current = some c) :
    ((system trbs buffer).guard (Obliging trbs)).Inevitable
      (fun t => ∃ posted result, t.answered = s.answered ++ [⟨c.transfer, posted, result⟩]) s := by
  obtain ⟨m, hm⟩ := Nat.exists_eq_add_of_le' (by omega : 1 ≤ buffer.len)
  have hsix : 6 ≤ m := by omega
  let Current (t : ControlPipe) : Prop := (Inv trbs buffer m t ∧ Reporting t) ∧
    t.answered = s.answered ∧ ∃ c', t.current = some c' ∧ c'.transfer = c.transfer
  refine System.Inevitable.of_measure (I := Current) (work m) ?_ ?_ s
    ⟨inv_of_guarded hm hsix hs, rfl, c, hc, rfl⟩
  · rintro t ⟨⟨inv, h⟩, -, c', hc', -⟩ -
    exact inv.possible hm hsix h hc'
  · rintro t i u ⟨⟨inv, h⟩, hanswered, c', hc', hsame⟩ - ⟨oblige, hstep⟩
    obtain ⟨posted, result, hdone⟩ | ⟨hstill, ⟨c'', hc'', hsame'⟩, hless⟩ :=
      inv.next hm hsix hc' oblige hstep
    · exact .inl ⟨posted, result, by rw [hdone, hanswered, hsame]⟩
    · exact .inr ⟨⟨⟨inv.step hm hsix hstep, h.step inv hm hsix oblige hstep⟩,
        hstill.trans hanswered, c'', hc'', hsame'.trans hsame⟩, hless⟩

/-- A request without data that has just been submitted. -/
theorem control_transfer_answered_setConfiguration :
    let transfer : ControlTransfer := ⟨standardRequest .hostToDevice .setConfiguration 1 0, none⟩
    ((system .xhci ⟨0x1000, 32, by decide⟩).guard (Obliging .xhci)).Inevitable
      (fun t => ∃ posted result, t.answered = [⟨transfer, posted, result⟩])
      { new ⟨0x1000, 32, by decide⟩ with current := some ⟨transfer, transfer.stages, []⟩ } := by
  intro transfer
  have hfits : transfer.Fits := fun _ h => absurd h.symm (Option.some_ne_none _)
  exact control_transfer_answered .xhci ⟨0x1000, 32, by decide⟩ (by decide) _
    (.step (i := .submit transfer) (.init rfl) ⟨trivial, .submit rfl hfits⟩) _ rfl

end ControlPipe

end LemolaOs.Usb
