import LemolaOs.Usb.ControlPipeProgress
import LemolaOs.Usb.Identification

/-!
# The control pipe as a port

`ControlPort` takes a control transfer for one step of the device; on the pipe it is three TRBs, a
report, and an event that has to find its transfer. Here a device is put behind the pipe: it is
asked when the controller executes a data stage, fills the buffer, and what it says is reported.
Whatever the order of the steps, a transfer is answered as one call of the port is
(`served_follows`), so what is learned of a device over a port is learned over the pipe
(`served_tells`).
-/

namespace LemolaOs.Usb

open Xhci

/-- A data stage. -/
def StageTrb.isData : StageTrb → Bool
  | .data _ _ _ _ => true
  | .setup _ _ | .status _ _ => false

/-- An answered transfer, with the buffer and the device before and after it. -/
structure Served (σ : Type) where
  answered : Answered
  before : (Nat → UInt8) × σ
  after : (Nat → UInt8) × σ

/-- A pipe with a device. `memory` is the buffer of the transfer and the state of the device,
`begun` what they were when the transfer was submitted. -/
structure DevicePipe (σ : Type) where
  pipe : ControlPipe
  memory : (Nat → UInt8) × σ
  begun : (Nat → UInt8) × σ
  served : List (Served σ)

/-- The transfers are calls of the port, each with the device that the last one has left. -/
inductive Follows {σ : Type} (port : ControlPort σ) (start : σ) : List (Served σ) → σ → Prop where
  | nil : Follows port start [] start
  | snoc {served : List (Served σ)} {x : Served σ} {pointer : UInt64} {len : Nat}
      (h : Follows port start served x.before.2)
      (hbuf : x.answered.transfer.buf = some (pointer, len))
      (hcall : asyncControlTransfer port x.answered.transfer.request len x.before =
        .ok (x.answered.result, x.after)) :
      Follows port start (served ++ [x]) x.after.2

/-- Every served transfer is a call of the port. -/
theorem Follows.call {σ : Type} {port : ControlPort σ} {start device : σ}
    {served : List (Served σ)} (h : Follows port start served device) :
    ∀ x ∈ served, ∃ pointer len, x.answered.transfer.buf = some (pointer, len) ∧
      asyncControlTransfer port x.answered.transfer.request len x.before =
        .ok (x.answered.result, x.after) := by
  induction h with
  | nil => exact fun _ h => absurd h List.not_mem_nil
  | snoc h hbuf hcall ih =>
      intro x hx
      rw [List.mem_append, List.mem_singleton] at hx
      obtain hx | rfl := hx
      · exact ih x hx
      · exact ⟨_, _, hbuf, hcall⟩

/-- Nobody looks at the pointer of an event that has found its transfer. -/
theorem controlTransferResult_congr {length : Option Nat} {trb trb' : CompletedTransfer}
    (hcode : trb.completionCode = trb'.completionCode)
    (hlength : trb.trbTransferLength = trb'.trbTransferLength) :
    controlTransferResult length trb = controlTransferResult length trb' := by
  rw [controlTransferResult, controlTransferResult, hcode, hlength]

namespace DevicePipe

open ControlPipe (Label)

variable {σ : Type} {links : LinkTrb}

/-- The pipe `new` with a device in its first state. -/
def new (buffer : TrbBuffer) (buf : Nat → UInt8) (device : σ) : DevicePipe σ :=
  ⟨.new buffer, (buf, device), (buf, device), []⟩

/-- The steps of the pipe. The buffer of a transfer may hold anything when it is submitted. The
other futures leave alone what the driver waits for. -/
inductive Step (port : ControlPort σ) (trbs : StageTrbs links) :
    DevicePipe σ → Label → DevicePipe σ → Prop where
  | submit {s : DevicePipe σ} {pipe : ControlPipe} {request : ControlRequest} {pointer : UInt64}
      {len : Nat} (buf : Nat → UInt8)
      (h : ControlPipe.Step trbs s.pipe (.submit ⟨request, some (pointer, len)⟩) pipe) :
      Step port trbs s (.submit ⟨request, some (pointer, len)⟩)
        ⟨pipe, (buf, s.memory.2), (buf, s.memory.2), s.served⟩
  | move {s : DevicePipe σ} {i : Label} {pipe : ControlPipe}
      (hi : i = .push ∨ i = .write ∨ i = .follow) (h : ControlPipe.Step trbs s.pipe i pipe) :
      Step port trbs s i { s with pipe := pipe }
  | quiet {s : DevicePipe σ} {stage : StageTrb} {pipe : ControlPipe}
      (hstage : trbs.decode (s.pipe.shared.memory s.pipe.shared.dequeue) = some stage)
      (hdata : stage.isData = false) (h : ControlPipe.Step trbs s.pipe (.execute []) pipe) :
      Step port trbs s (.execute []) { s with pipe := pipe }
  | data {s : DevicePipe σ} {c : InProgress} {stage : StageTrb} {pointer : UInt64} {len : Nat}
      {trb : CompletedTransfer} {memory : (Nat → UInt8) × σ} {pipe : ControlPipe}
      (hstage : trbs.decode (s.pipe.shared.memory s.pipe.shared.dequeue) = some stage)
      (hdata : stage.isData = true) (current : s.pipe.current = some c)
      (hbuf : c.transfer.buf = some (pointer, len))
      (hport : port.transfer c.transfer.request len s.memory.1 s.memory.2 = (trb, memory))
      (h : ControlPipe.Step trbs s.pipe
        (.execute [(trb.completionCode, trb.trbTransferLength)]) pipe) :
      Step port trbs s (.execute [(trb.completionCode, trb.trbTransferLength)])
        { s with pipe := pipe, memory := memory }
  | poll {s : DevicePipe σ} {c : InProgress} {posted : Posted} {events : List Posted}
      {result : Except TransferError Nat} (current : s.pipe.current = some c)
      (pushed : c.todo = []) (idle : s.pipe.shared.pending = [])
      (front : s.pipe.events = posted :: events) (mine : posted.event.trbPointer ∈ c.waitOn)
      (h : controlTransferResult (c.transfer.buf.map Prod.snd) posted.event = .ok result) :
      Step port trbs s .poll
        { s with
          pipe := s.pipe.ready c posted events result
          served := s.served ++ [⟨⟨c.transfer, posted, result⟩, s.begun, s.memory⟩] }
  | aside {s : DevicePipe σ} {pipe : ControlPipe}
      (oblige : ControlPipe.Obliging trbs s.pipe .aside)
      (h : ControlPipe.Step trbs s.pipe .aside pipe) :
      Step port trbs s .aside { s with pipe := pipe }

/-- Every history of a pipe and its device. -/
def system (port : ControlPort σ) (trbs : StageTrbs links) (buffer : TrbBuffer)
    (buf : Nat → UInt8) (device : σ) : System (DevicePipe σ) Label where
  init s := s = new buffer buf device
  step := Step port trbs

/-- The device as the last answered transfer has left it. -/
def left (s : DevicePipe σ) : σ := s.pipe.current.elim s.memory.2 fun _ => s.begun.2

/-- The steps of the device pipe are steps of the pipe. -/
theorem Step.pipe_step {port : ControlPort σ} {trbs : StageTrbs links} {s t : DevicePipe σ}
    {i : Label} (h : Step port trbs s i t) : ControlPipe.Step trbs s.pipe i t.pipe := by
  cases h with
  | submit buf h => exact h
  | move hi h => exact h
  | quiet hstage hdata h => exact h
  | data hstage hdata current hbuf hport h => exact h
  | poll current pushed idle front mine h => exact .poll current pushed idle front mine h
  | aside oblige h => exact h

section Invariant

variable {port : ControlPort σ} {trbs : StageTrbs links} {buffer : TrbBuffer} {m : Nat} {start : σ}
  {s t : DevicePipe σ}

/-- The device has not been asked for the data of the transfer. -/
structure Unasked (s : DevicePipe σ) : Prop where
  events : s.pipe.events = []
  memory : s.memory = s.begun
  executed_le : s.pipe.shared.executed.length ≤ s.pipe.base + 1

/-- The device has been asked, and the event with its answer is in the ring. -/
structure Told (port : ControlPort σ) (c : InProgress) (len : Nat) (posted : Posted)
    (s : DevicePipe σ) : Prop where
  events : s.pipe.events = [posted]
  base_le : s.pipe.base ≤ posted.index
  code : posted.event.completionCode =
    (port.transfer c.transfer.request len s.begun.1 s.begun.2).1.completionCode
  length : posted.event.trbTransferLength =
    (port.transfer c.transfer.request len s.begun.1 s.begun.2).1.trbTransferLength
  memory : s.memory = (port.transfer c.transfer.request len s.begun.1 s.begun.2).2
  le_executed : s.pipe.base + 2 ≤ s.pipe.shared.executed.length

/-- What holds of the pipe and its device at any time. -/
structure Serving (port : ControlPort σ) (trbs : StageTrbs links) (buffer : TrbBuffer) (m : Nat)
    (start : σ) (s : DevicePipe σ) : Prop where
  inv : ControlPipe.Inv trbs buffer m s.pipe
  answered : s.served.map Served.answered = s.pipe.answered
  follows : Follows port start s.served s.left
  near : s.pipe.base ≤ s.pipe.shared.executed.length + 1
  idle : s.pipe.current = none → s.pipe.events = []
  current : ∀ c ∈ s.pipe.current, ∃ pointer len, c.transfer.buf = some (pointer, len) ∧
    (s.Unasked ∨ ∃ posted, s.Told port c len posted)

/-- The second of three stages is the data stage. -/
theorem isData_iff {transfer : ControlTransfer} {pointer : UInt64} {len : Nat}
    (hbuf : transfer.buf = some (pointer, len)) {j : Nat} {stage : StageTrb}
    (h : transfer.stages[j]? = some stage) : stage.isData = true ↔ j = 1 := by
  rw [ControlTransfer.stages, hbuf] at h
  obtain _ | _ | _ | j := j
  · obtain rfl := Option.some.inj h
    exact iff_of_false Bool.false_ne_true (by decide)
  · obtain rfl := Option.some.inj h
    exact iff_of_true rfl rfl
  · obtain rfl := Option.some.inj h
    exact iff_of_false Bool.false_ne_true (by decide)
  · cases h

namespace Serving

/-- In front of the stages of the current transfer is a status stage. -/
theorem isData_before (h : Serving port trbs buffer m start s) {k : Nat} {stage : StageTrb}
    (hk : k + 1 = s.pipe.base) (hstage : s.pipe.stages[k]? = some stage) :
    stage.isData = false := by
  obtain hnil | ⟨front, a, ha⟩ := List.eq_nil_or_concat' s.pipe.answered
  · rw [ControlPipe.base, hnil] at hk
    exact absurd hk (Nat.succ_ne_zero k)
  have hmem : a ∈ s.served.map Served.answered := by
    rw [h.answered, ha]
    exact List.mem_append_right _ (List.mem_singleton_self a)
  obtain ⟨x, hx, rfl⟩ := List.mem_map.mp hmem
  obtain ⟨pointer, len, hbuf, -⟩ := h.follows.call x hx
  have hlast : x.answered.transfer.stages.length = 3 := by
    rw [ControlTransfer.stages, hbuf]
    rfl
  have hbase : s.pipe.base =
      ControlPipe.stageCount (front.map Answered.transfer) + 3 := by
    rw [ControlPipe.base, ha, List.map_append, ControlPipe.stageCount_append, List.map_singleton,
      ControlPipe.stageCount_singleton, hlast]
  have hindex : x.answered.transfer.stages[2]? = some stage := by
    rw [ControlPipe.stages, ControlPipe.submitted, ha, List.map_append, List.map_singleton,
      List.append_assoc, List.flatMap_append, List.getElem?_append_right (by
        change ControlPipe.stageCount (front.map Answered.transfer) ≤ k
        omega), List.flatMap_append, List.flatMap_singleton] at hstage
    have hk' : k - ((front.map Answered.transfer).flatMap ControlTransfer.stages).length = 2 := by
      change k - ControlPipe.stageCount (front.map Answered.transfer) = 2
      omega
    rw [hk', List.getElem?_append_left (by omega)] at hstage
    exact hstage
  have hdata := isData_iff hbuf hindex
  exact Bool.eq_false_iff.mpr fun htrue => absurd (hdata.mp htrue) (by decide)

/-- The stage that is executed is a data stage exactly if it is the second of the transfer. -/
theorem isData_iff_index (h : Serving port trbs buffer m start s) (hlen : buffer.len = m + 1)
    (hm : 6 ≤ m) {stage : StageTrb}
    (hstage : trbs.decode (s.pipe.shared.memory s.pipe.shared.dequeue) = some stage)
    {shared : Shared TransferRing}
    (hstep : Shared.Step links (TransferRing.push links) s.pipe.shared .execute shared)
    {c : InProgress} (current : s.pipe.current = some c) :
    stage.isData = true ↔ s.pipe.shared.executed.length = s.pipe.base + 1 := by
  obtain ⟨stage', hdecode, hindex⟩ := h.inv.decode_dequeue hlen hm hstep
  obtain rfl : stage = stage' := Option.some.inj (hstage.symm.trans hdecode)
  obtain ⟨pointer, len, hbuf, -⟩ := h.current c current
  have hnear := h.near
  by_cases hbase : s.pipe.base ≤ s.pipe.shared.executed.length
  · rw [ControlPipe.getElem?_stages current hbase] at hindex
    rw [isData_iff hbuf hindex]
    omega
  · rw [h.isData_before (by omega) hindex]
    exact iff_of_false Bool.false_ne_true (by omega)

theorem new (buf : Nat → UInt8) : Serving port trbs buffer m start (new buffer buf start) where
  inv := .new
  answered := rfl
  follows := .nil
  near := Nat.zero_le _
  idle _ := rfl
  current := fun _ h => absurd h.symm (Option.some_ne_none _)

theorem submit (h : Serving port trbs buffer m start s) (hlen : buffer.len = m + 1) (hm : 6 ≤ m)
    {request : ControlRequest} {pointer : UInt64} {len : Nat} (buf : Nat → UInt8)
    (idle : s.pipe.current = none) (fits : ControlTransfer.Fits ⟨request, some (pointer, len)⟩) :
    let transfer : ControlTransfer := ⟨request, some (pointer, len)⟩
    Serving port trbs buffer m start
      ⟨{ s.pipe with current := some ⟨transfer, transfer.stages, []⟩ }, (buf, s.memory.2),
        (buf, s.memory.2), s.served⟩ := by
  intro transfer
  have hfollows : Follows port start s.served s.memory.2 := by
    have hleft := h.follows
    rwa [left, idle] at hleft
  have hpushed : s.pipe.shared.pushed.length = s.pipe.base := by
    have hlength := h.inv.length_stages
    rwa [ControlPipe.todo, idle, ControlPipe.stages, ControlPipe.submitted_of_none idle] at hlength
  have hexecuted := ControlPipe.executed_le hlen (by omega) h.inv.shared
  refine ⟨h.inv.submit idle fits, h.answered, hfollows, h.near, fun hnone => ?_, ?_⟩
  · exact absurd hnone (Option.some_ne_none _)
  · rintro c hc
    cases hc
    refine ⟨pointer, len, rfl, .inl ⟨h.idle idle, rfl, ?_⟩⟩
    change s.pipe.shared.executed.length ≤ s.pipe.base + 1
    omega

/-- A step that leaves the transfers, the events and the executed TRBs as they are. -/
theorem frame (h : Serving port trbs buffer m start s) {pipe : ControlPipe}
    (inv : ControlPipe.Inv trbs buffer m pipe) (hanswered : pipe.answered = s.pipe.answered)
    (hevents : pipe.events = s.pipe.events)
    (hexecuted : pipe.shared.executed = s.pipe.shared.executed)
    (hcurrent : pipe.current.map InProgress.transfer = s.pipe.current.map InProgress.transfer) :
    Serving port trbs buffer m start { s with pipe := pipe } := by
  have hbase : pipe.base = s.pipe.base := by rw [ControlPipe.base, hanswered, ControlPipe.base]
  have hleft : left { s with pipe := pipe } = s.left := by
    rw [left, left]
    cases hs : s.pipe.current <;> cases hp : pipe.current <;> simp_all
  refine ⟨inv, h.answered.trans hanswered.symm, hleft ▸ h.follows, ?_, fun hnone => ?_, ?_⟩
  · rw [hbase, hexecuted]
    exact h.near
  · rw [hnone, Option.map_none, eq_comm, Option.map_eq_none_iff] at hcurrent
    exact hevents.trans (h.idle hcurrent)
  · intro c' hc'
    rw [Option.mem_def.mp hc', Option.map_some, eq_comm, Option.map_eq_some_iff] at hcurrent
    obtain ⟨c, hc, hsame⟩ := hcurrent
    obtain ⟨pointer, len, hbuf, hcase⟩ := h.current c hc
    refine ⟨pointer, len, hsame ▸ hbuf, ?_⟩
    obtain hunasked | ⟨posted, htold⟩ := hcase
    · exact .inl ⟨hevents.trans hunasked.events, hunasked.memory, by
        rw [hbase, hexecuted]
        exact hunasked.executed_le⟩
    · refine .inr ⟨posted, hevents.trans htold.events, hbase ▸ htold.base_le, ?_, ?_, ?_, ?_⟩
      · rw [← hsame]
        exact htold.code
      · rw [← hsame]
        exact htold.length
      · rw [← hsame]
        exact htold.memory
      · rw [hbase, hexecuted]
        exact htold.le_executed

/-- A stage without data is executed, and nothing is reported. -/
theorem quiet (h : Serving port trbs buffer m start s) (hlen : buffer.len = m + 1) (hm : 6 ≤ m)
    {stage : StageTrb}
    (hstage : trbs.decode (s.pipe.shared.memory s.pipe.shared.dequeue) = some stage)
    (hdata : stage.isData = false) {shared : Shared TransferRing}
    (hstep : Shared.Step links (TransferRing.push links) s.pipe.shared .execute shared) :
    Serving port trbs buffer m start
      { s with pipe := { s.pipe with shared := shared, events := s.pipe.events ++ [] } } := by
  have inv := h.inv.execute hlen hm [] hstep
  have hnext : shared.executed.length = s.pipe.shared.executed.length + 1 := by
    cases hstep with
    | execute owned notLink => rw [List.length_append, List.length_singleton]
  have hnear := h.near
  rw [List.append_nil]
  refine ⟨List.append_nil s.pipe.events ▸ inv, h.answered, h.follows, ?_, h.idle, ?_⟩
  · change s.pipe.base ≤ shared.executed.length + 1
    omega
  · intro c hc
    have hindex := h.isData_iff_index hlen hm hstage hstep hc
    have hne : s.pipe.shared.executed.length ≠ s.pipe.base + 1 := fun heq => by
      rw [hindex.mpr heq] at hdata
      exact absurd hdata (by decide)
    obtain ⟨pointer, len, hbuf, hcase⟩ := h.current c hc
    refine ⟨pointer, len, hbuf, ?_⟩
    obtain hunasked | ⟨posted, htold⟩ := hcase
    · refine .inl ⟨hunasked.events, hunasked.memory, ?_⟩
      have hle := hunasked.executed_le
      change shared.executed.length ≤ s.pipe.base + 1
      omega
    · refine .inr ⟨posted, htold.events, htold.base_le, htold.code, htold.length, htold.memory, ?_⟩
      have hle := htold.le_executed
      change s.pipe.base + 2 ≤ shared.executed.length
      omega

/-- The data stage is executed: the device is asked, and its answer is reported. -/
theorem data (h : Serving port trbs buffer m start s) (hlen : buffer.len = m + 1) (hm : 6 ≤ m)
    {c : InProgress} {stage : StageTrb} {pointer : UInt64} {len : Nat} {trb : CompletedTransfer}
    {memory : (Nat → UInt8) × σ}
    (hstage : trbs.decode (s.pipe.shared.memory s.pipe.shared.dequeue) = some stage)
    (hdata : stage.isData = true) (current : s.pipe.current = some c)
    (hbuf : c.transfer.buf = some (pointer, len))
    (hport : port.transfer c.transfer.request len s.memory.1 s.memory.2 = (trb, memory))
    {shared : Shared TransferRing}
    (hstep : Shared.Step links (TransferRing.push links) s.pipe.shared .execute shared) :
    Serving port trbs buffer m start
      { s with
        pipe := { s.pipe with
          shared := shared
          events := s.pipe.events ++ [s.pipe.report trb.completionCode trb.trbTransferLength] }
        memory := memory } := by
  have inv := h.inv.execute hlen hm [(trb.completionCode, trb.trbTransferLength)] hstep
  have hnext : shared.executed.length = s.pipe.shared.executed.length + 1 := by
    cases hstep with
    | execute owned notLink => rw [List.length_append, List.length_singleton]
  have hindex := (h.isData_iff_index hlen hm hstage hstep current).mp hdata
  -- the device has not been asked before
  have hunasked : s.Unasked := by
    obtain ⟨_, _, -, hunasked | ⟨posted, htold⟩⟩ := h.current c current
    · exact hunasked
    · have hle := htold.le_executed
      omega
  have hleft : s.left = s.begun.2 := by rw [left, current, Option.elim_some]
  refine ⟨inv, h.answered, ?_, ?_, fun hnone => ?_, ?_⟩
  · have hfollows := h.follows
    rw [hleft] at hfollows
    rwa [left, current, Option.elim_some]
  · change s.pipe.base ≤ shared.executed.length + 1
    omega
  · exact absurd (current.symm.trans hnone) (Option.some_ne_none _)
  · intro c' hc'
    obtain rfl := Option.some.inj (current.symm.trans hc')
    rw [hunasked.memory] at hport
    refine ⟨pointer, len, hbuf, .inr ⟨s.pipe.report trb.completionCode trb.trbTransferLength,
      ?_, ?_, ?_, ?_, ?_, ?_⟩⟩
    · change s.pipe.events ++ _ = _
      rw [hunasked.events, List.nil_append]
    · change s.pipe.base ≤ s.pipe.shared.executed.length
      omega
    · rw [hport]
      rfl
    · rw [hport]
      rfl
    · rw [hport]
    · change s.pipe.base + 2 ≤ shared.executed.length
      omega

/-- The transfer is answered as the call of the port is. -/
theorem poll (h : Serving port trbs buffer m start s) (hlen : buffer.len = m + 1) (hm : 6 ≤ m)
    {c : InProgress} {posted : Posted} {events : List Posted} {result : Except TransferError Nat}
    (current : s.pipe.current = some c)
    (hstep : ControlPipe.Step trbs s.pipe .poll (s.pipe.ready c posted events result))
    (front : s.pipe.events = posted :: events)
    (hresult : controlTransferResult (c.transfer.buf.map Prod.snd) posted.event = .ok result) :
    Serving port trbs buffer m start
      { s with
        pipe := s.pipe.ready c posted events result
        served := s.served ++ [⟨⟨c.transfer, posted, result⟩, s.begun, s.memory⟩] } := by
  obtain ⟨pointer, len, hbuf, hunasked | ⟨posted', htold⟩⟩ := h.current c current
  · exact absurd (front.symm.trans hunasked.events) (List.cons_ne_nil _ _)
  obtain ⟨rfl, rfl⟩ := List.cons.inj (front.symm.trans htold.events)
  have hcall : asyncControlTransfer port c.transfer.request len s.begun =
      .ok (result, s.memory) := by
    have htransfer : port.transfer c.transfer.request len s.begun.1 s.begun.2 =
        ((port.transfer c.transfer.request len s.begun.1 s.begun.2).1, s.memory) := by
      rw [htold.memory]
    rw [asyncControlTransfer_eq htransfer]
    rw [hbuf, Option.map_some] at hresult
    rw [← controlTransferResult_congr htold.code htold.length, hresult]
    rfl
  have hfollows : Follows port start s.served s.begun.2 := by
    have hleft := h.follows
    rwa [left, current, Option.elim_some] at hleft
  have hthree : c.transfer.stages.length = 3 := by
    rw [ControlTransfer.stages, hbuf]
    rfl
  refine ⟨h.inv.step hlen hm hstep, ?_, ?_, ?_, fun _ => rfl, ?_⟩
  · rw [List.map_append, h.answered]
    rfl
  · exact .snoc hfollows hbuf hcall
  · have hbase : (s.pipe.ready c posted [] result).base = s.pipe.base + 3 := by
      rw [ControlPipe.base, ControlPipe.ready, List.map_append, ControlPipe.stageCount_append,
        List.map_singleton, ControlPipe.stageCount_singleton, hthree]
      rfl
    have hle := htold.le_executed
    rw [hbase]
    change s.pipe.base + 3 ≤ s.pipe.shared.executed.length + 1
    omega
  · exact fun _ hc => absurd hc.symm (Option.some_ne_none _)

/-- There is no event that the driver does not wait for. -/
theorem not_aside (h : Serving port trbs buffer m start s) (hlen : buffer.len = m + 1)
    (hm : 6 ≤ m) {posted : Posted} {events : List Posted}
    (front : s.pipe.events = posted :: events) : ¬ ControlPipe.Obliging trbs s.pipe .aside := by
  intro oblige
  cases hcurrent : s.pipe.current with
  | none => exact List.cons_ne_nil _ _ (front.symm.trans (h.idle hcurrent))
  | some c =>
      obtain ⟨pointer, len, hbuf, hunasked | ⟨posted', htold⟩⟩ := h.current c hcurrent
      · exact List.cons_ne_nil _ _ (front.symm.trans hunasked.events)
      · have hmem : posted' ∈ s.pipe.events := by
          rw [htold.events]
          exact List.mem_singleton_self _
        have hmine := h.inv.mem_waitOn hlen hm hcurrent hmem htold.base_le
        refine oblige c hcurrent posted' ?_ hmine
        rw [htold.events]
        rfl

theorem step (h : Serving port trbs buffer m start s) (hlen : buffer.len = m + 1) (hm : 6 ≤ m)
    {i : Label} (hstep : Step port trbs s i t) : Serving port trbs buffer m start t := by
  have inv := h.inv.step hlen hm hstep.pipe_step
  cases hstep with
  | submit buf hpipe =>
      cases hpipe with
      | submit idle fits => exact h.submit hlen hm buf idle fits
  | move hi hpipe =>
      cases hpipe with
      | push current next idle hpush =>
          refine h.frame inv rfl rfl rfl ?_
          rw [current]
          rfl
      | write hshared =>
          cases hshared with
          | write hpending => exact h.frame inv rfl rfl rfl rfl
      | follow hshared =>
          cases hshared with
          | follow owned link => exact h.frame inv rfl rfl rfl rfl
      | _ => simp at hi
  | quiet hstage hdata hpipe =>
      cases hpipe with
      | execute hshared => exact h.quiet hlen hm hstage hdata hshared
  | data hstage hdata current hbuf hport hpipe =>
      cases hpipe with
      | execute hshared => exact h.data hlen hm hstage hdata current hbuf hport hshared
  | poll current pushed idle front mine hresult =>
      exact h.poll hlen hm current (.poll current pushed idle front mine hresult) front hresult
  | aside oblige hpipe =>
      cases hpipe with
      | aside front => exact absurd oblige (h.not_aside hlen hm front)

end Serving

end Invariant

section Runs

variable {port : ControlPort σ} {trbs : StageTrbs links} {buffer : TrbBuffer} {start : σ}
  {buf : Nat → UInt8} {s : DevicePipe σ}

/-- On a ring of at least seven slots, in every order of the steps, the answered transfers are
calls of the port, each with what the one before it has left of the device; and between two
transfers that is the device. -/
theorem served_follows (hlen : 7 ≤ buffer.len)
    (hs : (system port trbs buffer buf start).Reachable s) :
    s.served.map Served.answered = s.pipe.answered ∧ Follows port start s.served s.left := by
  obtain ⟨m, hm⟩ := Nat.exists_eq_add_of_le' (by omega : 1 ≤ buffer.len)
  have hserving : ∀ s, (system port trbs buffer buf start).Reachable s →
      Serving port trbs buffer m start s := by
    intro s hs
    apply hs.invariant
    · rintro s rfl
      exact .new buf
    · rintro s i t - h hstep
      exact h.step hm (by omega) hstep
  exact ⟨(hserving s hs).answered, (hserving s hs).follows⟩

/-- A request of a device that tells something is answered with an error or with what it tells. -/
theorem served_tells (hlen : 7 ≤ buffer.len)
    (hs : (system port trbs buffer buf start).Reachable s) {failures : σ → Nat} {type : UInt8}
    {data : List UInt8} (tells : Tells port failures type data) :
    ∀ x ∈ s.served, ∀ pointer len, len ≤ 65535 → x.answered.transfer =
      ⟨standardRequest .deviceToHost .getDescriptor 0 type, some (pointer, len)⟩ →
      (∃ e, x.answered.result = .error e ∧ failures x.after.2 < failures x.before.2) ∨
        x.answered.result = .ok (min len data.length) ∧
          bytesOf x.after.1 (min len data.length) = data.take len := by
  intro x hx pointer len hle htransfer
  obtain ⟨pointer', len', hbuf, hcall⟩ := (served_follows hlen hs).2.call x hx
  rw [htransfer] at hbuf hcall
  obtain ⟨rfl, rfl⟩ := Prod.mk.inj (Option.some.inj hbuf)
  obtain ⟨e, q, hfailed, hlt⟩ | ⟨q, hanswered, hbytes⟩ := tells.attempt hle x.before
  · obtain ⟨hresult, rfl⟩ := Prod.mk.inj (Except.ok.inj (hcall.symm.trans hfailed))
    exact .inl ⟨e, hresult, hlt⟩
  · obtain ⟨hresult, rfl⟩ := Prod.mk.inj (Except.ok.inj (hcall.symm.trans hanswered))
    exact .inr ⟨hresult, hbytes⟩

end Runs

end DevicePipe

end LemolaOs.Usb
