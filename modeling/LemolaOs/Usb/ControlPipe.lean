import LemolaOs.Usb.ControlTransfer
import LemolaOs.Xhci.ProducerProtocol

/-!
# The control pipe

Driver and controller at the transfer ring of a device's default control pipe. The driver pushes
the stages of a transfer and waits for an event about one of them, `async_control_transfer` of
`kernel/src/usb/device.rs`. It does not wait for all of them: an event about the data stage is
taken for the answer while the status stage is still in the ring. The controller executes the TRBs
in their order, and may report anything about a TRB that it executes, or nothing.

The future of a transfer looks for its event at the front of the event ring. What it finds there it
takes off the ring, and so does every other future, so the events of the pipe leave the ring in
their order, not always to whom they are meant for. A pointer to a TRB stands for many TRBs, one in
each lap of the ring, and what keeps an old event from answering a new transfer is how far the two
parties are apart.
-/

namespace LemolaOs.Usb

open Xhci

/-- An event about a TRB that the controller has executed. Nobody looks at `index`, the number of
TRBs that were executed before that one. -/
structure Posted where
  index : Nat
  event : CompletedTransfer

/-- A transfer that is not answered. -/
structure InProgress where
  transfer : ControlTransfer
  /-- The stages that are still to be pushed. -/
  todo : List StageTrb
  /-- `TransferEventWaitKind::TrbPtrs`. -/
  waitOn : List Nat

structure Answered where
  transfer : ControlTransfer
  posted : Posted
  result : Except TransferError Nat

structure ControlPipe where
  shared : Shared TransferRing
  current : Option InProgress
  /-- The events of the pipe in the event ring. -/
  events : List Posted
  answered : List Answered

namespace ControlPipe

inductive Label where
  | submit (transfer : ControlTransfer)
  | push
  | write
  /-- What is reported are completion codes and lengths. -/
  | execute (reports : List (Nat × Nat))
  | follow
  | poll
  | aside

/-- `DeviceContextInfo::new`, with the ring at `buffer`. -/
def new (buffer : TrbBuffer) : ControlPipe := ⟨Shared.start (.new buffer), none, [], []⟩

/-- The event about the TRB that is executed next. -/
def report (s : ControlPipe) (code length : Nat) : Posted :=
  ⟨s.shared.executed.length,
    ⟨code, length, s.shared.ring.trbBuffer.ptr + s.shared.dequeue * 16⟩⟩

/-- The next stage is being pushed. -/
def pushing (s : ControlPipe) (c : InProgress) (trb : TrbRaw) (todo : List StageTrb)
    (writes : List WordWrite) (ring : TransferRing) (ptr : Nat) : ControlPipe :=
  { s with
    shared := { s.shared with
      ring := ring
      pending := writes
      pushed := s.shared.pushed ++ [trb] }
    current := some { c with todo := todo, waitOn := c.waitOn ++ [ptr] } }

/-- `Poll::Ready`, and what `async_control_transfer` returns. -/
def ready (s : ControlPipe) (c : InProgress) (posted : Posted) (events : List Posted)
    (result : Except TransferError Nat) : ControlPipe :=
  { s with
    current := none
    events := events
    answered := s.answered ++ [⟨c.transfer, posted, result⟩] }

variable {links : LinkTrb}

/-- The steps of both. Between two calls of `async_control_transfer` no transfer is current. -/
inductive Step (trbs : StageTrbs links) : ControlPipe → Label → ControlPipe → Prop where
  | submit {s : ControlPipe} {transfer : ControlTransfer} (idle : s.current = none)
      (fits : transfer.Fits) :
      Step trbs s (.submit transfer) { s with current := some ⟨transfer, transfer.stages, []⟩ }
  | push {s : ControlPipe} {c : InProgress} {stage : StageTrb} {todo : List StageTrb}
      {writes : List WordWrite} {ring : TransferRing} {ptr : Nat} (current : s.current = some c)
      (next : c.todo = stage :: todo) (idle : s.shared.pending = [])
      (h : s.shared.ring.push links (trbs.encode stage) = .ok (writes, ring, ptr)) :
      Step trbs s .push (s.pushing c (trbs.encode stage) todo writes ring ptr)
  | write {s : ControlPipe} {shared : Shared TransferRing}
      (h : Shared.Step links (TransferRing.push links) s.shared .write shared) :
      Step trbs s .write { s with shared := shared }
  | execute {s : ControlPipe} {reports : List (Nat × Nat)} {shared : Shared TransferRing}
      (h : Shared.Step links (TransferRing.push links) s.shared .execute shared) :
      Step trbs s (.execute reports)
        { s with
          shared := shared
          events := s.events ++ reports.map fun r => s.report r.1 r.2 }
  | follow {s : ControlPipe} {shared : Shared TransferRing}
      (h : Shared.Step links (TransferRing.push links) s.shared .follow shared) :
      Step trbs s .follow { s with shared := shared }
  | poll {s : ControlPipe} {c : InProgress} {posted : Posted} {events : List Posted}
      {result : Except TransferError Nat} (current : s.current = some c) (pushed : c.todo = [])
      (idle : s.shared.pending = []) (front : s.events = posted :: events)
      (mine : posted.event.trbPointer ∈ c.waitOn)
      (h : controlTransferResult (c.transfer.buf.map Prod.snd) posted.event = .ok result) :
      Step trbs s .poll (s.ready c posted events result)
  | aside {s : ControlPipe} {posted : Posted} {events : List Posted}
      (front : s.events = posted :: events) :
      Step trbs s .aside { s with events := events }

/-- Every history of a pipe with a ring of its own. -/
def system (trbs : StageTrbs links) (buffer : TrbBuffer) : System ControlPipe Label where
  init s := s = new buffer
  step := Step trbs

/-- All transfers up to now. -/
def submitted (s : ControlPipe) : List ControlTransfer :=
  s.answered.map Answered.transfer ++ s.current.toList.map InProgress.transfer

/-- The number of their stages. -/
def stageCount (transfers : List ControlTransfer) : Nat :=
  (transfers.flatMap ControlTransfer.stages).length

/-- The index of the first stage of the current or the next transfer. -/
def base (s : ControlPipe) : Nat := stageCount (s.answered.map Answered.transfer)

/-- The stages that are still to be pushed. -/
def todo (s : ControlPipe) : List StageTrb := s.current.elim [] InProgress.todo

/-- An event about the TRB of that index has answered the transfer after those in `front`. -/
structure AnsweredBy (front : List Answered) (a : Answered) (executed : Nat) : Prop where
  base_le : stageCount (front.map Answered.transfer) ≤ a.posted.index
  lt_base : a.posted.index < stageCount (front.map Answered.transfer) + a.transfer.stages.length
  executed : a.posted.index < executed
  result : controlTransferResult (a.transfer.buf.map Prod.snd) a.posted.event = .ok a.result

section Counting

variable {front back : List ControlTransfer} {transfer : ControlTransfer}

theorem stageCount_append :
    stageCount (front ++ back) = stageCount front + stageCount back := by
  rw [stageCount, List.flatMap_append, List.length_append]
  rfl

theorem stageCount_singleton : stageCount [transfer] = transfer.stages.length := by
  rw [stageCount, List.flatMap_singleton]

end Counting

section Submitted

variable {s : ControlPipe} {c : InProgress}

theorem submitted_of_none (idle : s.current = none) :
    s.submitted = s.answered.map Answered.transfer := by
  rw [submitted, idle, Option.toList_none, List.map_nil, List.append_nil]

theorem submitted_of_some (current : s.current = some c) :
    s.submitted = s.answered.map Answered.transfer ++ [c.transfer] := by
  rw [submitted, current, Option.toList_some, List.map_singleton]

theorem submitted_ready (current : s.current = some c) (posted : Posted) (events : List Posted)
    (result : Except TransferError Nat) :
    (s.ready c posted events result).submitted = s.submitted := by
  rw [submitted_of_some current, @submitted_of_none (s.ready c posted events result) rfl,
    ready, List.map_append, List.map_singleton]

end Submitted

section Invariant

variable {trbs : StageTrbs links} {buffer : TrbBuffer} {m : Nat} {s t : ControlPipe}

/-- The pointer to the TRB of an index. -/
def trbPtr (buffer : TrbBuffer) (m index : Nat) : Nat := buffer.ptr + index % m * 16

/-- Since `start`, the first stage of the transfer that was answered last, everything is recent. -/
structure Recent (s : ControlPipe) (start : Nat) : Prop where
  base_le : s.base ≤ start + 3
  started : s.base = 0 ∧ start = 0 ∨ start < s.shared.executed.length
  events : ∀ posted ∈ s.events, start ≤ posted.index

/-- An event in the ring is about an executed TRB. -/
structure Reported (buffer : TrbBuffer) (m executed : Nat) (posted : Posted) : Prop where
  lt : posted.index < executed
  pointer : posted.event.trbPointer = trbPtr buffer m posted.index

structure Inv (trbs : StageTrbs links) (buffer : TrbBuffer) (m : Nat) (s : ControlPipe) : Prop where
  shared : (Shared.system links (TransferRing.push links) (.new buffer) (m + 1)).Reachable s.shared
  pushed : s.shared.pushed ++ s.todo.map trbs.encode =
    (s.submitted.flatMap ControlTransfer.stages).map trbs.encode
  fits : ∀ transfer ∈ s.submitted, transfer.Fits
  waitOn : ∀ c ∈ s.current, s.base + c.waitOn.length = s.shared.pushed.length ∧
    c.waitOn = (List.range' s.base c.waitOn.length).map (trbPtr buffer m)
  reported : ∀ posted ∈ s.events, Reported buffer m s.shared.executed.length posted
  sorted : s.events.Pairwise fun a b => a.index ≤ b.index
  recent : ∃ start, s.Recent start
  answered : ∀ front a back, s.answered = front ++ a :: back →
    AnsweredBy front a s.shared.executed.length

/-- The current transfer has at most three stages. -/
theorem length_pushed_le
    (h : s.shared.pushed ++ s.todo.map trbs.encode =
      (s.submitted.flatMap ControlTransfer.stages).map trbs.encode) :
    s.shared.pushed.length ≤ s.base + 3 := by
  have hlength := congrArg List.length h
  rw [List.length_append, List.length_map, List.length_map, ← stageCount] at hlength
  cases hcurrent : s.current with
  | none =>
      rw [submitted_of_none hcurrent, ← base] at hlength
      omega
  | some c =>
      have hle := c.transfer.length_stages_le
      rw [submitted_of_some hcurrent, stageCount_append, ← base, stageCount_singleton] at hlength
      omega

/-- At most two stages of the last transfer and three of the current one are in the ring. -/
theorem unexecuted_le
    (h : s.shared.pushed ++ s.todo.map trbs.encode =
      (s.submitted.flatMap ControlTransfer.stages).map trbs.encode)
    (hrecent : ∃ start, s.Recent start) :
    s.shared.pushed.length ≤ s.shared.executed.length + 5 := by
  obtain ⟨start, hrecent⟩ := hrecent
  have hpushed := length_pushed_le h
  have hbase := hrecent.base_le
  obtain ⟨hzero, -⟩ | hstart := hrecent.started
  · omega
  · omega

theorem written_beginning (pending : List WordWrite) (pushed : List TrbRaw) :
    Shared.written (m + 1) pending pushed <+: pushed := by
  rw [Shared.written]
  split
  · exact List.dropLast_prefix _
  · exact List.prefix_rfl

section Ring

variable (hlen : buffer.len = m + 1) (hm : 0 < m)
  {shared : Shared TransferRing}
  (hshared : (Shared.system links (TransferRing.push links) (.new buffer) (m + 1)).Reachable shared)
include hlen hm hshared

theorem ring_inv : Shared.Inv links buffer m (shared.onCore TransferRing.toProducerRing) :=
  Shared.Inv.of_reachable (TransferRing.push_wraps links) rfl hlen hm hshared

theorem trbBuffer_eq : shared.ring.trbBuffer = buffer :=
  congrArg ProducerRing.trbBuffer (ring_inv hlen hm hshared).ring

theorem executed_le : shared.executed.length ≤ shared.pushed.length := by
  have hle := (ring_inv hlen hm hshared).delivery.inOrder.length_le
  rw [Shared.length_stamped] at hle
  exact hle.trans (written_beginning _ _).length_le

/-- The TRB that the controller executes is the next one. -/
theorem dequeue_eq (owned : (shared.memory shared.dequeue).cycleBit = shared.ccs)
    (notLink : links.isLink (shared.memory shared.dequeue) = false) :
    shared.executed.length % m = shared.dequeue := by
  have inv := ring_inv hlen hm hshared
  obtain ⟨f, hlength, hdeq, -⟩ := inv.delivery.reader
  have hne : shared.dequeue ≠ m := by
    intro heq
    obtain ⟨-, link⟩ | ⟨hne, -⟩ := inv.at_link hm heq
    · rw [heq] at notLink
      exact Bool.false_ne_true (notLink.symm.trans link)
    · rw [heq] at owned
      exact hne owned
  have hlt : shared.dequeue < m := Nat.lt_of_le_of_ne hdeq hne
  have heq : shared.executed.length = shared.dequeue + m * f := hlength
  rw [heq, Nat.add_mul_mod_self_left, Nat.mod_eq_of_lt hlt]

end Ring

/-- To write a word or to follow the link neither pushes nor executes anything. -/
theorem trbs_of_step {shared shared' : Shared TransferRing} {i : Shared.Label}
    (h : Shared.Step links (TransferRing.push links) shared i shared')
    (hi : i = .write ∨ i = .follow) :
    shared'.pushed = shared.pushed ∧ shared'.executed = shared.executed := by
  cases h with
  | push | execute => simp at hi
  | write | follow => exact ⟨rfl, rfl⟩

theorem bounded_of_le {shared : Shared TransferRing} (hm : 6 ≤ m)
    (h : shared.pushed.length ≤ shared.executed.length + 5) : shared.Bounded (m + 1) := by
  have hwritten : (Shared.written (m + 1) shared.pending shared.pushed).length ≤
      shared.pushed.length := (written_beginning _ _).length_le
  rw [Shared.Bounded]
  omega

theorem AnsweredBy.mono {front : List Answered} {a : Answered} {executed executed' : Nat}
    (h : AnsweredBy front a executed) (hle : executed ≤ executed') : AnsweredBy front a executed' :=
  ⟨h.base_le, h.lt_base, h.executed.trans_le hle, h.result⟩

theorem Reported.mono {executed executed' : Nat} {posted : Posted}
    (h : Reported buffer m executed posted) (hle : executed ≤ executed') :
    Reported buffer m executed' posted := ⟨h.lt.trans_le hle, h.pointer⟩

theorem Recent.mono {start : Nat} {shared : Shared TransferRing} (h : s.Recent start)
    (hle : s.shared.executed.length ≤ shared.executed.length) :
    Recent { s with shared := shared } start :=
  ⟨h.base_le, h.started.imp_right fun hlt => hlt.trans_le hle, h.events⟩

namespace Inv

theorem new : Inv trbs buffer m (new buffer) where
  shared := .init rfl
  pushed := rfl
  fits := fun _ h => absurd h List.not_mem_nil
  waitOn := fun _ h => absurd h.symm (Option.some_ne_none _)
  reported := fun _ h => absurd h List.not_mem_nil
  sorted := .nil
  recent := ⟨0, Nat.zero_le _, .inl ⟨rfl, rfl⟩, fun _ h => absurd h List.not_mem_nil⟩
  answered := fun _ _ _ h => absurd h.symm (List.append_ne_nil_of_right_ne_nil _
    (List.cons_ne_nil _ _))

/-- A step of the controller, or of the driver in a call of `push`. -/
theorem shared_step (inv : Inv trbs buffer m s) (hm : 6 ≤ m) {i : Shared.Label}
    {shared : Shared TransferRing}
    (h : Shared.Step links (TransferRing.push links) s.shared i shared)
    (hpushed : shared.pushed = s.shared.pushed)
    (hle : s.shared.executed.length ≤ shared.executed.length) :
    Inv trbs buffer m { s with shared := shared } := by
  have hall : shared.pushed ++ s.todo.map trbs.encode =
      (s.submitted.flatMap ControlTransfer.stages).map trbs.encode := by
    rw [hpushed]
    exact inv.pushed
  have hrecent : ∃ start, Recent { s with shared := shared } start := by
    obtain ⟨start, hrecent⟩ := inv.recent
    exact ⟨start, hrecent.mono hle⟩
  have hbounded : shared.Bounded (m + 1) :=
    bounded_of_le hm (@unexecuted_le _ trbs { s with shared := shared } hall hrecent)
  refine ⟨.step inv.shared ⟨h, hbounded⟩, hall, inv.fits, ?_, ?_, inv.sorted, hrecent, ?_⟩
  · intro c hc
    rw [hpushed]
    exact inv.waitOn c hc
  · intro posted hposted
    exact (inv.reported posted hposted).mono hle
  · intro front a back hsplit
    exact (inv.answered front a back hsplit).mono hle

theorem submit (inv : Inv trbs buffer m s) {transfer : ControlTransfer}
    (idle : s.current = none) (fits : transfer.Fits) :
    Inv trbs buffer m { s with current := some ⟨transfer, transfer.stages, []⟩ } := by
  have hsubmitted : submitted { s with current := some ⟨transfer, transfer.stages, []⟩ } =
      s.submitted ++ [transfer] := by
    rw [submitted_of_none idle]
    rfl
  have htodo : s.todo = [] := by rw [todo, idle, Option.elim_none]
  have hpushed := inv.pushed
  rw [htodo, List.map_nil, List.append_nil] at hpushed
  refine ⟨inv.shared, ?_, ?_, ?_, inv.reported, inv.sorted, ?_, inv.answered⟩
  · rw [hsubmitted, List.flatMap_append, List.flatMap_singleton, List.map_append, ← hpushed]
    rfl
  · rw [hsubmitted]
    intro other hother
    rw [List.mem_append, List.mem_singleton] at hother
    obtain hother | rfl := hother
    · exact inv.fits other hother
    · exact fits
  · rintro c hc
    cases hc
    refine ⟨?_, rfl⟩
    rw [hpushed, List.length_map, ← stageCount, submitted_of_none idle]
    rfl
  · obtain ⟨start, hrecent⟩ := inv.recent
    exact ⟨start, hrecent.base_le, hrecent.started, hrecent.events⟩

theorem push (inv : Inv trbs buffer m s) (hlen : buffer.len = m + 1) (hm : 6 ≤ m)
    {c : InProgress} {stage : StageTrb} {todo : List StageTrb} {writes : List WordWrite}
    {ring : TransferRing} {ptr : Nat} (current : s.current = some c) (next : c.todo = stage :: todo)
    (idle : s.shared.pending = [])
    (h : s.shared.ring.push links (trbs.encode stage) = .ok (writes, ring, ptr)) :
    Inv trbs buffer m (s.pushing c (trbs.encode stage) todo writes ring ptr) := by
  have hptr : ptr = trbPtr buffer m s.shared.pushed.length := by
    have hring := (ring_inv hlen (by omega) inv.shared).ring
    have hpush := (TransferRing.push_wraps links).core_push h
    rw [show s.shared.ring.toProducerRing = .after buffer m s.shared.pushed.length from hring,
      ProducerRing.push_after hlen (by omega)] at hpush
    simp only [Except.ok.injEq, Prod.mk.injEq] at hpush
    exact hpush.2.2.symm
  have hstages : s.todo = stage :: todo := by rw [ControlPipe.todo, current, Option.elim_some, next]
  have hsame := submitted_of_some current
  have hall : (s.shared.pushed ++ [trbs.encode stage]) ++ todo.map trbs.encode =
      ((s.answered.map Answered.transfer ++ [c.transfer]).flatMap ControlTransfer.stages).map
        trbs.encode := by
    rw [← hsame, ← inv.pushed, hstages, List.map_cons, List.append_assoc, List.singleton_append]
  obtain ⟨hcount, hwait⟩ := inv.waitOn c current
  obtain ⟨start, hrecent⟩ := inv.recent
  have hrecent' : ∃ start, (s.pushing c (trbs.encode stage) todo writes ring ptr).Recent start :=
    ⟨start, hrecent.base_le, hrecent.started, hrecent.events⟩
  have hpushing : Shared.Step links (TransferRing.push links) s.shared (.push (trbs.encode stage))
      (s.pushing c (trbs.encode stage) todo writes ring ptr).shared :=
    .push idle (trbs.isLink_encode stage) h
  refine ⟨.step inv.shared ⟨hpushing, bounded_of_le hm (unexecuted_le hall hrecent')⟩, hall, ?_, ?_,
    inv.reported, inv.sorted, hrecent', inv.answered⟩
  · intro transfer htransfer
    exact inv.fits transfer (hsame ▸ htransfer)
  · rintro c' hc'
    cases hc'
    have hcount' : s.base + (c.waitOn ++ [ptr]).length =
        (s.shared.pushed ++ [trbs.encode stage]).length := by
      rw [List.length_append, List.length_append, List.length_singleton, List.length_singleton]
      omega
    refine ⟨hcount', ?_⟩
    have hwait' : c.waitOn ++ [ptr] =
        (List.range' s.base (c.waitOn ++ [ptr]).length).map (trbPtr buffer m) := by
      rw [List.length_append, List.length_singleton, List.range'_1_concat, List.map_append,
        ← hwait, List.map_singleton, hcount, hptr]
    exact hwait'

/-- The reports of the controller about a TRB that it executes. -/
theorem execute (inv : Inv trbs buffer m s) (hlen : buffer.len = m + 1) (hm : 6 ≤ m)
    (reports : List (Nat × Nat)) {shared : Shared TransferRing}
    (h : Shared.Step links (TransferRing.push links) s.shared .execute shared) :
    Inv trbs buffer m
      { s with
        shared := shared
        events := s.events ++ reports.map fun r => s.report r.1 r.2 } := by
  cases h with
  | execute owned notLink =>
      have hnext : s.shared.executed.length <
          (s.shared.executed ++ [s.shared.memory s.shared.dequeue]).length := by
        rw [List.length_append, List.length_singleton]
        exact Nat.lt_succ_self _
      have hstep := inv.shared_step hm (.execute owned notLink) rfl hnext.le
      have hpointer : s.shared.ring.trbBuffer.ptr + s.shared.dequeue * 16 =
          trbPtr buffer m s.shared.executed.length := by
        rw [trbPtr, trbBuffer_eq hlen (by omega) inv.shared,
          dequeue_eq hlen (by omega) inv.shared owned notLink]
      refine ⟨hstep.shared, hstep.pushed, hstep.fits, hstep.waitOn, ?_, ?_, ?_, hstep.answered⟩
      · intro posted hposted
        rw [List.mem_append, List.mem_map] at hposted
        obtain hposted | ⟨r, -, rfl⟩ := hposted
        · exact hstep.reported posted hposted
        · exact ⟨hnext, hpointer⟩
      · refine List.pairwise_append.mpr ⟨inv.sorted, ?_, ?_⟩
        · exact List.pairwise_map.mpr (List.pairwise_of_forall fun _ _ => le_rfl)
        · intro posted hposted new hnew
          rw [List.mem_map] at hnew
          obtain ⟨r, -, rfl⟩ := hnew
          exact (inv.reported posted hposted).lt.le
      · obtain ⟨start, hrecent⟩ := inv.recent
        refine ⟨start, hrecent.base_le, ?_, ?_⟩
        · exact hrecent.started.imp_right fun hlt => hlt.trans hnext
        · intro posted hposted
          rw [List.mem_append, List.mem_map] at hposted
          obtain hposted | ⟨r, -, rfl⟩ := hposted
          · exact hrecent.events posted hposted
          · obtain ⟨-, rfl⟩ | hstart := hrecent.started
            · exact Nat.zero_le _
            · exact hstart.le

/-- An event leaves the event ring. -/
theorem aside (inv : Inv trbs buffer m s) {posted : Posted} {events : List Posted}
    (front : s.events = posted :: events) : Inv trbs buffer m { s with events := events } := by
  have hsub : ∀ p ∈ events, p ∈ s.events := by
    intro p hp
    rw [front]
    exact List.mem_cons_of_mem _ hp
  have hsorted := inv.sorted
  rw [front] at hsorted
  refine ⟨inv.shared, inv.pushed, inv.fits, inv.waitOn, fun p hp => inv.reported p (hsub p hp),
    hsorted.of_cons, ?_, inv.answered⟩
  obtain ⟨start, hrecent⟩ := inv.recent
  exact ⟨start, hrecent.base_le, hrecent.started, fun p hp => hrecent.events p (hsub p hp)⟩

/-- A pointer that the current transfer waits on is to one of its own TRBs. -/
theorem base_le_index (inv : Inv trbs buffer m s) (hlen : buffer.len = m + 1) (hm : 6 ≤ m)
    {c : InProgress} (current : s.current = some c) {posted : Posted} (hposted : posted ∈ s.events)
    (mine : posted.event.trbPointer ∈ c.waitOn) : s.base ≤ posted.index := by
  obtain ⟨hcount, hwait⟩ := inv.waitOn c current
  obtain ⟨start, hrecent⟩ := inv.recent
  have hexecuted := executed_le hlen (by omega) inv.shared
  have hle := length_pushed_le inv.pushed
  have hlt := (inv.reported posted hposted).lt
  have hstart := hrecent.events posted hposted
  have hbase := hrecent.base_le
  rw [(inv.reported posted hposted).pointer, hwait, List.mem_map] at mine
  obtain ⟨index, hindex, hptr⟩ := mine
  rw [List.mem_range'_1] at hindex
  have hmod : index % m = posted.index % m := by
    simp only [trbPtr] at hptr
    omega
  obtain hless | heq | hmore := Nat.lt_trichotomy index posted.index
  · omega
  · omega
  · exact absurd hmod.symm (mod_ne_of_near hmore (by omega))

theorem poll (inv : Inv trbs buffer m s) (hlen : buffer.len = m + 1) (hm : 6 ≤ m)
    {c : InProgress} {posted : Posted} {events : List Posted} {result : Except TransferError Nat}
    (current : s.current = some c) (pushed : c.todo = []) (front : s.events = posted :: events)
    (mine : posted.event.trbPointer ∈ c.waitOn)
    (h : controlTransferResult (c.transfer.buf.map Prod.snd) posted.event = .ok result) :
    Inv trbs buffer m (s.ready c posted events result) := by
  have haside := inv.aside front
  have hposted : posted ∈ s.events := by
    rw [front]
    exact List.mem_cons_self
  have hindex := inv.base_le_index hlen hm current hposted mine
  have hreported := inv.reported posted hposted
  have hstages := c.transfer.length_stages_le
  have hbase : (s.ready c posted events result).base = s.base + c.transfer.stages.length := by
    rw [base, ready, List.map_append, stageCount_append, List.map_singleton, stageCount_singleton]
    rfl
  have hsubmitted := submitted_ready current posted events result
  have hdone : s.todo = [] := by rw [todo, current, Option.elim_some, pushed]
  have hpushed := inv.pushed
  rw [hdone, ← hsubmitted] at hpushed
  have hsorted := inv.sorted
  rw [front] at hsorted
  refine ⟨inv.shared, hpushed, ?_, fun _ h => absurd h.symm (Option.some_ne_none _),
    haside.reported, haside.sorted, ⟨s.base, ?_, ?_, ?_⟩, ?_⟩
  · rw [hsubmitted]
    exact inv.fits
  · omega
  · exact .inr (hindex.trans_lt hreported.lt)
  · intro p hp
    exact hindex.trans (List.rel_of_pairwise_cons hsorted hp)
  · intro before a back hsplit
    obtain rfl | ⟨back, last, rfl⟩ := back.eq_nil_or_concat
    · obtain ⟨rfl, hsame⟩ := List.append_inj' hsplit rfl
      obtain rfl := List.cons.inj hsame |>.1
      have hlength := congrArg List.length hpushed
      rw [List.map_nil, List.append_nil, List.length_map, ← stageCount, submitted_of_none rfl,
        ← base, hbase] at hlength
      have hexecuted := executed_le hlen (by omega) inv.shared
      have hlt := hreported.lt
      refine ⟨hindex, ?_, hlt, h⟩
      change posted.index < s.base + c.transfer.stages.length
      omega
    · rw [List.concat_eq_append, ← List.cons_append, ← List.append_assoc] at hsplit
      obtain ⟨hfront, -⟩ := List.append_inj' hsplit rfl
      exact inv.answered before a back hfront

theorem step (inv : Inv trbs buffer m s) (hlen : buffer.len = m + 1) (hm : 6 ≤ m) {i : Label}
    (h : Step trbs s i t) : Inv trbs buffer m t := by
  cases h with
  | submit idle fits => exact inv.submit idle fits
  | push current next idle h => exact inv.push hlen hm current next idle h
  | write h =>
      obtain ⟨hpushed, hexecuted⟩ := trbs_of_step h (.inl rfl)
      exact inv.shared_step hm h hpushed (by rw [hexecuted])
  | execute h => exact inv.execute hlen hm _ h
  | follow h =>
      obtain ⟨hpushed, hexecuted⟩ := trbs_of_step h (.inr rfl)
      exact inv.shared_step hm h hpushed (by rw [hexecuted])
  | poll current pushed idle front mine h => exact inv.poll hlen hm current pushed front mine h
  | aside front => exact inv.aside front

end Inv

theorem inv_of_reachable (hlen : buffer.len = m + 1) (hm : 6 ≤ m)
    (hs : (system trbs buffer).Reachable s) : Inv trbs buffer m s := by
  apply hs.invariant
  · rintro s rfl
    exact .new
  · intro s i t _ inv h
    exact inv.step hlen hm h

/-- The driver can push the next stage. -/
theorem Inv.exists_push (inv : Inv trbs buffer m s) (hlen : buffer.len = m + 1) (hm : 6 ≤ m)
    {c : InProgress} (current : s.current = some c) (hmore : c.todo ≠ [])
    (idle : s.shared.pending = []) : ∃ t, Step trbs s .push t := by
  obtain ⟨stage, todo, hnext⟩ := List.exists_cons_of_ne_nil hmore
  have hring := (ring_inv hlen (by omega) inv.shared).ring
  obtain ⟨⟨writes, ring, ptr⟩, hpush⟩ := (TransferRing.push_wraps links).push_total
    (hring ▸ ProducerRing.push_after hlen (by omega) s.shared.pushed.length (trbs.encode stage))
  exact ⟨_, .push current hnext idle hpush⟩

theorem decode_stamped (n : Nat) {stages : List StageTrb} (h : ∀ stage ∈ stages, stage.Fits) :
    (Shared.stamped n (stages.map trbs.encode)).map trbs.decode = stages.map some := by
  refine List.ext_getElem (by simp [Shared.stamped]) fun k hk _ => ?_
  have hlt : k < stages.length := by simpa [Shared.stamped] using hk
  simpa [Shared.stamped] using trbs.decode_encode stages[k] (lapBit (n - 1) k)
    (h _ (List.getElem_mem hlt))

/-- The controller sees the stages of the transfers. -/
theorem Inv.decode_executed (inv : Inv trbs buffer m s) (hlen : buffer.len = m + 1) (hm : 6 ≤ m) :
    s.shared.executed.map trbs.decode <+:
      (s.submitted.flatMap ControlTransfer.stages).map some := by
  have hfits : ∀ stage ∈ s.submitted.flatMap ControlTransfer.stages, stage.Fits := by
    intro stage hstage
    obtain ⟨transfer, htransfer, hmem⟩ := List.mem_flatMap.mp hstage
    exact ControlTransfer.fits_of_mem_stages (inv.fits transfer htransfer) hmem
  have hwritten : Shared.written (m + 1) s.shared.pending s.shared.pushed <+:
      (s.submitted.flatMap ControlTransfer.stages).map trbs.encode := by
    refine (written_beginning _ _).trans ?_
    rw [← inv.pushed]
    exact List.prefix_append _ _
  obtain ⟨stages, hstages, hmap⟩ := List.prefix_map_iff.mp hwritten
  have hexecuted := ((ring_inv hlen (by omega) inv.shared).delivery.inOrder).map trbs.decode
  have hsub : ∀ stage ∈ stages, stage.Fits := fun stage h => hfits stage (hstages.subset h)
  have hdecode := @decode_stamped _ trbs (m + 1) _ hsub
  rw [← hmap] at hdecode
  exact (hdecode ▸ hexecuted).trans (hstages.map some)

/-- What holds of a pipe at any time. -/
structure InOrder (trbs : StageTrbs links) (s : ControlPipe) : Prop where
  /-- The driver does not run over what the controller has not executed. -/
  apart : s.shared.pushed.length ≤ s.shared.executed.length + 5
  /-- The driver can push every stage that is still to do. -/
  ready : ∀ c ∈ s.current, c.todo ≠ [] → s.shared.pending = [] → ∃ t, Step trbs s .push t
  /-- What the controller reads are the stages of the transfers, one transfer after the other. -/
  seen : s.shared.executed.map trbs.decode <+:
    (s.submitted.flatMap ControlTransfer.stages).map some
  /-- A transfer is answered by what was reported about one of its own stages. -/
  answered : ∀ front a back, s.answered = front ++ a :: back →
    AnsweredBy front a s.shared.executed.length

end Invariant

/-- On a ring of at least seven slots, in every order of submitted transfers, word writes, steps
and reports of the controller, and events that others take off the event ring. -/
theorem control_transfers_in_order (trbs : StageTrbs links) (buffer : TrbBuffer)
    (hlen : 7 ≤ buffer.len) (s : ControlPipe) (hs : (system trbs buffer).Reachable s) :
    s.InOrder trbs := by
  obtain ⟨m, hm⟩ := Nat.exists_eq_add_of_le' (by omega : 1 ≤ buffer.len)
  have hsix : 6 ≤ m := by omega
  have inv := inv_of_reachable hm hsix hs
  exact
    { apart := unexecuted_le inv.pushed inv.recent
      ready := fun c current hmore idle => inv.exists_push hm hsix current hmore idle
      seen := inv.decode_executed hm hsix
      answered := inv.answered }

/-- A request without data, from its submission to its answer. -/
theorem control_transfers_in_order_setConfiguration :
    ∃ s, (system .xhci ⟨0x1000, 32, by decide⟩).Reachable s ∧ s.answered.length = 1 ∧
      s.InOrder .xhci := by
  let transfer : ControlTransfer := ⟨standardRequest .hostToDevice .setConfiguration 1 0, none⟩
  have hfits : transfer.Fits := fun _ h => absurd h.symm (Option.some_ne_none _)
  have h₀ : (system .xhci ⟨0x1000, 32, by decide⟩).Reachable _ :=
    .step (.init rfl) (.submit rfl hfits)
  -- the setup stage
  have h₁ := h₀.step (.push rfl rfl rfl rfl)
  have h₂ := (((h₁.step (.write (.write rfl))).step (.write (.write rfl))).step
    (.write (.write rfl))).step (.write (.write rfl))
  -- the status stage
  have h₃ := h₂.step (.push rfl rfl rfl rfl)
  have h₄ := (((h₃.step (.write (.write rfl))).step (.write (.write rfl))).step
    (.write (.write rfl))).step (.write (.write rfl))
  have h₅ := h₄.step (show Step .xhci _ (.execute []) _ from
    .execute (.execute (by decide) (by decide)))
  have h₆ := h₅.step (show Step .xhci _ (.execute [(success, 0)]) _ from
    .execute (.execute (by decide) (by decide)))
  have h₇ := h₆.step (.poll rfl rfl rfl rfl (by decide) rfl)
  exact ⟨_, h₇, rfl, control_transfers_in_order _ _ (by decide) _ h₇⟩

end ControlPipe

end LemolaOs.Usb
