import LemolaOs.Library.Transition
import LemolaOs.Xhci.ProducerRing

/-!
# The ring of an interrupt endpoint

The driver fills the ring of an interrupt endpoint once with Normal TRBs, each
with a data buffer of its own. From then on a TRB goes back and forth: the
controller executes it, writes a report to the data buffer and posts an event;
`process_transfer_event` reads the TRB, returns it to the controller with
`flip_cycle_bit_at` and hands the data buffer to the callback of the class driver.

`InterruptRing` is the state of both parties. The events may be processed in any
order, since `EventRing.popped` is a stack, and the controller may move between
any two word writes of a flip and between the flip and the callback. The events
are those with the completion codes Success and Short Packet, the ones that are
processed further; both class drivers fill their ring with data buffers of as many
bytes as they hand over (`N_IN_TRANSFER_BYTES`).
-/

namespace LemolaOs.Xhci

/-- `buffer_range().position(|i| i == trb_pointer as usize).unwrap()`. -/
def TrbBuffer.position (buffer : TrbBuffer) (trbPointer : Nat) : Rust Nat :=
  if buffer.ptr ≤ trbPointer ∧ trbPointer < buffer.ptr + buffer.len * 16 then
    .ok (trbPointer - buffer.ptr)
  else .error .assertion

namespace TransferRing

/-- `PAGE_SIZE`. -/
def pageSize : Nat := 4096

/-- One round of the loop of `fill_with_normal`, after rounds that have made `writes`. -/
def fillRound (links : LinkTrb) (normals : NormalTrb links) (alloc : Nat → UInt64)
    (bufSize : Nat) : List WordWrite × TransferRing → Nat → Rust (List WordWrite × TransferRing) :=
  fun (writes, r) idx => do
    -- `Layout::from_size_align(buf_size, PAGE_SIZE).unwrap()`
    if 2 ^ 63 < bufSize + pageSize then .error .assertion
    let (more, r, _) ← r.push links (normals.filled (alloc idx) bufSize)
    .ok (writes ++ more, r)

/-- `fill_with_normal`, with the addresses that the calls of `alloc_zeroed` return. -/
def fillWithNormal (links : LinkTrb) (normals : NormalTrb links) (alloc : Nat → UInt64)
    (bufSize : Nat) (r : TransferRing) : Rust (List WordWrite × TransferRing) := do
  let count ← usizeSub r.trbBuffer.len 1
  (List.range count).foldlM (fillRound links normals alloc bufSize) ([], r)

/-- `flip_cycle_bit_at`: the words it writes, in order, and the ring afterwards. -/
def flipCycleBitAt (links : LinkTrb) (memory : Nat → TrbRaw) (r : TransferRing)
    (trbPointer : Nat) (prevCycleBit : Bool) : Rust (List WordWrite × TransferRing) := do
  let position ← r.trbBuffer.position trbPointer
  let writeIndex := position / 16
  let last ← usizeSub r.trbBuffer.len 1
  debugAssert (writeIndex != last)
  let _ ← r.trbBuffer.index writeIndex
  debugAssert ((memory writeIndex).cycleBit == prevCycleBit)
  let toggle := TrbRaw.toggleCycleBit writeIndex (memory writeIndex)
  let writeIndex ← usizeAdd writeIndex 1
  if writeIndex = last then
    let cycleCount ← usizeAdd r.cycleCount 1
    -- reached end of the ring
    let link := (links.backTo r.trbBuffer.ptr).setCycleBit r.cycleBit
    let _ ← r.trbBuffer.index writeIndex
    .ok (toggle :: TrbRaw.writeInOrder writeIndex link,
      { r with writeIndex := 0, cycleBit := !r.cycleBit, cycleCount })
  else
    .ok ([toggle], { r with writeIndex })

end TransferRing

/-- An event that the controller has posted, with the report it wrote for it. -/
structure Report where
  trbPointer : Nat
  bytes : List UInt8
  deriving DecidableEq

/-- `core::slice::from_raw_parts(ptr, len)`. -/
def readBytes (bytes : Nat → UInt8) (ptr len : Nat) : List UInt8 :=
  (List.range len).map fun k => bytes (ptr + k)

/-- The memory after the controller has written `data` at `ptr`. -/
def writeBytes (bytes : Nat → UInt8) (ptr : Nat) (data : List UInt8) : Nat → UInt8 :=
  fun a => if ptr ≤ a then data.getD (a - ptr) (bytes a) else bytes a

theorem readBytes_writeBytes (bytes : Nat → UInt8) (ptr : Nat) (data : List UInt8) :
    readBytes (writeBytes bytes ptr data) ptr data.length = data := by
  apply List.ext_getElem
  · simp [readBytes]
  · intro k _ hk
    simp [readBytes, writeBytes, hk]

/-- Writing elsewhere does not show. -/
theorem readBytes_writeBytes_apart {bytes : Nat → UInt8} {ptr other len : Nat} {data : List UInt8}
    (h : other + len ≤ ptr ∨ ptr + data.length ≤ other) :
    readBytes (writeBytes bytes ptr data) other len = readBytes bytes other len := by
  simp only [readBytes]
  apply List.map_congr_left
  intro k hk
  rw [List.mem_range] at hk
  rw [writeBytes]
  split
  · next hle =>
      simp [List.getD, List.getElem?_eq_none (show data.length ≤ other + k - ptr by omega)]
  · rfl

/-- Driver and controller at the ring of an interrupt endpoint: the TRBs and the memory of
the data buffers, the word writes of a flip in progress, the event whose data buffer is
still to be handed over with the TRB as it was read, and the events that no call of
`process_transfer_event` has taken. `executed` and `delivered` record the slots the
controller has executed and what the callback was given for each event. -/
structure InterruptRing where
  ring : TransferRing
  memory : Nat → TrbRaw
  bytes : Nat → UInt8
  pending : List WordWrite
  delivering : Option (Report × TrbRaw)
  posted : List Report
  dequeue : Nat
  ccs : Bool
  executed : List Nat
  delivered : List (Report × List UInt8)

namespace InterruptRing

/-- The slot of a TRB pointer. -/
def slotOf (buffer : TrbBuffer) (trbPointer : Nat) : Nat := (trbPointer - buffer.ptr) / 16

/-- `process_transfer_event` up to the end of its first block: the writes of the flip, the
ring afterwards, and the TRB as it was read if it is a Normal TRB. -/
def processTransferEvent (links : LinkTrb) (normals : NormalTrb links) (memory : Nat → TrbRaw)
    (r : TransferRing) (trbPointer : Nat) :
    Rust (List WordWrite × TransferRing × Option TrbRaw) := do
  let trb := memory (slotOf r.trbBuffer trbPointer)
  if normals.isAllowed trb = false then .error .assertion
  if normals.isNormal trb then
    let (writes, r) ← r.flipCycleBitAt links memory trbPointer trb.cycleBit
    .ok (writes, r, some trb)
  else .ok ([], r, none)

inductive Label where
  | execute (bytes : List UInt8)
  | follow
  | process (event : Report)
  | write
  | deliver
  deriving DecidableEq

/-- The calls of `process_transfer_event` come one after the other; their word writes, the
callback and the steps of the controller come in any order that keeps each call's own. -/
inductive Step (links : LinkTrb) (normals : NormalTrb links) (bufSize : Nat) :
    InterruptRing → Label → InterruptRing → Prop where
  | execute {s : InterruptRing} {bytes : List UInt8}
      (owned : (s.memory s.dequeue).cycleBit = s.ccs)
      (notLink : links.isLink (s.memory s.dequeue) = false) (size : bytes.length = bufSize) :
      Step links normals bufSize s (.execute bytes)
        { s with
          bytes := writeBytes s.bytes
            (normals.dataBufferPointer (s.memory s.dequeue)).toNat bytes
          posted := s.posted ++ [⟨s.ring.trbBuffer.ptr + s.dequeue * 16, bytes⟩]
          executed := s.executed ++ [s.dequeue]
          dequeue := s.dequeue + 1 }
  | follow {s : InterruptRing} (owned : (s.memory s.dequeue).cycleBit = s.ccs)
      (link : links.isLink (s.memory s.dequeue) = true) :
      Step links normals bufSize s .follow { s with dequeue := 0, ccs := !s.ccs }
  | process {s : InterruptRing} {event : Report} {writes : List WordWrite} {ring : TransferRing}
      {trb : Option TrbRaw} (idle : s.pending = []) (free : s.delivering = none)
      (taken : event ∈ s.posted)
      (h : processTransferEvent links normals s.memory s.ring event.trbPointer =
        .ok (writes, ring, trb)) :
      Step links normals bufSize s (.process event)
        { s with
          ring := ring
          pending := writes
          delivering := trb.map fun trb => (event, trb)
          posted := s.posted.erase event }
  | write {s : InterruptRing} {d : WordWrite} {rest : List WordWrite} (h : s.pending = d :: rest) :
      Step links normals bufSize s .write { s with memory := d.apply s.memory, pending := rest }
  | deliver {s : InterruptRing} {event : Report} {trb : TrbRaw} (idle : s.pending = [])
      (h : s.delivering = some (event, trb)) :
      Step links normals bufSize s .deliver
        { s with
          delivering := none
          delivered := s.delivered ++
            [(event, readBytes s.bytes (normals.dataBufferPointer trb).toNat bufSize)] }

/-- The step of a label, if it can be taken. -/
def next (links : LinkTrb) (normals : NormalTrb links) (bufSize : Nat) (s : InterruptRing) :
    Label → Option InterruptRing
  | .execute bytes =>
      if (s.memory s.dequeue).cycleBit = s.ccs ∧ links.isLink (s.memory s.dequeue) = false ∧
          bytes.length = bufSize then
        some
          { s with
            bytes := writeBytes s.bytes
              (normals.dataBufferPointer (s.memory s.dequeue)).toNat bytes
            posted := s.posted ++ [⟨s.ring.trbBuffer.ptr + s.dequeue * 16, bytes⟩]
            executed := s.executed ++ [s.dequeue]
            dequeue := s.dequeue + 1 }
      else none
  | .follow =>
      if (s.memory s.dequeue).cycleBit = s.ccs ∧ links.isLink (s.memory s.dequeue) = true then
        some { s with dequeue := 0, ccs := !s.ccs }
      else none
  | .process event =>
      if s.pending = [] ∧ s.delivering = none ∧ event ∈ s.posted then
        match processTransferEvent links normals s.memory s.ring event.trbPointer with
        | .ok (writes, ring, trb) =>
            some
              { s with
                ring := ring
                pending := writes
                delivering := trb.map fun trb => (event, trb)
                posted := s.posted.erase event }
        | .error _ => none
      else none
  | .write =>
      match s.pending with
      | d :: rest => some { s with memory := d.apply s.memory, pending := rest }
      | [] => none
  | .deliver =>
      match s.pending, s.delivering with
      | [], some (event, trb) =>
          some
            { s with
              delivering := none
              delivered := s.delivered ++
                [(event, readBytes s.bytes (normals.dataBufferPointer trb).toNat bufSize)] }
      | _, _ => none

theorem Step.of_next {links : LinkTrb} {normals : NormalTrb links} {bufSize : Nat}
    {s t : InterruptRing} {label : Label} (h : s.next links normals bufSize label = some t) :
    Step links normals bufSize s label t := by
  cases label with
  | execute bytes =>
      simp only [next, Option.ite_none_right_eq_some, Option.some.injEq] at h
      obtain ⟨⟨owned, notLink, size⟩, rfl⟩ := h
      exact .execute owned notLink size
  | follow =>
      simp only [next, Option.ite_none_right_eq_some, Option.some.injEq] at h
      obtain ⟨⟨owned, link⟩, rfl⟩ := h
      exact .follow owned link
  | process event =>
      simp only [next, Option.ite_none_right_eq_some] at h
      obtain ⟨⟨idle, free, taken⟩, h⟩ := h
      split at h
      · next hcall =>
          cases h
          exact .process idle free taken hcall
      · cases h
  | write =>
      simp only [next] at h
      split at h
      · next hpending =>
          cases h
          exact .write hpending
      · cases h
  | deliver =>
      simp only [next] at h
      split at h
      · next hpending hdelivering =>
          cases h
          exact .deliver hpending hdelivering
      · cases h

/-- Word writes that reach memory one after the other. -/
def applyAll (writes : List WordWrite) (memory : Nat → TrbRaw) : Nat → TrbRaw :=
  writes.foldl (fun memory d => d.apply memory) memory

/-- The endpoint when its ring has been filled and the controller has not begun. -/
def start (ring : TransferRing) (writes : List WordWrite) : InterruptRing :=
  ⟨ring, applyAll writes fun _ => .zero, fun _ => 0, [], none, [], 0, true, [], []⟩

/-- Every history of a fresh ring filled once by `fill_with_normal`. -/
def system (links : LinkTrb) (normals : NormalTrb links) (buffer : TrbBuffer)
    (alloc : Nat → UInt64) (bufSize : Nat) : System InterruptRing Label where
  init s := ∃ writes ring,
    TransferRing.fillWithNormal links normals alloc bufSize (.new buffer) = .ok (writes, ring) ∧
      s = start ring writes
  step := Step links normals bufSize

/-- A history from a filled ring all of whose steps meet `ok`. -/
def run (links : LinkTrb) (normals : NormalTrb links) (buffer : TrbBuffer)
    (alloc : Nat → UInt64) (bufSize : Nat) (ok : InterruptRing → Label → Bool)
    (history : List Label) : Option InterruptRing :=
  match TransferRing.fillWithNormal links normals alloc bufSize (.new buffer) with
  | .ok (writes, ring) =>
      history.foldlM
        (fun s label => if ok s label then s.next links normals bufSize label else none)
        (start ring writes)
  | .error _ => none

theorem reachable_of_run {links : LinkTrb} {normals : NormalTrb links} {buffer : TrbBuffer}
    {alloc : Nat → UInt64} {bufSize : Nat} {ok : InterruptRing → Label → Bool}
    {history : List Label} {s : InterruptRing}
    (h : run links normals buffer alloc bufSize ok history = some s) :
    ((system links normals buffer alloc bufSize).guard fun s label => ok s label).Reachable s := by
  rw [run] at h
  split at h
  · next writes ring hfill =>
      have hinit : ((system links normals buffer alloc bufSize).guard
          fun s label => ok s label).Reachable (start ring writes) :=
        .init ⟨writes, ring, hfill, rfl⟩
      -- the run from any reachable state
      generalize start ring writes = u at h hinit
      induction history generalizing u with
      | nil =>
          cases h
          exact hinit
      | cons label history ih =>
          rw [List.foldlM_cons, Option.bind_eq_bind, Option.bind_eq_some_iff] at h
          obtain ⟨t, ht, h⟩ := h
          rw [Option.ite_none_right_eq_some] at ht
          exact ih t h (.step hinit ⟨ht.1, Step.of_next ht.2⟩)
  · cases h

/-- The slots whose cycle bit a flip in progress is still to toggle; the other writes go to
the Link TRB in the last slot. -/
def toggles (last : Nat) (pending : List WordWrite) : List Nat :=
  (pending.filter fun d => d.slot != last).map (·.slot)

/-- The slots that the controller has executed and that have not been returned to it: their
event has not been taken, or the write that toggles the cycle bit is still to come. -/
def unprocessed (s : InterruptRing) : List Nat :=
  s.posted.map (fun event => slotOf s.ring.trbBuffer event.trbPointer) ++
    toggles (s.ring.trbBuffer.len - 1) s.pending

/-- The next write is the last word of the Link TRB. -/
def rewritesLink (s : InterruptRing) : Bool :=
  match s.pending with
  | [] => false
  | d :: _ => d.slot == s.ring.trbBuffer.len - 1 && d.word == Fin.last 3

/-- The controller stands in front of the Link TRB and may follow it. -/
def atLink (s : InterruptRing) : Bool :=
  s.dequeue == s.ring.trbBuffer.len - 1 && (s.memory s.dequeue).cycleBit == s.ccs

/-- The Link TRB is rewritten only when the controller is not about to follow it. -/
def linkFollowed (s : InterruptRing) : Label → Bool
  | .write => !(s.rewritesLink && s.atLink)
  | _ => true

/-- The controller executes no slot whose data buffer is still to be handed over. -/
def reportTaken (s : InterruptRing) : Label → Bool
  | .execute _ =>
      match s.delivering with
      | some (event, _) => slotOf s.ring.trbBuffer event.trbPointer != s.dequeue
      | none => true
  | _ => true

/-- The data buffers of the slots do not overlap, as those of an allocator that has not run
out of memory. -/
def Apart (alloc : Nat → UInt64) (bufSize m : Nat) : Prop :=
  ∀ i < m, ∀ j < m, i ≠ j →
    (alloc i).toNat + bufSize ≤ (alloc j).toNat ∨ (alloc j).toNat + bufSize ≤ (alloc i).toNat

end InterruptRing

end LemolaOs.Xhci
