import LemolaOs.Xhci.Trb

/-!
# The event ring and its consumers

The controller posts events in a segment of TRBs. The driver's dequeue pointer is
the register ERDP, its cycle bit a field of `EventRing`. Four places look at the
TRB under ERDP and compare cycle bits; three of them then call `pop`:
`process_event`, which dispatches what it gets, and the two futures, which return
the event they wait for and put any other event aside in `popped`.

`event::Allowed::try_from` belongs to the `xhci` crate and is the parameter `parse`.
The counter `n_pop` is written by `pop` and read nowhere; it is left out.
-/

namespace LemolaOs.Xhci

/-- `EventRingSegmentTableEntry`: where the segment starts and how many TRBs it has. -/
structure Segment where
  baseAddress : Nat
  size : Nat
  size_pos : 0 < size

namespace Segment

/-- The address of a slot. -/
def slot (seg : Segment) (i : Nat) : Nat := seg.baseAddress + i * 16

def stop (seg : Segment) : Nat := seg.slot seg.size

theorem slot_inj (seg : Segment) {i j : Nat} : seg.slot i = seg.slot j ↔ i = j := by
  simp only [slot]
  omega

end Segment

structure EventRing where
  segment : Segment
  popped : List Event
  cycleBit : Bool

/-- What the driver works on: the ring, the register ERDP and the memory of the segment. -/
structure EventQueue where
  ring : EventRing
  erdp : Nat
  memory : Nat → TrbRaw

/-- What a call at the event ring comes to. -/
inductive Outcome where
  | pending
  | ready (event : Event)
  | dispatched (event : Event)
  | panicked
  deriving DecidableEq, Repr

namespace EventQueue

variable (parse : TrbRaw → Option Event)

/-- `pending_event`, and the test with which the other call sites begin. -/
def pendingEvent (q : EventQueue) : Bool := (q.memory q.erdp).cycleBit == q.ring.cycleBit

/-- `EventRing::push`. -/
def push (q : EventQueue) (trb : Event) : EventQueue :=
  { q with ring := { q.ring with popped := q.ring.popped ++ [trb] } }

/-- `EventRing::pop_already_popped`: the last event that was put aside. -/
def popAlreadyPopped (q : EventQueue) : Option Event × EventQueue :=
  (q.ring.popped.getLast?,
    { q with ring := { q.ring with popped := q.ring.popped.dropLast } })

/-- `EventRing::pop`: read the TRB under ERDP and move on, to the start of the segment and
with the other cycle bit at its end. -/
def pop (q : EventQueue) : Option Event × EventQueue :=
  let popped := q.memory q.erdp
  let next := q.erdp + 16
  if next = q.ring.segment.stop then
    (parse popped,
      { q with
        ring := { q.ring with cycleBit := !q.ring.cycleBit }
        erdp := q.ring.segment.baseAddress })
  else
    (parse popped, { q with erdp := next })

/-- `process_event`, up to the handler of the event. -/
def processEvent (q : EventQueue) : Outcome × EventQueue :=
  if q.pendingEvent then
    match q.pop parse with
    | (some event, q) => (.dispatched event, q)
    | (none, q) => (.panicked, q)  -- `todo!()`
  else (.pending, q)

end EventQueue

/-- `TransferEventWaitKind`. -/
inductive TransferEventWaitKind where
  | slotId (id : Nat)
  | trbPtr (ptr : Nat)
  | trbPtrs (ptrs : List Nat)
  deriving DecidableEq, Repr

namespace EventQueue

variable (parse : TrbRaw → Option Event)

/-- `CommandCompletionFuture::poll`. -/
def pollCommand (waitOn : Nat) (q : EventQueue) : Outcome × EventQueue :=
  if q.pendingEvent then
    match q.pop parse with
    | (some (.commandCompletion event), q) =>
        if event.commandTrbPointer = waitOn then (.ready (.commandCompletion event), q)
        else (.pending, q.push (.commandCompletion event))
    | (some trb, q) => (.pending, q.push trb)
    | (none, q) => (.pending, q)
  else (.pending, q)

/-- A transfer event for which the test of the branch holds is returned, any other event is
put aside, and a TRB that does not parse is dropped. -/
def settleTransfer (isMine : TransferEvent → Bool) : Option Event × EventQueue →
    Outcome × EventQueue
  | (some (.transferEvent event), q) =>
      if isMine event then (.ready (.transferEvent event), q)
      else (.pending, q.push (.transferEvent event))
  | (some trb, q) => (.pending, q.push trb)
  | (none, q) => (.pending, q)

/-- The loop over the pointers of `TrbPtrs`. The first round decides about a TRB that does
not parse; with no pointer at all it reaches the `unwrap` after the loop. -/
def settleTrbPtrs : List Nat → Option Event × EventQueue → Outcome × EventQueue
  | [], (some trb, q) => (.pending, q.push trb)
  | [], (none, q) => (.panicked, q)
  | ptr :: ptrs, (some (.transferEvent event), q) =>
      if event.trbPointer = ptr then (.ready (.transferEvent event), q)
      else settleTrbPtrs ptrs (some (.transferEvent event), q)
  | _ :: ptrs, (some trb, q) => settleTrbPtrs ptrs (some trb, q)
  | _ :: _, (none, q) => (.pending, q)

/-- `TransferEventFuture::poll`. -/
def pollTransfer (waitOn : TransferEventWaitKind) (q : EventQueue) : Outcome × EventQueue :=
  if q.pendingEvent then
    match waitOn with
    | .slotId id => settleTransfer (fun event => event.slotId == id) (q.pop parse)
    | .trbPtr ptr => settleTransfer (fun event => event.trbPointer == ptr) (q.pop parse)
    | .trbPtrs ptrs => settleTrbPtrs ptrs (q.pop parse)
  else (.pending, q)

end EventQueue

/-- `CommandCompletionFuture` and `TransferEventFuture`, by what they wait for. -/
inductive Future where
  | command (waitOn : Nat)
  | transfer (waitOn : TransferEventWaitKind)
  deriving DecidableEq, Repr

/-- The calls that take events off the ring. -/
inductive Call where
  | processEvent
  | poll (future : Future)
  deriving DecidableEq, Repr

/-- The transfer events of a wait target. -/
def TransferEventWaitKind.accepts : TransferEventWaitKind → TransferEvent → Bool
  | .slotId id, event => event.slotId == id
  | .trbPtr ptr, event => event.trbPointer == ptr
  | .trbPtrs ptrs, event => ptrs.contains event.trbPointer

/-- The events for which a future waits. -/
def Future.waitsFor : Future → Event → Bool
  | .command waitOn, .commandCompletion event => event.commandTrbPointer == waitOn
  | .transfer waitOn, .transferEvent event => waitOn.accepts event
  | _, _ => false

namespace EventQueue

variable (parse : TrbRaw → Option Event)

def run : Call → EventQueue → Outcome × EventQueue
  | .processEvent, q => q.processEvent parse
  | .poll (.command waitOn), q => q.pollCommand parse waitOn
  | .poll (.transfer waitOn), q => q.pollTransfer parse waitOn

/-- `process_once_received`, up to the handler of the event. -/
def processOnceReceived (q : EventQueue) : Outcome × EventQueue :=
  match q.popAlreadyPopped with
  | (some event, q) => (.dispatched event, q)
  | (none, q) => (.pending, q)

/-- Where an event goes when it is taken off the ring by a call. -/
inductive Place where
  | returned
  | dispatched
  | aside
  deriving DecidableEq, Repr

/-- `process_event` dispatches every event, a future returns what it waits for. -/
def place : Call → Event → Place
  | .processEvent, _ => .dispatched
  | .poll future, event => if future.waitsFor event then .returned else .aside

/-- The outcome and the queue after an event went to its place. -/
def settle (event : Event) (q : EventQueue) : Place → Outcome × EventQueue
  | .returned => (.ready event, q)
  | .dispatched => (.dispatched event, q)
  | .aside => (.pending, q.push event)

section Spec

variable {parse} {q q' : EventQueue} {event : Event}

@[simp] theorem pop_popped (q : EventQueue) :
    (q.pop parse).2.ring.popped = q.ring.popped := by
  rw [pop]
  split <;> rfl

@[simp] theorem pop_event (q : EventQueue) : (q.pop parse).1 = parse (q.memory q.erdp) := by
  rw [pop]
  split <;> rfl

theorem settleTransfer_some (waitOn : TransferEventWaitKind) :
    settleTransfer waitOn.accepts (some event, q) =
      settle event q (place (.poll (.transfer waitOn)) event) := by
  cases event with
  | transferEvent e =>
      cases hmine : waitOn.accepts e
      · simp [settleTransfer, place, Future.waitsFor, settle, hmine]
      · simp [settleTransfer, place, Future.waitsFor, settle, hmine]
  | _ => rfl

theorem settleTrbPtrs_some (ptrs : List Nat) :
    settleTrbPtrs ptrs (some event, q) =
      settle event q (place (.poll (.transfer (.trbPtrs ptrs))) event) := by
  induction ptrs with
  | nil => cases event <;> rfl
  | cons ptr ptrs ih =>
      cases event with
      | transferEvent e =>
          rw [settleTrbPtrs, ih]
          simp only [place, Future.waitsFor, TransferEventWaitKind.accepts, List.contains_cons]
          by_cases hptr : e.trbPointer = ptr
          · simp [hptr, settle]
          · simp [hptr]
      | _ => exact ih

/-- Every call puts an event that it has taken off the ring in one place. -/
theorem run_of_some (call : Call) (hfront : q.pendingEvent = true)
    (h : q.pop parse = (some event, q')) :
    run parse call q = settle event q' (place call event) := by
  match call with
  | .processEvent => simp [run, processEvent, hfront, h, place, settle]
  | .poll (.command waitOn) =>
      simp only [run, pollCommand, hfront, h, if_true, place]
      cases event with
      | commandCompletion e =>
          by_cases hmine : e.commandTrbPointer = waitOn
          · simp [Future.waitsFor, settle, hmine]
          · simp [Future.waitsFor, settle, hmine]
      | _ => rfl
  | .poll (.transfer waitOn) =>
      simp only [run, pollTransfer, hfront, h, if_true]
      cases waitOn with
      | slotId id => exact settleTransfer_some (.slotId id)
      | trbPtr ptr => exact settleTransfer_some (.trbPtr ptr)
      | trbPtrs ptrs => exact settleTrbPtrs_some ptrs

/-- Every call drops a TRB that does not parse, or panics at it. -/
theorem run_of_none (call : Call) (hfront : q.pendingEvent = true)
    (h : q.pop parse = (none, q')) :
    run parse call q = (.pending, q') ∨ run parse call q = (.panicked, q') := by
  match call with
  | .processEvent => simp [run, processEvent, hfront, h]
  | .poll (.command waitOn) => simp [run, pollCommand, hfront, h]
  | .poll (.transfer waitOn) =>
      simp only [run, pollTransfer, hfront, h, if_true]
      cases waitOn with
      | slotId id => exact .inl rfl
      | trbPtr ptr => exact .inl rfl
      | trbPtrs ptrs =>
          cases ptrs with
          | nil => exact .inr rfl
          | cons ptr ptrs => exact .inl rfl

/-- A call does nothing when the controller owns the TRB under ERDP. -/
theorem run_of_not_pendingEvent (call : Call) (hfront : q.pendingEvent = false) :
    run parse call q = (.pending, q) := by
  match call with
  | .processEvent => simp [run, processEvent, hfront]
  | .poll (.command waitOn) => simp [run, pollCommand, hfront]
  | .poll (.transfer waitOn) => simp [run, pollTransfer, hfront]

end Spec

end EventQueue

end LemolaOs.Xhci
