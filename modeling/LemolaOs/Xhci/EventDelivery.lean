import LemolaOs.Library.CycleRing
import LemolaOs.Library.Transition
import LemolaOs.Xhci.EventRing

/-!
# Every posted event is taken once and goes to one place

The controller writes its events round-robin with a producer cycle state and
stops in front of an entry that ERDP has not passed. The driver calls
`process_event` and polls its futures in any order; handlers of dispatched events
may put an event back, and `process_once_received` takes events from `popped`
again. The history fields record what was posted, what was taken off the ring and
what came of it.
-/

namespace LemolaOs.Xhci

open EventQueue

/-- Controller and driver at the event ring. -/
structure EventSystem where
  queue : EventQueue
  enqueue : Nat
  pcs : Bool
  halted : Bool
  posted : List TrbRaw
  taken : List TrbRaw
  returned : List Event
  dispatched : List Event
  redispatched : List Event
  putBack : List Event

namespace EventSystem

inductive Label where
  | post (trb : TrbRaw)
  | call (call : Call)
  | processOnceReceived
  | putBack (event : Event)

/-- The controller writes an event with its cycle state and moves on, complementing the
state at the end of the segment. -/
def post (s : EventSystem) (trb : TrbRaw) : EventSystem :=
  let seg := s.queue.ring.segment
  let entry := trb.setCycleBit s.pcs
  let wraps := s.enqueue + 1 = seg.size
  { s with
    queue := { s.queue with
      memory := Function.update s.queue.memory (seg.slot s.enqueue) entry }
    enqueue := if wraps then 0 else s.enqueue + 1
    pcs := if wraps then !s.pcs else s.pcs
    posted := s.posted ++ [entry] }

/-- A call of the driver; the TRB under ERDP is taken if it is owned by the driver. -/
def afterCall (parse : TrbRaw → Option Event) (s : EventSystem) (call : Call) : EventSystem :=
  let (outcome, queue) := run parse call s.queue
  { s with
    queue
    halted := outcome == .panicked
    taken := if s.queue.pendingEvent then s.taken ++ [s.queue.memory s.queue.erdp] else s.taken
    returned := match outcome with
      | .ready event => s.returned ++ [event]
      | _ => s.returned
    dispatched := match outcome with
      | .dispatched event => s.dispatched ++ [event]
      | _ => s.dispatched }

def afterOnceReceived (s : EventSystem) : EventSystem :=
  let (outcome, queue) := s.queue.processOnceReceived
  { s with
    queue
    redispatched := match outcome with
      | .dispatched event => s.redispatched ++ [event]
      | _ => s.redispatched }

def afterPutBack (s : EventSystem) (event : Event) : EventSystem :=
  { s with queue := s.queue.push event, putBack := s.putBack ++ [event] }

/-- The controller never overwrites an entry that ERDP has not passed, and a handler puts
back only an event that it was given. -/
inductive Step (parse : TrbRaw → Option Event) : EventSystem → Label → EventSystem → Prop where
  | post {s : EventSystem} (trb : TrbRaw)
      (room : s.posted.length < s.taken.length + s.queue.ring.segment.size) :
      Step parse s (.post trb) (s.post trb)
  | call {s : EventSystem} (call : Call) (running : s.halted = false) :
      Step parse s (.call call) (s.afterCall parse call)
  | processOnceReceived {s : EventSystem} (running : s.halted = false) :
      Step parse s .processOnceReceived s.afterOnceReceived
  | putBack {s : EventSystem} {event : Event} (running : s.halted = false)
      (given : event ∈ s.dispatched ++ s.redispatched) :
      Step parse s (.putBack event) (s.afterPutBack event)

/-- After `EventRing::new`: every TRB of the segment has its cycle bit clear. -/
structure Initial (seg : Segment) (s : EventSystem) : Prop where
  clear : ∀ i < seg.size, (s.queue.memory (seg.slot i)).cycleBit = false
  fresh : s = ⟨⟨⟨seg, [], true⟩, seg.baseAddress, s.queue.memory⟩, 0, true, false,
    [], [], [], [], [], []⟩

def system (parse : TrbRaw → Option Event) (seg : Segment) : System EventSystem Label where
  init := Initial seg
  step := Step parse

/-- The events of `log` that went to `place`. -/
def placed (log : List (Event × Place)) (place : Place) : List Event :=
  (log.filter fun entry => entry.2 = place).map Prod.fst

/-- Every taken event that parses went to exactly one place: it was returned, it was
dispatched, or it was appended to `popped`. Events leave `popped` only when they are
dispatched from there. -/
def Placed (parse : TrbRaw → Option Event) (s : EventSystem) : Prop :=
  ∃ log : List (Event × Place), log.map Prod.fst = s.taken.filterMap parse ∧
    s.returned = placed log .returned ∧ s.dispatched = placed log .dispatched ∧
    (s.queue.ring.popped ++ s.redispatched).Perm (placed log .aside ++ s.putBack)

/-- What holds in every state. -/
structure Accounted (parse : TrbRaw → Option Event) (s : EventSystem) : Prop where
  /-- Events are taken in posting order, each once, and nothing else is taken. -/
  inOrder : s.taken <+: s.posted
  /-- A call takes the next event whenever there is one. -/
  pending : s.queue.pendingEvent = true ↔ s.taken.length < s.posted.length
  places : s.Placed parse

/-- The driver has taken `k` events off the ring. -/
structure ReaderAt (seg : Segment) (k : Nat) (q : EventQueue) : Prop where
  segment : q.ring.segment = seg
  erdp : q.erdp = seg.slot (k % seg.size)
  cycleBit : q.ring.cycleBit = lapBit seg.size k

/-- The segment is a cycle-bit ring with the controller and the driver at the ends of
their histories. -/
structure RingInv (seg : Segment) (s : EventSystem) : Prop where
  reader : ReaderAt seg s.taken.length s.queue
  enqueue : s.enqueue = s.posted.length % seg.size
  pcs : s.pcs = lapBit seg.size s.posted.length
  published : Published seg.size TrbRaw.cycleBit (fun i => s.queue.memory (seg.slot i)) s.posted
    s.taken.length
  inOrder : s.taken <+: s.posted
  ahead : s.posted.length ≤ s.taken.length + seg.size

variable {parse : TrbRaw → Option Event} {seg : Segment} {s : EventSystem}

/-- `pop` takes the TRB under ERDP and leaves the driver one entry further. -/
theorem ReaderAt.pop {k : Nat} {q : EventQueue} (h : ReaderAt seg k q)
    (parse : TrbRaw → Option Event) :
    ∃ q', q.pop parse = (parse (q.memory q.erdp), q') ∧ ReaderAt seg (k + 1) q' ∧
      q'.memory = q.memory ∧ q'.ring.popped = q.ring.popped := by
  have hnext : q.erdp + 16 = seg.slot (k % seg.size + 1) := by
    rw [h.erdp, Segment.slot, Segment.slot]
    omega
  have hstop : q.erdp + 16 = q.ring.segment.stop ↔ k % seg.size + 1 = seg.size := by
    rw [hnext, h.segment, Segment.stop, Segment.slot_inj]
  by_cases hend : k % seg.size + 1 = seg.size
  · obtain ⟨hmod, hdiv⟩ := succ_div_mod_of_eq seg.size_pos hend
    rw [EventQueue.pop, if_pos (hstop.mpr hend)]
    refine ⟨_, rfl, ⟨h.segment, ?_, ?_⟩, rfl, rfl⟩
    · simp [hmod, h.segment, Segment.slot]
    · rw [h.cycleBit, lapBit, lapBit, hdiv, Nat.bodd_succ]
  · obtain ⟨hmod, hdiv⟩ := succ_div_mod_of_ne seg.size_pos hend
    rw [EventQueue.pop, if_neg (fun heq => hend (hstop.mp heq))]
    refine ⟨_, rfl, ⟨h.segment, ?_, ?_⟩, rfl, rfl⟩
    · rw [hmod]
      exact hnext
    · rw [h.cycleBit, lapBit, lapBit, hdiv]

namespace RingInv

theorem initial (h : Initial seg s) : RingInv seg s := by
  rw [h.fresh]
  refine ⟨⟨rfl, ?_, ?_⟩, ?_, ?_, .init h.clear, List.nil_prefix, Nat.zero_le _⟩
  · simp [Segment.slot]
  · simp [lapBit]
  · simp
  · simp [lapBit]

theorem pendingEvent_iff (inv : RingInv seg s) :
    s.queue.pendingEvent = true ↔ s.taken.length < s.posted.length := by
  have hbit := inv.published.bit_eq_iff seg.size_pos inv.inOrder.length_le inv.ahead
  rw [pendingEvent, beq_iff_eq, inv.reader.erdp, inv.reader.cycleBit]
  exact hbit

theorem post (inv : RingInv seg s) (trb : TrbRaw)
    (room : s.posted.length < s.taken.length + s.queue.ring.segment.size) :
    RingInv seg (s.post trb) := by
  have hseg := inv.reader.segment
  rw [hseg] at room
  have hmem : (fun i => Function.update s.queue.memory (seg.slot s.enqueue)
      (trb.setCycleBit s.pcs) (seg.slot i)) =
      Function.update (fun i => s.queue.memory (seg.slot i)) (s.posted.length % seg.size)
        (trb.setCycleBit s.pcs) := by
    funext i
    simp only [Function.update_apply, seg.slot_inj, inv.enqueue]
  have hmove : (s.post trb).enqueue = (s.posted.length + 1) % seg.size ∧
      (s.post trb).pcs = lapBit seg.size (s.posted.length + 1) := by
    simp only [EventSystem.post, hseg, inv.enqueue, inv.pcs]
    by_cases hend : s.posted.length % seg.size + 1 = seg.size
    · obtain ⟨hmod, hdiv⟩ := succ_div_mod_of_eq seg.size_pos hend
      simp [hend, hmod, hdiv, lapBit]
    · obtain ⟨hmod, hdiv⟩ := succ_div_mod_of_ne seg.size_pos hend
      simp [hend, hmod, hdiv, lapBit]
  have hposted : (s.post trb).posted.length = s.posted.length + 1 := by simp [EventSystem.post]
  refine ⟨⟨hseg, inv.reader.erdp, inv.reader.cycleBit⟩, ?_, ?_, ?_, ?_, ?_⟩
  · rw [hposted]
    exact hmove.1
  · rw [hposted]
    exact hmove.2
  · simp only [EventSystem.post, hseg, hmem]
    exact inv.published.publish room seg.size_pos (by simp [inv.pcs])
  · exact inv.inOrder.trans (List.prefix_append _ _)
  · rw [hposted]
    exact room

/-- The entry under ERDP, when there is one, is the next of the posted ones. -/
theorem take (inv : RingInv seg s) (hfront : s.queue.pendingEvent = true) :
    s.taken ++ [s.queue.memory s.queue.erdp] <+: s.posted := by
  have hlt := inv.pendingEvent_iff.mp hfront
  have hheld := inv.published.held _ hlt le_rfl
  rw [inv.reader.erdp, hheld]
  exact List.concat_get_prefix inv.inOrder hlt

/-- Taking the entry under ERDP. What the driver does with it is of no concern here. -/
theorem advance (inv : RingInv seg s) (hfront : s.queue.pendingEvent = true) {t : EventSystem}
    (hreader : ReaderAt seg (s.taken.length + 1) t.queue)
    (hmemory : t.queue.memory = s.queue.memory) (henqueue : t.enqueue = s.enqueue)
    (hpcs : t.pcs = s.pcs) (hposted : t.posted = s.posted)
    (htaken : t.taken = s.taken ++ [s.queue.memory s.queue.erdp]) : RingInv seg t := by
  have hlength : t.taken.length = s.taken.length + 1 := by simp [htaken]
  refine ⟨hlength ▸ hreader, ?_, ?_, ?_, ?_, ?_⟩
  · rw [henqueue, hposted, inv.enqueue]
  · rw [hpcs, hposted, inv.pcs]
  · rw [hmemory, hposted]
    exact inv.published.advance (by omega)
  · rw [htaken, hposted]
    exact inv.take hfront
  · have := inv.ahead
    rw [hposted]
    omega

end RingInv

/-- `s` with the entry under ERDP taken off the ring. -/
def take (s : EventSystem) : EventSystem :=
  { s with taken := s.taken ++ [s.queue.memory s.queue.erdp] }

/-- An event that was taken off the ring goes to its place. -/
def put (s : EventSystem) (q : EventQueue) (event : Event) : Place → EventSystem
  | .returned => { s with queue := q, halted := false, returned := s.returned ++ [event] }
  | .dispatched => { s with queue := q, halted := false, dispatched := s.dispatched ++ [event] }
  | .aside => { s with queue := q.push event, halted := false }

/-- All that a call can do: nothing, take an event and put it in its place, or take a TRB
that does not parse. -/
theorem afterCall_cases (inv : RingInv seg s) (parse : TrbRaw → Option Event) (call : Call) :
    (s.queue.pendingEvent = false ∧ s.afterCall parse call = { s with halted := false }) ∨
    (s.queue.pendingEvent = true ∧ ∃ q, ReaderAt seg (s.taken.length + 1) q ∧
      q.memory = s.queue.memory ∧ q.ring.popped = s.queue.ring.popped ∧
      ((∃ event, parse (s.queue.memory s.queue.erdp) = some event ∧
          s.afterCall parse call = s.take.put q event (place call event)) ∨
        (parse (s.queue.memory s.queue.erdp) = none ∧
          ∃ halted, s.afterCall parse call = { s.take with queue := q, halted := halted }))) := by
  cases hfront : s.queue.pendingEvent with
  | false =>
      refine .inl ⟨rfl, ?_⟩
      simp [afterCall, run_of_not_pendingEvent call hfront, hfront]
  | true =>
      obtain ⟨q, hpop, hreader, hmemory, hpopped⟩ := inv.reader.pop parse
      refine .inr ⟨rfl, q, hreader, hmemory, hpopped, ?_⟩
      cases hparse : parse (s.queue.memory s.queue.erdp) with
      | some event =>
          refine .inl ⟨event, rfl, ?_⟩
          rw [hparse] at hpop
          simp only [afterCall, run_of_some call hfront hpop, hfront, if_true]
          cases place call event <;> rfl
      | none =>
          rw [hparse] at hpop
          refine .inr ⟨rfl, ?_⟩
          obtain h | h := run_of_none call hfront hpop
          · exact ⟨false, by simp [afterCall, h, hfront, take]⟩
          · exact ⟨true, by simp [afterCall, h, hfront, take]⟩

theorem RingInv.call (inv : RingInv seg s) (parse : TrbRaw → Option Event) (call : Call) :
    RingInv seg (s.afterCall parse call) := by
  obtain ⟨-, h⟩ | ⟨hfront, q, hreader, hmemory, -, ⟨event, -, h⟩ | ⟨-, halted, h⟩⟩ :=
    afterCall_cases inv parse call
  · rw [h]
    exact ⟨inv.reader, inv.enqueue, inv.pcs, inv.published, inv.inOrder, inv.ahead⟩
  · rw [h]
    cases place call event with
    | returned => exact inv.advance hfront hreader hmemory rfl rfl rfl rfl
    | dispatched => exact inv.advance hfront hreader hmemory rfl rfl rfl rfl
    | aside =>
        exact inv.advance hfront ⟨hreader.segment, hreader.erdp, hreader.cycleBit⟩ hmemory
          rfl rfl rfl rfl
  · rw [h]
    exact inv.advance hfront hreader hmemory rfl rfl rfl rfl

section Places

theorem placed_concat (log : List (Event × Place)) (event : Event) (place p : Place) :
    placed (log ++ [(event, place)]) p = placed log p ++ if place = p then [event] else [] := by
  by_cases h : place = p <;> simp [placed, List.filter_append, h]

theorem Placed.call (inv : RingInv seg s) (h : s.Placed parse) (call : Call) :
    (s.afterCall parse call).Placed parse := by
  obtain ⟨log, hlog, hreturned, hdispatched, haside⟩ := h
  obtain ⟨-, heq⟩ | ⟨-, q, -, -, hpopped, ⟨event, hparse, heq⟩ | ⟨hparse, halted, heq⟩⟩ :=
    afterCall_cases inv parse call
  · rw [heq]
    exact ⟨log, hlog, hreturned, hdispatched, haside⟩
  · rw [heq]
    refine ⟨log ++ [(event, place call event)], ?_, ?_⟩
    · have htaken : (s.take.put q event (place call event)).taken = s.take.taken := by
        cases place call event <;> rfl
      rw [htaken, List.map_append, hlog]
      simp [take, List.filterMap_append, hparse]
    · simp only [placed_concat]
      cases place call event with
      | returned => simpa [put, take, hreturned, hdispatched, hpopped] using haside
      | dispatched => simpa [put, take, hreturned, hdispatched, hpopped] using haside
      | aside =>
          simp only [put, take, push, hpopped, hreturned, hdispatched, reduceCtorEq, if_false,
            if_true, List.append_nil, true_and]
          rw [List.append_assoc, List.append_assoc, List.singleton_append, List.singleton_append]
          exact List.perm_middle.trans ((haside.cons event).trans List.perm_middle.symm)
  · rw [heq]
    refine ⟨log, ?_, hreturned, hdispatched, ?_⟩
    · simp [take, List.filterMap_append, hparse, hlog]
    · simpa [take, hpopped] using haside

theorem Placed.processOnceReceived (h : s.Placed parse) : s.afterOnceReceived.Placed parse := by
  obtain ⟨log, hlog, hreturned, hdispatched, haside⟩ := h
  refine ⟨log, ?_⟩
  obtain hnil | ⟨rest, event, hlast⟩ := List.eq_nil_or_concat' s.queue.ring.popped
  · simpa [afterOnceReceived, EventQueue.processOnceReceived, popAlreadyPopped, hnil, hlog,
      hreturned, hdispatched] using haside
  · refine ⟨?_, ?_, ?_, ?_⟩
    · simpa [afterOnceReceived, EventQueue.processOnceReceived, popAlreadyPopped, hlast] using hlog
    · simpa [afterOnceReceived, EventQueue.processOnceReceived, popAlreadyPopped, hlast]
        using hreturned
    · simpa [afterOnceReceived, EventQueue.processOnceReceived, popAlreadyPopped, hlast]
        using hdispatched
    · rw [hlast, List.append_assoc, List.singleton_append] at haside
      simp only [afterOnceReceived, EventQueue.processOnceReceived, popAlreadyPopped, hlast,
        List.getLast?_concat, List.dropLast_concat]
      rw [← List.append_assoc]
      exact (List.perm_append_singleton event _).trans (List.perm_middle.symm.trans haside)

theorem Placed.putBack (h : s.Placed parse) (event : Event) :
    (s.afterPutBack event).Placed parse := by
  obtain ⟨log, hlog, hreturned, hdispatched, haside⟩ := h
  refine ⟨log, hlog, hreturned, hdispatched, ?_⟩
  simp only [afterPutBack, push]
  rw [List.append_assoc, List.singleton_append, ← List.append_assoc (placed log .aside)]
  exact List.perm_middle.trans
    ((haside.cons event).trans (List.perm_append_singleton event _).symm)

end Places

/-- The ring part ignores `popped` and everything that is only recorded. -/
theorem RingInv.frame (inv : RingInv seg s) {t : EventSystem}
    (hring : t.queue.ring.segment = s.queue.ring.segment)
    (hcycle : t.queue.ring.cycleBit = s.queue.ring.cycleBit) (herdp : t.queue.erdp = s.queue.erdp)
    (hmemory : t.queue.memory = s.queue.memory) (henqueue : t.enqueue = s.enqueue)
    (hpcs : t.pcs = s.pcs) (hposted : t.posted = s.posted) (htaken : t.taken = s.taken) :
    RingInv seg t := by
  refine ⟨⟨?_, ?_, ?_⟩, ?_, ?_, ?_, ?_, ?_⟩
  · rw [hring, inv.reader.segment]
  · rw [herdp, htaken, inv.reader.erdp]
  · rw [hcycle, htaken, inv.reader.cycleBit]
  · rw [henqueue, hposted, inv.enqueue]
  · rw [hpcs, hposted, inv.pcs]
  · rw [hmemory, hposted, htaken]
    exact inv.published
  · rw [htaken, hposted]
    exact inv.inOrder
  · rw [htaken, hposted]
    exact inv.ahead

theorem inv_of_reachable (hs : (system parse seg).Reachable s) :
    RingInv seg s ∧ s.Placed parse := by
  apply hs.invariant
  · intro s h
    refine ⟨.initial h, [], ?_⟩
    rw [h.fresh]
    simp [placed]
  · intro s i t _ ⟨inv, places⟩ h
    cases h with
    | post trb room => exact ⟨inv.post trb room, places⟩
    | call call running => exact ⟨inv.call parse call, places.call inv call⟩
    | processOnceReceived running =>
        refine ⟨?_, places.processOnceReceived⟩
        have hqueue : ∃ popped, s.queue.processOnceReceived.2 =
            { s.queue with ring := { s.queue.ring with popped := popped } } := by
          refine ⟨s.queue.ring.popped.dropLast, ?_⟩
          simp only [EventQueue.processOnceReceived, popAlreadyPopped]
          cases s.queue.ring.popped.getLast? <;> rfl
        obtain ⟨popped, hqueue⟩ := hqueue
        apply inv.frame <;> simp [afterOnceReceived, hqueue]
    | putBack running given =>
        refine ⟨?_, places.putBack _⟩
        apply inv.frame <;> rfl

/-- In every state of every interleaving of posts and calls, the events taken off the ring
are the first of the posted ones, a call takes the next one whenever there is one, and
each taken event that parses is in exactly one place. -/
theorem events_accounted (parse : TrbRaw → Option Event) (seg : Segment) (s : EventSystem)
    (hs : (system parse seg).Reachable s) : s.Accounted parse := by
  obtain ⟨inv, places⟩ := inv_of_reachable hs
  exact ⟨inv.inOrder, inv.pendingEvent_iff, places⟩

/-- A segment of two TRBs in which the controller has posted a status change of port 1. -/
theorem events_accounted_portStatusChange :
    let seg : Segment := ⟨0x1000, 2, by decide⟩
    let s : EventSystem := ⟨⟨⟨seg, [], true⟩, 0x1000, fun _ => .zero⟩, 0, true, false,
      [], [], [], [], [], []⟩
    let t := (s.post ⟨#v[0x01000000, 0, 0x01000000, 0x8800]⟩).afterCall Event.xhci .processEvent
    t.dispatched = [.portStatusChange ⟨1⟩] ∧ t.Accounted Event.xhci := by
  intro seg s t
  have hinit : Initial seg s := ⟨fun _ _ => TrbRaw.cycleBit_zero, rfl⟩
  have hpost : (system Event.xhci seg).Reachable
      (s.post ⟨#v[0x01000000, 0, 0x01000000, 0x8800]⟩) :=
    .step (.init hinit) (.post _ (by decide))
  refine ⟨by decide, events_accounted Event.xhci seg t ?_⟩
  exact .step hpost (.call _ rfl)

end EventSystem

end LemolaOs.Xhci
