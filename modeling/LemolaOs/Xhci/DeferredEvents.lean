import LemolaOs.Xhci.EventDelivery

/-!
# The order of the events that are put aside

`EventRing::push` appends an event to `popped`, and `pop_already_popped` takes the last one
off again. The events that wait there form a stack: what was put aside last is handed to
`process_event_ring_event` first.

Each event that is put aside gets a number, the next one every time, also when a handler
puts aside again what it was given. The numbers of the events in `popped` and of those that
`process_once_received` has handed over are history variables of the event system, like the
list of all events that were ever put aside. `Numbered` says that they are the numbers of
the events that the ring really holds and of those that were really handed over.
-/

namespace LemolaOs.Xhci

open EventQueue

/-- The event ring with the numbers of the events that were put aside. -/
structure Deferral where
  events : EventSystem
  /-- All events that were put aside; the number of an event is its place in the list. -/
  aside : List Event
  /-- The numbers of the events in `popped`. -/
  waiting : List Nat
  /-- The numbers of the events that were handed over, in the order in which they were. -/
  handed : List Nat

namespace Deferral

/-- What a step has appended to `popped` gets the next numbers. -/
def putAside (s : Deferral) (events : EventSystem) : Deferral :=
  let new := events.queue.ring.popped.drop s.events.queue.ring.popped.length
  { s with
    events
    aside := s.aside ++ new
    waiting := s.waiting ++ List.range' s.aside.length new.length }

/-- What `pop_already_popped` has returned is handed over, and its number with it. Among
equal events it is the one put aside last. -/
def handOver (s : Deferral) (events : EventSystem) : Deferral :=
  match s.events.queue.popAlreadyPopped.1 with
  | none => { s with events }
  | some event =>
      let returned := fun number => decide (s.aside[number]? = some event)
      { s with
        events
        waiting := (s.waiting.reverse.eraseP returned).reverse
        handed := s.handed ++ (s.waiting.reverse.find? returned).toList }

/-- The numbers after a step to `events`. -/
def after (s : Deferral) (events : EventSystem) : EventSystem.Label → Deferral
  | .processOnceReceived => s.handOver events
  | .post _ | .call _ | .putBack _ => s.putAside events

inductive Step (parse : TrbRaw → Option Event) :
    Deferral → EventSystem.Label → Deferral → Prop where
  | step {s : Deferral} {label : EventSystem.Label} {events : EventSystem}
      (h : EventSystem.Step parse s.events label events) :
      Step parse s label (s.after events label)

structure Initial (seg : Segment) (s : Deferral) : Prop where
  events : EventSystem.Initial seg s.events
  aside : s.aside = []
  waiting : s.waiting = []
  handed : s.handed = []

/-- Every interleaving of posts, calls at the ring, events that are put back and calls of
`process_once_received`. -/
def system (parse : TrbRaw → Option Event) (seg : Segment) : System Deferral EventSystem.Label where
  init := Initial seg
  step := Step parse

/-- The events were handed over in the order in which they were put aside. -/
def InOrder (s : Deferral) : Prop := s.handed.Pairwise (· < ·)

/-- Moreover, none that waits was put aside before one that was handed over. -/
def NoneOvertaken (s : Deferral) : Prop := (s.handed ++ s.waiting).Pairwise (· < ·)

/-- `process_once_received` finds at most one event. -/
def OneWaits (s : Deferral) : EventSystem.Label → Prop
  | .processOnceReceived => s.events.queue.ring.popped.length ≤ 1
  | .post _ | .call _ | .putBack _ => True

/-- The numbers belong to the events. -/
structure Numbered (s : Deferral) : Prop where
  waiting : s.waiting.map (s.aside[·]?) = s.events.queue.ring.popped.map some
  handed : s.handed.map (s.aside[·]?) = s.events.redispatched.map some

variable {parse : TrbRaw → Option Event} {seg : Segment} {s t : Deferral} {events : EventSystem}

theorem NoneOvertaken.inOrder (h : s.NoneOvertaken) : s.InOrder :=
  (List.pairwise_append.mp h).1

section Numbers

variable {numbers : List Nat} {log found : List Event}

theorem lt_length_of_map_getElem? (h : numbers.map (log[·]?) = found.map some) {i : Nat}
    (hi : i ∈ numbers) : i < log.length := by
  have hmem : log[i]? ∈ found.map some := h ▸ List.mem_map_of_mem hi
  obtain ⟨event, -, hevent⟩ := List.mem_map.mp hmem
  exact (List.getElem?_eq_some_iff.mp hevent.symm).1

/-- Numbers stay those of their events when the log grows. -/
theorem map_getElem?_append (h : numbers.map (log[·]?) = found.map some) (new : List Event) :
    numbers.map ((log ++ new)[·]?) = found.map some := by
  rw [← h]
  refine List.map_congr_left fun i hi => ?_
  exact List.getElem?_append_left (lt_length_of_map_getElem? h hi)

theorem map_getElem?_range' (log new : List Event) :
    (List.range' log.length new.length).map ((log ++ new)[·]?) = new.map some := by
  refine List.ext_getElem (by simp) fun i hi hi' => ?_
  simp [List.getElem?_append_right]

/-- Events whose numbers increase stand in the log in that order. -/
theorem sublist_of_increasing (h : numbers.map (log[·]?) = found.map some)
    (hlt : numbers.Pairwise (· < ·)) : found.Sublist log := by
  let places : List (Fin log.length) :=
    numbers.pmap Fin.mk fun _ hi => lt_length_of_map_getElem? h hi
  have hnumbers : places.map Fin.val = numbers := by simp [places, List.map_pmap]
  have hfound : places.map (log[·]) = found := by
    refine List.map_injective_iff.mpr (Option.some_injective _) ?_
    rw [← h, ← hnumbers, List.map_map, List.map_map]
    exact List.map_congr_left fun i _ => (List.getElem?_eq_getElem i.isLt).symm
  rw [← hfound]
  refine List.map_getElem_sublist ?_
  rw [← hnumbers, List.pairwise_map] at hlt
  exact hlt

end Numbers

namespace Numbered

theorem sublist (h : s.Numbered) (horder : s.InOrder) :
    s.events.redispatched.Sublist s.aside :=
  sublist_of_increasing h.handed horder

theorem length_waiting (h : s.Numbered) :
    s.waiting.length = s.events.queue.ring.popped.length := by
  simpa using congrArg List.length h.waiting

theorem lt_length (h : s.Numbered) {i : Nat} (hi : i ∈ s.handed ++ s.waiting) :
    i < s.aside.length := by
  obtain hi | hi := List.mem_append.mp hi
  · exact lt_length_of_map_getElem? h.handed hi
  · exact lt_length_of_map_getElem? h.waiting hi

theorem putAside (h : s.Numbered)
    (hpopped : s.events.queue.ring.popped <+: events.queue.ring.popped)
    (hredispatched : events.redispatched = s.events.redispatched) :
    (s.putAside events).Numbered := by
  obtain ⟨new, hnew⟩ := hpopped
  have hdrop : events.queue.ring.popped.drop s.events.queue.ring.popped.length = new := by
    rw [← hnew, List.drop_left]
  refine ⟨?_, ?_⟩
  · simp only [Deferral.putAside, hdrop]
    rw [List.map_append, map_getElem?_append h.waiting, map_getElem?_range', ← hnew,
      List.map_append]
  · rw [Deferral.putAside, hredispatched]
    exact map_getElem?_append h.handed _

/-- The event that `pop_already_popped` returns is the last one, and so is its number. -/
theorem handOver_eq (h : s.Numbered) (events : EventSystem) :
    s.handOver events = { s with
      events
      waiting := s.waiting.dropLast
      handed := s.handed ++ s.waiting.getLast?.toList } := by
  have hwaiting := h.waiting
  obtain hnil | ⟨rest, event, hlast⟩ := List.eq_nil_or_concat' s.events.queue.ring.popped
  · have hnone : s.waiting = [] := by simpa [hnil] using hwaiting
    simp [Deferral.handOver, popAlreadyPopped, hnil, hnone]
  · obtain hnone | ⟨numbers, number, hnumber⟩ := List.eq_nil_or_concat' s.waiting
    · simp [hnone, hlast] at hwaiting
    · rw [hlast, hnumber, List.map_append, List.map_append] at hwaiting
      have hfound : s.aside[number]? = some event := by
        simpa using (List.append_inj' hwaiting rfl).2
      simp [Deferral.handOver, popAlreadyPopped, hlast, hnumber, hfound]

theorem handOver (h : s.Numbered)
    (hpopped : events.queue.ring.popped = s.events.queue.ring.popped.dropLast)
    (hredispatched : events.redispatched =
      s.events.redispatched ++ s.events.queue.ring.popped.getLast?.toList) :
    (s.handOver events).Numbered := by
  rw [h.handOver_eq]
  refine ⟨?_, ?_⟩
  · simp only [hpopped]
    rw [List.map_dropLast, h.waiting, List.map_dropLast]
  · have hlast : s.waiting.getLast?.toList.map (s.aside[·]?) =
        s.events.queue.ring.popped.getLast?.toList.map some := by
      have hlast := congrArg List.getLast? h.waiting
      rw [List.getLast?_map, List.getLast?_map] at hlast
      rw [← Option.toList_map, hlast, Option.toList_map]
    simp only [hredispatched]
    rw [List.map_append, List.map_append, h.handed, hlast]

end Numbered

/-- A call at the ring appends to `popped`, if it changes it at all. -/
theorem popped_prefix_afterCall (s : EventSystem) (call : Call) :
    s.queue.ring.popped <+: (s.afterCall parse call).queue.ring.popped := by
  have hqueue : (s.afterCall parse call).queue = (run parse call s.queue).2 := rfl
  rw [hqueue]
  cases hfront : s.queue.pendingEvent with
  | false =>
      rw [run_of_not_pendingEvent call hfront]
  | true =>
      have hpopped : (s.queue.pop parse).2.ring.popped = _ := pop_popped s.queue
      obtain ⟨event, q, hpop⟩ : ∃ event q, s.queue.pop parse = (event, q) := ⟨_, _, rfl⟩
      rw [hpop] at hpopped
      rw [← hpopped]
      cases event with
      | none =>
          obtain h | h := run_of_none call hfront hpop
          · rw [h]
          · rw [h]
      | some event =>
          rw [run_of_some call hfront hpop]
          cases place call event with
          | returned => exact List.prefix_refl _
          | dispatched => exact List.prefix_refl _
          | aside => exact List.prefix_append _ _

theorem popped_afterOnceReceived (s : EventSystem) :
    s.afterOnceReceived.queue.ring.popped = s.queue.ring.popped.dropLast ∧
      s.afterOnceReceived.redispatched =
        s.redispatched ++ s.queue.ring.popped.getLast?.toList := by
  simp only [EventSystem.afterOnceReceived, EventQueue.processOnceReceived, popAlreadyPopped]
  cases s.queue.ring.popped.getLast? with
  | none => simp
  | some event => simp

theorem Numbered.step {label : EventSystem.Label} (h : s.Numbered) (hstep : Step parse s label t) :
    t.Numbered := by
  obtain ⟨hstep⟩ := hstep
  cases hstep with
  | post trb room => exact h.putAside (List.prefix_refl _) rfl
  | call call running => exact h.putAside (popped_prefix_afterCall _ call) rfl
  | processOnceReceived running =>
      exact h.handOver (popped_afterOnceReceived _).1 (popped_afterOnceReceived _).2
  | putBack running given => exact h.putAside (List.prefix_append _ _) rfl

theorem numbered_of_reachable (hs : (system parse seg).Reachable s) : s.Numbered := by
  apply hs.invariant
  · intro s h
    refine ⟨?_, ?_⟩
    · rw [h.waiting, h.events.fresh]
      rfl
    · rw [h.handed, h.events.fresh]
      rfl
  · exact fun s label t _ hs hstep => hs.step hstep

/-- New numbers are greater than all others. -/
theorem NoneOvertaken.putAside (h : s.NoneOvertaken) (hnumbered : s.Numbered) :
    (s.putAside events).NoneOvertaken := by
  rw [NoneOvertaken, Deferral.putAside, ← List.append_assoc]
  refine List.pairwise_append.mpr ⟨h, List.pairwise_lt_range', ?_⟩
  intro i hi j hj
  exact (hnumbered.lt_length hi).trans_le (List.left_le_of_mem_range' hj)

/-- The last of several events overtakes the others; a single one does not. -/
theorem noneOvertaken_handOver_iff (hnumbered : s.Numbered) (h : s.NoneOvertaken) :
    (s.handOver events).NoneOvertaken ↔ s.waiting.length ≤ 1 := by
  rw [hnumbered.handOver_eq]
  rw [NoneOvertaken] at h
  obtain hnil | ⟨rest, i, hlast⟩ := List.eq_nil_or_concat' s.waiting
  · simpa [NoneOvertaken, hnil] using h
  · rw [hlast] at h
    obtain ⟨hhanded, hwaiting, hcross⟩ := List.pairwise_append.mp h
    have hrest : ∀ j ∈ rest, j < i := fun j hj =>
      (List.pairwise_append.mp hwaiting).2.2 j hj i (List.mem_singleton_self i)
    simp only [NoneOvertaken, hlast, List.getLast?_concat, List.dropLast_concat,
      Option.toList_some, List.length_append, List.length_singleton]
    constructor
    · intro hnone
      obtain _ | ⟨j, rest⟩ := rest
      · exact le_rfl
      · have hlt := (List.pairwise_append.mp hnone).2.2 i (by simp) j (by simp)
        exact absurd hlt (hrest j (by simp)).not_gt
    · intro hone
      obtain rfl : rest = [] := List.length_eq_zero_iff.mp (by omega)
      simpa using h

/-- In a run in which no call of `process_once_received` finds more than one event, the events
are handed over in order. In any run, from a state where none has been overtaken, such a call
overtakes none exactly if it finds at most one. The numbers are those of the events in every
state of every run. -/
theorem deferred_in_order (parse : TrbRaw → Option Event) (seg : Segment) :
    (∀ s, (system parse seg).Reachable s → s.Numbered) ∧
    (∀ s, ((system parse seg).guard OneWaits).Reachable s →
      s.InOrder ∧ s.events.redispatched.Sublist s.aside) ∧
    (∀ s t, (system parse seg).Reachable s → s.NoneOvertaken →
      Step parse s .processOnceReceived t →
      (t.NoneOvertaken ↔ s.events.queue.ring.popped.length ≤ 1)) := by
  refine ⟨fun s hs => numbered_of_reachable hs, ?_, ?_⟩
  · intro s hs
    have hnone : s.NoneOvertaken := by
      refine hs.invariant ?_ ?_
      · intro s h
        simp [NoneOvertaken, h.waiting, h.handed]
      · rintro s label _ hs hnone ⟨hone, ⟨hstep⟩⟩
        have hnumbered := numbered_of_reachable hs.of_guard
        cases label with
        | processOnceReceived =>
            refine (noneOvertaken_handOver_iff hnumbered hnone).mpr ?_
            rw [hnumbered.length_waiting]
            exact hone
        | post trb => exact hnone.putAside hnumbered
        | call call => exact hnone.putAside hnumbered
        | putBack event => exact hnone.putAside hnumbered
    exact ⟨hnone.inOrder, (numbered_of_reachable hs.of_guard).sublist hnone.inOrder⟩
  · rintro s _ hs hnone ⟨hstep⟩
    have hnumbered := numbered_of_reachable hs
    rw [← hnumbered.length_waiting]
    exact noneOvertaken_handOver_iff hnumbered hnone

section TwoPorts

/-- A fresh ring of four TRBs. -/
def idle : Deferral :=
  ⟨⟨⟨⟨⟨0x1000, 4, Nat.succ_pos 3⟩, [], true⟩, 0x1000, fun _ => .zero⟩, 0, true, false,
    [], [], [], [], [], []⟩, [], [], []⟩

theorem idle_initial : Initial ⟨0x1000, 4, by decide⟩ idle :=
  ⟨⟨fun _ _ => TrbRaw.cycleBit_zero, rfl⟩, rfl, rfl, rfl⟩

/-- The status of a port changes while the device in slot 1 is being initialised, whose future
finds the event. -/
def statusChange (s : Deferral) (portId : UInt32) : Deferral :=
  let trb : TrbRaw := ⟨#v[portId <<< 24, 0, 0x01000000, 0x8800]⟩
  let posted := s.after (s.events.post trb) (.post trb)
  posted.after (posted.events.afterCall Event.xhci (.poll (.transfer (.slotId 1))))
    (.call (.poll (.transfer (.slotId 1))))

def onceReceived (s : Deferral) : Deferral :=
  s.after s.events.afterOnceReceived .processOnceReceived

section Runs

variable {ok : Deferral → EventSystem.Label → Prop}
  (hs : ((system Event.xhci seg).guard ok).Reachable s) (running : s.events.halted = false)

include hs running

theorem statusChange_reachable (portId : UInt32)
    (hok : ∀ s label, label ≠ .processOnceReceived → ok s label)
    (room : s.events.posted.length < s.events.taken.length + s.events.queue.ring.segment.size) :
    ((system Event.xhci seg).guard ok).Reachable (s.statusChange portId) := by
  have hpost := hs.step (i := .post ⟨#v[portId <<< 24, 0, 0x01000000, 0x8800]⟩)
    ⟨hok _ _ nofun, ⟨.post _ room⟩⟩
  exact hpost.step (i := .call (.poll (.transfer (.slotId 1))))
    ⟨hok _ _ nofun, ⟨.call _ running⟩⟩

theorem onceReceived_reachable (hok : ok s .processOnceReceived) :
    ((system Event.xhci seg).guard ok).Reachable s.onceReceived :=
  .step hs ⟨hok, ⟨.processOnceReceived running⟩⟩

end Runs

/-- Each event is processed before the next one is put aside. -/
theorem deferred_in_order_one_by_one :
    let s := ((idle.statusChange 1).onceReceived.statusChange 2).onceReceived
    s.events.redispatched = [.portStatusChange ⟨1⟩, .portStatusChange ⟨2⟩] ∧
      s.InOrder ∧ s.events.redispatched.Sublist s.aside := by
  intro s
  have hok : ∀ s label, label ≠ .processOnceReceived → OneWaits s label := by
    intro s label hlabel
    cases label with
    | processOnceReceived => exact absurd rfl hlabel
    | post trb | call call | putBack event => trivial
  have hone (s : Deferral) (h : s.events.queue.ring.popped.length ≤ 1) :
      s.OneWaits .processOnceReceived := h
  have h₁ := statusChange_reachable (.init idle_initial) rfl 1 hok (by decide)
  have h₂ := onceReceived_reachable h₁ rfl (hone _ (by decide))
  have h₃ := statusChange_reachable h₂ rfl 2 hok (by decide)
  have h₄ := onceReceived_reachable h₃ rfl (hone _ (by decide))
  exact ⟨by decide, (deferred_in_order Event.xhci _).2.1 s h₄⟩

/-- Two events are put aside before the first one is processed. They are handed over in the
opposite order. -/
theorem deferred_not_in_order :
    ∃ s, (system Event.xhci ⟨0x1000, 4, by decide⟩).Reachable s ∧
      s.aside = [.portStatusChange ⟨1⟩, .portStatusChange ⟨2⟩] ∧
      s.events.redispatched = [.portStatusChange ⟨2⟩, .portStatusChange ⟨1⟩] ∧
      ¬ s.InOrder ∧ ¬ s.events.redispatched.Sublist s.aside := by
  have hok : ∀ (_ : Deferral) label, label ≠ EventSystem.Label.processOnceReceived → True :=
    fun _ _ _ => trivial
  have h₁ := statusChange_reachable (.init idle_initial) rfl 1 hok (by decide)
  have h₂ := statusChange_reachable h₁ rfl 2 hok (by decide)
  have h₃ := onceReceived_reachable h₂ rfl trivial
  have h₄ := onceReceived_reachable h₃ rfl trivial
  refine ⟨_, h₄.of_guard, by decide, by decide, ?_, by decide⟩
  have hhanded :
      ((idle.statusChange 1).statusChange 2).onceReceived.onceReceived.handed = [1, 0] := by
    decide
  rw [InOrder, hhanded]
  decide

end TwoPorts

end Deferral

end LemolaOs.Xhci
