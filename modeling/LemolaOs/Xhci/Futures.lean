import LemolaOs.Xhci.EventDelivery

/-!
# Several futures at one event ring

A future looks only at the TRB under ERDP. If that is an event for somebody else,
the future puts it in `popped`, where no future looks. `Polling` is the event
ring with a set of futures that have not completed yet, polled in any order
between the posts of the controller.

The wait targets are pairwise disjoint, so an event has at most one waiter. It
reaches its waiter as long as no poll finds the event of another live future at
the front of the ring, and each poll that does loses it.
-/

namespace LemolaOs.Xhci

open EventQueue

/-- The event a call would take off the ring. -/
def EventQueue.front (parse : TrbRaw → Option Event) (q : EventQueue) : Option Event :=
  if q.pendingEvent then parse (q.memory q.erdp) else none

/-- No event is awaited by both. -/
def Future.Disjoint (f g : Future) : Prop := ∀ event, f.waitsFor event → ¬ g.waitsFor event

instance : Std.Symm Future.Disjoint := ⟨fun _ _ h event hg hf => h event hf hg⟩

/-- The event ring and the futures that wait at it. -/
structure Polling where
  events : EventSystem
  live : List Future
  returned : List (Future × Event)

namespace Polling

inductive Label where
  | post (trb : TrbRaw)
  | poll (future : Future)

variable (parse : TrbRaw → Option Event)

/-- A future that returns an event is done. -/
def afterPoll (s : Polling) (f : Future) : Polling :=
  let events := s.events.afterCall parse (.poll f)
  match (run parse (.poll f) s.events.queue).1 with
  | .ready event => ⟨events, s.live.erase f, s.returned ++ [(f, event)]⟩
  | _ => ⟨events, s.live, s.returned⟩

inductive Step : Polling → Label → Polling → Prop where
  | post {s : Polling} (trb : TrbRaw)
      (room : s.events.posted.length < s.events.taken.length + s.events.queue.ring.segment.size) :
      Step s (.post trb) { s with events := s.events.post trb }
  | poll {s : Polling} {f : Future} (live : f ∈ s.live) (running : s.events.halted = false) :
      Step s (.poll f) (s.afterPoll parse f)

structure Initial (seg : Segment) (futures : List Future) (s : Polling) : Prop where
  events : EventSystem.Initial seg s.events
  live : s.live = futures
  returned : s.returned = []

/-- Every interleaving of posts with polls of the given futures. -/
def system (seg : Segment) (futures : List Future) : System Polling Label where
  init := Initial seg futures
  step := Step parse

/-- No event in `popped` is awaited by a live future, and what was returned was returned to
its waiter. Events stay in `popped` and futures do not come back to life, so this fails
right after the poll that moves away the event of a live future. -/
structure NoneStolen (s : Polling) : Prop where
  aside : ∀ event ∈ s.events.queue.ring.popped, ∀ f ∈ s.live, f.waitsFor event = false
  returned : ∀ p ∈ s.returned, p.1.waitsFor p.2 = true

/-- A poll does not find the event of another live future at the front of the ring. -/
def Alone (s : Polling) : Label → Prop
  | .post _ => True
  | .poll f => ∀ event, s.events.queue.front parse = some event →
      ∀ g ∈ s.live, g ≠ f → g.waitsFor event = false

variable {parse} {s : Polling} {f : Future}

variable (parse) in
/-- All that a poll does with `popped`, the live futures and their results. -/
theorem afterPoll_cases (s : Polling) (f : Future) :
    (s.events.queue.front parse = none ∧
      (s.afterPoll parse f).events.queue.ring.popped = s.events.queue.ring.popped ∧
      (s.afterPoll parse f).live = s.live ∧ (s.afterPoll parse f).returned = s.returned) ∨
    (∃ event, s.events.queue.front parse = some event ∧ f.waitsFor event = true ∧
      (s.afterPoll parse f).events.queue.ring.popped = s.events.queue.ring.popped ∧
      (s.afterPoll parse f).live = s.live.erase f ∧
      (s.afterPoll parse f).returned = s.returned ++ [(f, event)]) ∨
    (∃ event, s.events.queue.front parse = some event ∧ f.waitsFor event = false ∧
      (s.afterPoll parse f).events.queue.ring.popped = s.events.queue.ring.popped ++ [event] ∧
      (s.afterPoll parse f).live = s.live ∧ (s.afterPoll parse f).returned = s.returned) := by
  have hpopped : (s.events.queue.pop parse).2.ring.popped = _ := pop_popped _
  have hevent : (s.events.queue.pop parse).1 = _ := pop_event _
  cases hfront : s.events.queue.pendingEvent with
  | false =>
      left
      simp [afterPoll, EventSystem.afterCall, run_of_not_pendingEvent _ hfront, front, hfront]
  | true =>
      obtain ⟨popped, q, hpop⟩ : ∃ popped q, s.events.queue.pop parse = (popped, q) :=
        ⟨_, _, rfl⟩
      rw [hpop] at hpopped hevent
      simp only [front, hfront, if_true, ← hevent]
      cases popped with
      | none =>
          left
          obtain h | h := run_of_none (.poll f) hfront hpop
          · simpa [afterPoll, EventSystem.afterCall, h] using hpopped
          · simpa [afterPoll, EventSystem.afterCall, h] using hpopped
      | some event =>
          right
          have h := run_of_some (.poll f) hfront hpop
          cases hmine : f.waitsFor event with
          | true =>
              left
              rw [place, if_pos hmine, settle] at h
              refine ⟨event, rfl, hmine, ?_⟩
              simpa [afterPoll, EventSystem.afterCall, h] using hpopped
          | false =>
              right
              rw [place, if_neg (by simp [hmine]), settle] at h
              refine ⟨event, rfl, hmine, ?_⟩
              simpa [afterPoll, EventSystem.afterCall, h, push] using hpopped

/-- A poll that is alone steals nothing. -/
theorem NoneStolen.poll (h : s.NoneStolen) (alone : s.Alone parse (.poll f)) :
    (s.afterPoll parse f).NoneStolen := by
  obtain ⟨-, hpopped, hlive, hreturned⟩ | ⟨event, -, hmine, hpopped, hlive, hreturned⟩ |
    ⟨event, hfront, hother, hpopped, hlive, hreturned⟩ := afterPoll_cases parse s f
  · refine ⟨?_, ?_⟩
    · rw [hpopped, hlive]
      exact h.aside
    · rw [hreturned]
      exact h.returned
  · refine ⟨?_, ?_⟩
    · rw [hpopped, hlive]
      intro e he g hg
      exact h.aside e he g (List.mem_of_mem_erase hg)
    · rw [hreturned]
      intro p hp
      rw [List.mem_append, List.mem_singleton] at hp
      obtain hp | rfl := hp
      · exact h.returned p hp
      · exact hmine
  · refine ⟨?_, ?_⟩
    · rw [hpopped, hlive]
      intro e he g hg
      rw [List.mem_append, List.mem_singleton] at he
      obtain he | rfl := he
      · exact h.aside e he g hg
      · obtain rfl | hne := eq_or_ne g f
        · exact hother
        · exact alone e hfront g hg hne
    · rw [hreturned]
      exact h.returned

/-- A poll that is not alone steals the event it finds. -/
theorem not_noneStolen_of_not_alone (disjoint : s.live.Pairwise Future.Disjoint)
    (hf : f ∈ s.live) (alone : ¬ s.Alone parse (.poll f)) :
    ¬ (s.afterPoll parse f).NoneStolen := by
  intro h
  simp only [Alone, not_forall] at alone
  obtain ⟨event, hfront, g, hg, hne, hwaits⟩ := alone
  rw [Bool.not_eq_false] at hwaits
  have hfg : f.Disjoint g := disjoint.forall hf hg hne.symm
  obtain ⟨hnone, -⟩ | ⟨e, he, hmine, -⟩ | ⟨e, he, hother, hpopped, hlive, -⟩ :=
    afterPoll_cases parse s f
  · simp [hnone] at hfront
  · obtain rfl := Option.some.inj (hfront.symm.trans he)
    exact hfg event hmine hwaits
  · obtain rfl := Option.some.inj (hfront.symm.trans he)
    have hstolen := h.aside event (by simp [hpopped]) g (by rwa [hlive])
    simp [hwaits] at hstolen

theorem afterPoll_live_sublist (s : Polling) (f : Future) :
    (s.afterPoll parse f).live.Sublist s.live := by
  rw [afterPoll]
  split
  · exact List.erase_sublist
  · exact List.Sublist.refl _

theorem disjoint_of_reachable {seg : Segment} {futures : List Future}
    (disjoint : futures.Pairwise Future.Disjoint) (hs : (system parse seg futures).Reachable s) :
    s.live.Pairwise Future.Disjoint := by
  apply hs.invariant
  · intro s h
    rw [h.live]
    exact disjoint
  · intro s i t _ hlive h
    cases h with
    | post trb room => exact hlive
    | poll live running => exact hlive.sublist (afterPoll_live_sublist s _)

/-- In a run in which every poll is alone no event is stolen. In any run, from a state
where none has been stolen, a poll steals nothing exactly if it is alone. -/
theorem none_stolen_iff_alone (parse : TrbRaw → Option Event) (seg : Segment)
    (futures : List Future) (disjoint : futures.Pairwise Future.Disjoint) :
    (∀ s, ((system parse seg futures).guard (Alone parse)).Reachable s → s.NoneStolen) ∧
    (∀ s f t, (system parse seg futures).Reachable s → s.NoneStolen →
      Step parse s (.poll f) t → (t.NoneStolen ↔ s.Alone parse (.poll f))) := by
  refine ⟨?_, ?_⟩
  · intro s hs
    apply hs.invariant
    · intro s h
      refine ⟨?_, by simp [h.returned]⟩
      rw [h.events.fresh]
      simp
    · intro s i t _ hnone ⟨alone, h⟩
      cases h with
      | post trb room => exact ⟨hnone.aside, hnone.returned⟩
      | poll live running => exact hnone.poll alone
  · intro s f t hs hnone h
    cases h with
    | poll live running =>
        refine ⟨?_, hnone.poll⟩
        intro ht
        by_contra halone
        exact not_noneStolen_of_not_alone (disjoint_of_reachable disjoint hs) live halone ht

section TwoCommands

/-- Two futures for two commands on a fresh ring. -/
def twoCommands : Polling :=
  ⟨⟨⟨⟨⟨0x1000, 4, four_pos⟩, [], true⟩, 0x1000, fun _ => .zero⟩, 0, true, false,
    [], [], [], [], [], []⟩, [.command 0x2000, .command 0x2010], []⟩

/-- The completion of the second command. -/
def secondCompletion : TrbRaw := ⟨#v[0x2010, 0, 0x01000000, 0x8400]⟩

theorem twoCommands_disjoint : twoCommands.live.Pairwise Future.Disjoint := by
  simp only [twoCommands, List.pairwise_cons, List.mem_singleton, List.not_mem_nil]
  refine ⟨?_, by simp⟩
  rintro g rfl event hfirst hsecond
  cases event <;> simp_all [Future.waitsFor]

theorem twoCommands_initial :
    Initial ⟨0x1000, 4, by decide⟩ twoCommands.live twoCommands :=
  ⟨⟨fun _ _ => TrbRaw.cycleBit_zero, rfl⟩, rfl, rfl⟩

/-- The completion arrives and its waiter is polled first. -/
theorem none_stolen_iff_alone_second :
    let s : Polling := { twoCommands with events := twoCommands.events.post secondCompletion }
    (s.afterPoll Event.xhci (.command 0x2010)).NoneStolen := by
  intro s
  have hs : ((system Event.xhci ⟨0x1000, 4, by decide⟩ twoCommands.live).guard
      (Alone Event.xhci)).Reachable s :=
    .step (i := .post secondCompletion) (.init twoCommands_initial)
      ⟨trivial, .post _ (by decide)⟩
  have hfront : s.events.queue.front Event.xhci =
      some (.commandCompletion ⟨0x2010, 0, 1⟩) := by decide
  apply (none_stolen_iff_alone Event.xhci _ _ twoCommands_disjoint).1
  refine .step hs ⟨?_, .poll (by decide) rfl⟩
  intro event hevent g hg hne
  obtain rfl := Option.some.inj (hfront.symm.trans hevent)
  simp only [s, twoCommands, List.mem_cons, List.not_mem_nil, or_false] at hg
  obtain rfl | rfl := hg
  · rfl
  · exact absurd rfl hne

/-- The completion arrives and the other future is polled first. -/
theorem completion_stolen :
    ¬ ∀ (futures : List Future), futures.Pairwise Future.Disjoint →
      ∀ s, (system Event.xhci ⟨0x1000, 4, by decide⟩ futures).Reachable s → s.NoneStolen := by
  intro h
  have hstolen := h _ twoCommands_disjoint
    (afterPoll Event.xhci
      { twoCommands with events := twoCommands.events.post secondCompletion } (.command 0x2000))
    (.step (.step (.init twoCommands_initial) (.post _ (by decide))) (.poll (by decide) rfl))
  have hmoved := hstolen.aside (.commandCompletion ⟨0x2010, 0, 1⟩) (by decide)
    (.command 0x2010) (by decide)
  exact absurd hmoved (by decide)

end TwoCommands

end Polling

end LemolaOs.Xhci
