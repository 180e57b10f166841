import LemolaOs.Xhci.InterruptProtocol

/-!
# Two windows in which the controller and a flip meet

All slots of an interrupt ring are always posted, so the driver is a full lap ahead
of the controller. Two of its steps come too early for that. Returning slot `m - 1`
rewrites the Link TRB for the next lap, also when the controller has executed the
slot and not yet followed the Link TRB: it then waits at a Link TRB of the wrong
cycle bit and never moves again. And a slot is returned before its data buffer is
handed to the callback, so a controller that has executed all other slots may write
the next report into the buffer first.

The results are about the histories in which the controller is out of the window:
`linkFollowed` and `reportTaken`.
-/

namespace LemolaOs.Xhci.InterruptRing

variable {links : LinkTrb} {normals : NormalTrb links} {buffer : TrbBuffer} {alloc : Nat → UInt64}
  {bufSize m : Nat} {s : InterruptRing}

section Link

/-- In front of the Link TRB the controller may follow it, or the flip that makes it so is
in progress. -/
def AtLink (m : Nat) (s : InterruptRing) : Prop :=
  s.dequeue = m →
    (s.memory m).cycleBit = s.ccs ∨ s.pending ≠ [] ∧ (s.memory (m - 1)).cycleBit = s.ccs

/-- Unless a Link TRB is in the making, the last slot carries the bit of the TRB before it. -/
theorem Phase.link_cases {memory : Nat → TrbRaw} {pending : List WordWrite} {cycleBit : Bool}
    (h : Phase links buffer m memory pending cycleBit) :
    (memory m).cycleBit = (memory (m - 1)).cycleBit ∨
      ∃ j < 4, pending = (TrbRaw.writeInOrder m
        ((links.backTo buffer.ptr).setCycleBit (memory (m - 1)).cycleBit)).drop j := by
  cases h with
  | idle _ link _ => exact .inl link
  | toggle _ _ _ link _ => exact .inl link
  | toggleLast _ link _ => exact .inl link
  | link j hj left _ _ => exact .inr ⟨j, hj, left⟩

/-- In front of the Link TRB a flip that is to toggle a slot has not touched the bits. -/
theorem AtLink.link_eq (hat : AtLink m s) (hlast : s.dequeue = m)
    (hlink : (s.memory m).cycleBit = (s.memory (m - 1)).cycleBit) :
    (s.memory m).cycleBit = s.ccs := by
  obtain hbit | ⟨-, hbit⟩ := hat hlast
  · exact hbit
  · exact hlink.trans hbit

/-- A word of the Link TRB. The condition keeps its last word back while the controller may
follow the old one. -/
theorem AtLink.writeLink (inv : Inv links normals buffer alloc bufSize m s)
    (hlen : buffer.len = m + 1) (hm : 0 < m) (hat : AtLink m s)
    (hok : s.linkFollowed .write = true) {j : Nat} (hj : j < 4)
    (left : s.pending = (TrbRaw.writeInOrder m
      ((links.backTo buffer.ptr).setCycleBit (s.memory (m - 1)).cycleBit)).drop j)
    (link : (s.memory m).cycleBit = !(s.memory (m - 1)).cycleBit)
    (next : s.ring.cycleBit = !(s.memory (m - 1)).cycleBit) :
    AtLink m
      { s with
        memory := WordWrite.apply ⟨m, ⟨j, hj⟩, ((links.backTo buffer.ptr).setCycleBit
          (s.memory (m - 1)).cycleBit).words[j]⟩ s.memory
        pending := (TrbRaw.writeInOrder m ((links.backTo buffer.ptr).setCycleBit
          (s.memory (m - 1)).cycleBit)).drop (j + 1) } := by
  intro hlast
  have hlast : s.dequeue = m := hlast
  have hfront : m - 1 ≠ m := by omega
  simp only [(inv.writeLink hm hj rfl left link next).1, Function.update_self,
    TrbRaw.cycleBit_setCycleBit, Function.update_of_ne hfront]
  by_cases hj3 : j = 3
  · -- the last word
    subst hj3
    have hrewrites : s.rewritesLink = true := by
      simp [rewritesLink, left, writeInOrder_drop, inv.sameBuffer, hlen]
    have hwaits : (s.memory m).cycleBit ≠ s.ccs := by
      rw [linkFollowed, hrewrites, atLink, inv.sameBuffer, hlen, hlast] at hok
      simpa using hok
    obtain hbit | ⟨-, hbit⟩ := hat hlast
    · exact absurd hbit hwaits
    · exact .inl (by simpa using hbit)
  · rw [if_neg hj3, ← link]
    obtain hbit | ⟨-, hbit⟩ := hat hlast
    · exact .inl hbit
    · exact .inr ⟨by rw [writeInOrder_drop (by omega)]; exact List.cons_ne_nil _ _, hbit⟩

theorem AtLink.step (inv : Inv links normals buffer alloc bufSize m s) (hlen : buffer.len = m + 1)
    (hm : 0 < m) (hat : AtLink m s) {label : Label} {t : InterruptRing}
    (hok : s.linkFollowed label = true) (h : Step links normals bufSize s label t) :
    AtLink m t := by
  cases h with
  | execute owned notLink size =>
      intro hlast
      have hslot : s.dequeue = m - 1 := by
        simp only at hlast
        omega
      rw [hslot] at owned
      obtain hlink | ⟨j, hj, left⟩ := inv.phase.link_cases
      · exact .inl (hlink.trans owned)
      · exact .inr ⟨by simp [left, writeInOrder_drop hj], owned⟩
  | follow owned link =>
      intro hzero
      exact absurd hzero hm.ne
  | process idle free taken h =>
      intro hlast
      obtain hlink | ⟨hbusy, -⟩ := hat hlast
      · exact .inl hlink
      · exact absurd idle hbusy
  | @write d rest h =>
      intro hlast
      have hlast : s.dequeue = m := hlast
      cases inv.phase with
      | idle done link next => simp [done] at h
      | toggle i hi left link next =>
          have hother : m ≠ i := by omega
          rw [left, List.cons.injEq] at h
          obtain ⟨rfl, rfl⟩ := h
          refine .inl ?_
          simp only [TrbRaw.toggleCycleBit_apply, Function.update_of_ne hother]
          exact hat.link_eq hlast link
      | toggleLast left link next =>
          have hother : m ≠ m - 1 := by omega
          rw [left, List.cons.injEq] at h
          obtain ⟨rfl, rfl⟩ := h
          refine .inl ?_
          simp only [TrbRaw.toggleCycleBit_apply, Function.update_of_ne hother]
          exact hat.link_eq hlast link
      | link j hj left link next =>
          rw [left, writeInOrder_drop hj, List.cons.injEq] at h
          obtain ⟨rfl, rfl⟩ := h
          exact hat.writeLink inv hlen hm hok hj left link next hlast
  | deliver idle h => exact hat

/-- While the Link TRB is rewritten only when the controller is not about to follow it, a
controller whose events have all been processed can go on: it owns the TRB at its dequeue
index. -/
theorem interrupt_ring_goes_on (links : LinkTrb) (normals : NormalTrb links) (buffer : TrbBuffer)
    (hlen : 2 ≤ buffer.len) (alloc : Nat → UInt64) (bufSize : Nat) (s : InterruptRing)
    (hs : ((system links normals buffer alloc bufSize).guard
      fun s label => s.linkFollowed label).Reachable s)
    (hposted : s.posted = []) (hpending : s.pending = []) :
    (s.memory s.dequeue).cycleBit = s.ccs := by
  obtain ⟨m, hm⟩ := Nat.exists_eq_add_of_le' (by omega : 1 ≤ buffer.len)
  have hpos : 0 < m := by omega
  have inv := Inv.of_reachable hm hpos hs.of_guard
  have hat : AtLink m s := by
    refine hs.invariant ?_ ?_
    · rintro s ⟨writes, ring, -, rfl⟩ hzero
      exact absurd hzero hpos.ne
    · intro s label t hs hat ⟨hok, h⟩
      exact hat.step (Inv.of_reachable hm hpos hs.of_guard) hm hpos hok h
  obtain hlast | hlt := Nat.eq_or_lt_of_le inv.dequeue_le
  · obtain hbit | ⟨hbusy, -⟩ := hat hlast
    · rwa [hlast]
    · exact absurd hpending hbusy
  · refine (inv.recycling.bit_eq_iff hlt).mpr ?_
    simp [hposted, hpending, toggles]

/-- One report of the mouse and its slot returned, with the Link TRB followed in between. -/
theorem interrupt_ring_goes_on_mouse :
    ∃ s, ((system .xhci .xhci mouseBuffer mousePages 3).guard
        fun s label => s.linkFollowed label).Reachable s ∧
      s.executed = [0] ∧ s.posted = [] ∧ s.pending = [] ∧
      (s.memory s.dequeue).cycleBit = s.ccs := by
  have hrun : (run .xhci .xhci mouseBuffer mousePages 3 linkFollowed
      [.execute [0, 1, 1], .follow, .process firstReport, .write, .write, .write, .write,
        .write]).any
        (fun s => s.executed = [0] ∧ s.posted = [] ∧ s.pending = []) = true := by
    decide +kernel
  obtain ⟨s, hs, hstate⟩ := (Option.any_eq_true _ _).mp hrun
  obtain ⟨hexecuted, hposted, hpending⟩ := of_decide_eq_true hstate
  have hreach := reachable_of_run hs
  exact ⟨s, hreach, hexecuted, hposted, hpending,
    interrupt_ring_goes_on .xhci .xhci mouseBuffer (by decide) mousePages 3 s hreach hposted
      hpending⟩

/-- A report whose slot is returned before the controller follows the Link TRB:
everything is processed and the controller waits at a Link TRB it does not own. -/
theorem rewritten_link_stops_ring :
    ∃ s, (system .xhci .xhci mouseBuffer mousePages 3).Reachable s ∧
      s.posted = [] ∧ s.pending = [] ∧ s.delivering = none ∧
      (s.memory s.dequeue).cycleBit ≠ s.ccs := by
  have hrun : (run .xhci .xhci mouseBuffer mousePages 3 (fun _ _ => true)
      [.execute [0, 1, 1], .process firstReport, .write, .write, .write, .write, .write,
        .deliver]).any
        (fun s => s.posted = [] ∧ s.pending = [] ∧ s.delivering = none ∧
          (s.memory s.dequeue).cycleBit ≠ s.ccs) = true := by
    decide +kernel
  obtain ⟨s, hs, hstate⟩ := (Option.any_eq_true _ _).mp hrun
  exact ⟨s, (reachable_of_run hs).of_guard, of_decide_eq_true hstate⟩

end Link

section Reports

/-- The data buffers of the events that are still to be handed over hold their reports. -/
structure Held (normals : NormalTrb links) (buffer : TrbBuffer) (alloc : Nat → UInt64)
    (bufSize m : Nat) (s : InterruptRing) : Prop where
  posted : ∀ event ∈ s.posted,
    readBytes s.bytes (alloc (slotOf buffer event.trbPointer)).toNat bufSize = event.bytes
  delivering : ∀ event trb, s.delivering = some (event, trb) →
    slotOf buffer event.trbPointer < m ∧
      normals.dataBufferPointer trb = alloc (slotOf buffer event.trbPointer) ∧
      readBytes s.bytes (alloc (slotOf buffer event.trbPointer)).toNat bufSize = event.bytes
  delivered : ∀ event bytes, (event, bytes) ∈ s.delivered → bytes = event.bytes

/-- A report in a slot leaves the other data buffers as they are. -/
theorem readBytes_execute (inv : Inv links normals buffer alloc bufSize m s)
    (hapart : Apart alloc bufSize m) (notLink : links.isLink (s.memory s.dequeue) = false)
    {bytes : List UInt8} (size : bytes.length = bufSize) {i : Nat} (hi : i < m)
    (hne : i ≠ s.dequeue) :
    readBytes (writeBytes s.bytes (alloc s.dequeue).toNat bytes) (alloc i).toNat bufSize =
      readBytes s.bytes (alloc i).toNat bufSize := by
  refine readBytes_writeBytes_apart ?_
  rw [size]
  exact hapart i hi s.dequeue (inv.dequeue_lt notLink) hne

/-- A slot that the controller owns has no event in the ring. -/
theorem slotOf_ne_dequeue (inv : Inv links normals buffer alloc bufSize m s)
    (owned : (s.memory s.dequeue).cycleBit = s.ccs)
    (notLink : links.isLink (s.memory s.dequeue) = false) {event : Report}
    (hevent : event ∈ s.posted) : slotOf buffer event.trbPointer ≠ s.dequeue := by
  have hfree := (inv.recycling.bit_eq_iff (inv.dequeue_lt notLink)).mp owned
  rw [List.mem_append, not_or] at hfree
  intro heq
  exact hfree.1 (List.mem_map.mpr ⟨event, hevent, heq⟩)

theorem Held.step (inv : Inv links normals buffer alloc bufSize m s)
    (hapart : Apart alloc bufSize m) (held : Held normals buffer alloc bufSize m s)
    {label : Label} {t : InterruptRing} (hok : s.reportTaken label = true)
    (h : Step links normals bufSize s label t) : Held normals buffer alloc bufSize m t := by
  cases h with
  | @execute bytes owned notLink size =>
      have hpointer : normals.dataBufferPointer (s.memory s.dequeue) = alloc s.dequeue := by
        rw [inv.trbs _ (inv.dequeue_lt notLink), normals.dataBufferPointer_filled]
      simp only [hpointer]
      refine ⟨?_, ?_, held.delivered⟩
      · intro event hevent
        rw [List.mem_append, List.mem_singleton] at hevent
        obtain hevent | rfl := hevent
        · obtain ⟨i, hi, hslot⟩ := inv.posted event hevent
          rw [readBytes_execute inv hapart notLink size (by rwa [hslot, slotOf_slot])
            (slotOf_ne_dequeue inv owned notLink hevent)]
          exact held.posted event hevent
        · rw [inv.sameBuffer, slotOf_slot, ← size]
          exact readBytes_writeBytes ..
      · intro event trb hdelivering
        have hdelivering : s.delivering = some (event, trb) := hdelivering
        obtain ⟨hslot, htrb, hbytes⟩ := held.delivering event trb hdelivering
        have hne : slotOf buffer event.trbPointer ≠ s.dequeue := by
          simpa [reportTaken, hdelivering, inv.sameBuffer] using hok
        exact ⟨hslot, htrb, (readBytes_execute inv hapart notLink size hslot hne).trans hbytes⟩
  | follow owned link => exact ⟨held.posted, held.delivering, held.delivered⟩
  | @process event writes ring trb idle free taken h =>
      obtain ⟨i, hi, hslot⟩ := inv.posted event taken
      rw [hslot, processTransferEvent_eq_ok inv.sameBuffer (inv.trbs i hi)] at h
      obtain ⟨-, rfl⟩ := h
      refine ⟨fun e he => held.posted e (List.mem_of_mem_erase he), ?_, held.delivered⟩
      intro e trb hdelivering
      simp only [Option.map_some, Option.some.injEq, Prod.mk.injEq] at hdelivering
      obtain ⟨rfl, rfl⟩ := hdelivering
      have hbytes := held.posted event taken
      rw [hslot, slotOf_slot] at hbytes ⊢
      exact ⟨hi, by rw [inv.trbs i hi, normals.dataBufferPointer_filled], hbytes⟩
  | write h => exact ⟨held.posted, held.delivering, held.delivered⟩
  | @deliver event trb idle h =>
      obtain ⟨hslot, htrb, hbytes⟩ := held.delivering event trb h
      refine ⟨held.posted, fun _ _ hnone => (nomatch hnone), ?_⟩
      intro e bytes hmem
      rw [List.mem_append, List.mem_singleton, Prod.mk.injEq] at hmem
      obtain hmem | ⟨rfl, rfl⟩ := hmem
      · exact held.delivered e bytes hmem
      · rw [htrb, hbytes]

/-- While the controller executes no slot whose report is still to be handed over, every
callback is given the report of its event. -/
theorem reports_intact (links : LinkTrb) (normals : NormalTrb links) (buffer : TrbBuffer)
    (hlen : 2 ≤ buffer.len) (alloc : Nat → UInt64) (bufSize : Nat)
    (hapart : Apart alloc bufSize (buffer.len - 1)) (s : InterruptRing)
    (hs : ((system links normals buffer alloc bufSize).guard
      fun s label => s.reportTaken label).Reachable s) :
    ∀ event bytes, (event, bytes) ∈ s.delivered → bytes = event.bytes := by
  obtain ⟨m, hm⟩ := Nat.exists_eq_add_of_le' (by omega : 1 ≤ buffer.len)
  have hpos : 0 < m := by omega
  rw [hm, Nat.add_sub_cancel] at hapart
  have held : Held normals buffer alloc bufSize m s := by
    refine hs.invariant ?_ ?_
    · rintro s ⟨writes, ring, -, rfl⟩
      exact ⟨by simp [start], by simp [start], by simp [start]⟩
    · rintro s label t hs held ⟨hok, h⟩
      exact held.step (Inv.of_reachable hm hpos hs.of_guard) hapart hok h
  exact held.delivered

/-- One report of the mouse, handed over before the controller executes its slot again. -/
theorem reports_intact_mouse :
    ∃ s, ((system .xhci .xhci mouseBuffer mousePages 3).guard
        fun s label => s.reportTaken label).Reachable s ∧
      s.delivered.length = 1 ∧
      ∀ event bytes, (event, bytes) ∈ s.delivered → bytes = event.bytes := by
  have hrun : (run .xhci .xhci mouseBuffer mousePages 3 reportTaken
      [.execute [0, 1, 1], .follow, .process firstReport, .write, .write, .write, .write, .write,
        .deliver, .execute [0, 2, 2]]).any
        (fun s => s.delivered.length = 1) = true := by
    decide +kernel
  obtain ⟨s, hs, hstate⟩ := (Option.any_eq_true _ _).mp hrun
  have hreach := reachable_of_run hs
  have hapart : Apart mousePages 3 (mouseBuffer.len - 1) := by
    intro i hi j hj hne
    have hlen : mouseBuffer.len - 1 = 1 := rfl
    omega
  exact ⟨s, hreach, of_decide_eq_true hstate,
    reports_intact .xhci .xhci mouseBuffer (by decide) mousePages 3 hapart s hreach⟩

/-- The controller executes the slot again as soon as it is returned, and the callback is
given the second report for the event of the first. -/
theorem second_report_for_first_event :
    ∃ s, (system .xhci .xhci mouseBuffer mousePages 3).Reachable s ∧
      s.delivered = [(firstReport, [0, 2, 2])] ∧ firstReport.bytes ≠ [0, 2, 2] := by
  have hrun : (run .xhci .xhci mouseBuffer mousePages 3 (fun _ _ => true)
      [.execute [0, 1, 1], .follow, .process firstReport, .write, .execute [0, 2, 2], .write,
        .write, .write, .write, .deliver]).any
        (fun s => s.delivered = [(firstReport, [0, 2, 2])]) = true := by
    decide +kernel
  obtain ⟨s, hs, hstate⟩ := (Option.any_eq_true _ _).mp hrun
  exact ⟨s, (reachable_of_run hs).of_guard, of_decide_eq_true hstate, by decide⟩

end Reports

end LemolaOs.Xhci.InterruptRing
