import LemolaOs.Xhci.InterruptRing
import LemolaOs.Xhci.ProducerProtocol

/-!
# The TRBs of an interrupt endpoint go back and forth

The ring has `m` slots for TRBs and one for the Link TRB, so `n = m + 1`. After
`fill_with_normal` the words of the TRBs change in their cycle bits only. These
are a `Recycling` ring: the bit of a slot says whether the controller has executed
it in this lap, and whether it has been returned since.

The Link TRB is rewritten whenever slot `m - 1` is returned, with a bit that the
driver keeps in its ring. `Phase` says where a flip in progress stands and how the
bits of slot `m - 1`, of the Link TRB and of the ring are related there.
-/

namespace LemolaOs.Xhci

theorem setBit0_setBit0 (word : UInt32) (a b : Bool) :
    setBit0 (setBit0 word a) b = setBit0 word b := by
  have hset (mask : UInt32) : word &&& ~~~mask ||| mask = word ||| mask := by
    apply UInt32.toBitVec_inj.mp
    ext i hi
    simp
    grind
  have hclear (mask : UInt32) : (word ||| mask) &&& ~~~mask = word &&& ~~~mask := by
    apply UInt32.toBitVec_inj.mp
    ext i hi
    simp
    grind
  cases a with
  | false =>
      cases b with
      | false => simp [setBit0, UInt32.and_assoc]
      | true => exact hset 1
  | true =>
      cases b with
      | false => exact hclear 1
      | true => simp [setBit0, UInt32.or_assoc]

@[simp] theorem TrbRaw.setCycleBit_setCycleBit (trb : TrbRaw) (a b : Bool) :
    (trb.setCycleBit a).setCycleBit b = trb.setCycleBit b := by
  simp [setCycleBit, setBit0_setBit0]

theorem TrbRaw.toggleCycleBit_apply (slot : Nat) (memory : Nat → TrbRaw) :
    (toggleCycleBit slot (memory slot)).apply memory =
      Function.update memory slot ((memory slot).setCycleBit (!(memory slot).cycleBit)) := rfl

namespace InterruptRing

theorem applyAll_append (writes more : List WordWrite) (memory : Nat → TrbRaw) :
    applyAll (writes ++ more) memory = applyAll more (applyAll writes memory) :=
  List.foldl_append

/-- The four words of a TRB. -/
theorem applyAll_writeInOrder (slot : Nat) (trb : TrbRaw) (memory : Nat → TrbRaw) :
    applyAll (TrbRaw.writeInOrder slot trb) memory = Function.update memory slot trb := by
  have hwords (j : Nat) (hj : j ≤ 4) :
      applyAll ((TrbRaw.writeInOrder slot trb).take j) memory =
        Function.update memory slot (.partlyWritten j trb (memory slot)) := by
    induction j with
    | zero => simp [applyAll]
    | succ j ih =>
        have hlen : j < (TrbRaw.writeInOrder slot trb).length := by simpa [TrbRaw.writeInOrder]
        have hword : (TrbRaw.writeInOrder slot trb)[j] = ⟨slot, ⟨j, hj⟩, trb.words[j]⟩ := by
          simp [TrbRaw.writeInOrder]
          rfl
        rw [← List.take_append_getElem hlen, applyAll_append, ih (by omega), hword]
        exact (apply_partlyWritten hj (Function.update_self ..)).trans (Function.update_idem ..)
  exact (hwords 4 le_rfl).trans (by rw [TrbRaw.partlyWritten_four])

end InterruptRing

namespace TransferRing

variable {links : LinkTrb} {normals : NormalTrb links} {buffer : TrbBuffer} {alloc : Nat → UInt64}
  {bufSize m : Nat}

open InterruptRing

theorem push_after (hlen : buffer.len = m + 1) (hm : 0 < m) (p cycleCount : Nat) (cmd : TrbRaw) :
    (TransferRing.mk (.after buffer m p) cycleCount).push links cmd =
      .ok (TrbRaw.writeInOrder (p % m) (cmd.setCycleBit (lapBit m p)) ++
          ProducerRing.linkWrites links buffer m p,
        ⟨.after buffer m (p + 1), cycleCount⟩, buffer.ptr + p % m * 16) := by
  rw [push, ProducerRing.push_after hlen hm]
  rfl

/-- The memory after the first `p` rounds of `fill_with_normal`. -/
structure FilledTo (links : LinkTrb) (normals : NormalTrb links) (buffer : TrbBuffer)
    (alloc : Nat → UInt64) (bufSize m p : Nat) (memory : Nat → TrbRaw) : Prop where
  trbs : ∀ i < p, memory i = (normals.filled (alloc i) bufSize).setCycleBit true
  link : p = m → memory m = (links.backTo buffer.ptr).setCycleBit true

/-- One round. -/
theorem FilledTo.push {p : Nat} {memory : Nat → TrbRaw} (hm : 0 < m) (hp : p < m)
    (h : FilledTo links normals buffer alloc bufSize m p memory) :
    FilledTo links normals buffer alloc bufSize m (p + 1)
      (applyAll (TrbRaw.writeInOrder (p % m)
          ((normals.filled (alloc p) bufSize).setCycleBit (lapBit m p)) ++
        ProducerRing.linkWrites links buffer m p) memory) := by
  have hbit : lapBit m p = true := by simp [lapBit, Nat.div_eq_of_lt hp]
  have hself : p % m = p := Nat.mod_eq_of_lt hp
  rw [applyAll_append, hself, hbit, applyAll_writeInOrder, ProducerRing.linkWrites, hbit]
  refine ⟨?_, ?_⟩
  · intro i hi
    have hslot : Function.update memory p ((normals.filled (alloc p) bufSize).setCycleBit true) i =
        (normals.filled (alloc i) bufSize).setCycleBit true := by
      obtain rfl | hne := eq_or_ne i p
      · exact Function.update_self ..
      · rw [Function.update_of_ne hne]
        exact h.trbs i (by omega)
    split
    · rw [applyAll_writeInOrder, Function.update_of_ne (by omega)]
      exact hslot
    · exact hslot
  · rintro rfl
    rw [if_pos (Nat.mod_self _), applyAll_writeInOrder, Function.update_self]

theorem fillWithNormal_eq (hlen : buffer.len = m + 1) :
    fillWithNormal links normals alloc bufSize (.new buffer) =
      (List.range m).foldlM (fillRound links normals alloc bufSize) ([], .new buffer) := by
  have hcount : usizeSub buffer.len 1 = .ok m := usizeSub_eq_ok.mpr ⟨by omega, by omega⟩
  rw [fillWithNormal]
  exact congrArg (· >>= _) hcount

theorem fillRound_eq (hlen : buffer.len = m + 1) (hm : 0 < m)
    (hfit : bufSize + pageSize ≤ 2 ^ 63) (writes : List WordWrite) (p : Nat) :
    fillRound links normals alloc bufSize (writes, ⟨.after buffer m p, 0⟩) p =
      .ok (writes ++ (TrbRaw.writeInOrder (p % m)
            ((normals.filled (alloc p) bufSize).setCycleBit (lapBit m p)) ++
          ProducerRing.linkWrites links buffer m p),
        ⟨.after buffer m (p + 1), 0⟩) := by
  rw [fillRound, if_neg (Nat.not_lt.mpr hfit), push_after hlen hm]
  rfl

theorem fillRounds (hlen : buffer.len = m + 1) (hm : 0 < m)
    (hfit : bufSize + pageSize ≤ 2 ^ 63) (p : Nat) (hp : p ≤ m) :
    ∃ writes, (List.range p).foldlM (fillRound links normals alloc bufSize) ([], .new buffer) =
        .ok (writes, ⟨.after buffer m p, 0⟩) ∧
      FilledTo links normals buffer alloc bufSize m p (applyAll writes fun _ => .zero) := by
  induction p with
  | zero =>
      have hring : TransferRing.new buffer = ⟨.after buffer m 0, 0⟩ := by
        simp [TransferRing.new, ProducerRing.new, ProducerRing.after, lapBit]
      exact ⟨[], by rw [hring]; rfl, by simp, by omega⟩
  | succ p ih =>
      obtain ⟨writes, hrounds, hfilled⟩ := ih (by omega)
      refine ⟨writes ++ (TrbRaw.writeInOrder (p % m)
          ((normals.filled (alloc p) bufSize).setCycleBit (lapBit m p)) ++
        ProducerRing.linkWrites links buffer m p), ?_, ?_⟩
      · rw [List.range_succ, List.foldlM_append, hrounds, Rust.ok_bind, List.foldlM_cons,
          fillRound_eq hlen hm hfit]
        rfl
      · rw [applyAll_append]
        exact hfilled.push hm (by omega)

/-- `fill_with_normal` on a fresh ring returns whenever the data buffers have a layout. -/
theorem fillWithNormal_returns (hlen : buffer.len = m + 1) (hm : 0 < m)
    (hfit : bufSize + pageSize ≤ 2 ^ 63) :
    ∃ x, fillWithNormal links normals alloc bufSize (.new buffer) = .ok x := by
  obtain ⟨writes, h, -⟩ := @fillRounds links normals buffer alloc bufSize m hlen hm hfit m le_rfl
  exact ⟨_, (fillWithNormal_eq hlen).trans h⟩

/-- `fill_with_normal` on a fresh ring leaves a TRB of the first lap in every slot. -/
theorem fillWithNormal_new (hlen : buffer.len = m + 1) (hm : 0 < m)
    {writes : List WordWrite} {ring : TransferRing}
    (h : fillWithNormal links normals alloc bufSize (.new buffer) = .ok (writes, ring)) :
    ring = ⟨.after buffer m m, 0⟩ ∧
      FilledTo links normals buffer alloc bufSize m m (applyAll writes fun _ => .zero) := by
  rw [fillWithNormal_eq hlen] at h
  by_cases hfit : bufSize + pageSize ≤ 2 ^ 63
  · obtain ⟨writes', hrounds, hfilled⟩ :=
      @fillRounds links normals buffer alloc bufSize m hlen hm hfit m le_rfl
    rw [hrounds] at h
    simp only [Except.ok.injEq, Prod.mk.injEq] at h
    obtain ⟨rfl, rfl⟩ := h
    exact ⟨rfl, hfilled⟩
  · obtain ⟨k, rfl⟩ := Nat.exists_eq_succ_of_ne_zero hm.ne'
    rw [List.range_succ_eq_map, List.foldlM_cons, fillRound, if_pos (Nat.lt_of_not_le hfit)] at h
    cases h

/-- `flip_cycle_bit_at` on a slot in front of the Link TRB. It panics only when the number
of laps does not fit `cycle_count`. -/
theorem flipCycleBitAt_eq_ok {r r' : TransferRing} (hbuffer : r.trbBuffer = buffer)
    (hlen : buffer.len = m + 1) {i : Nat} (hi : i < m) {memory : Nat → TrbRaw}
    {writes : List WordWrite} :
    r.flipCycleBitAt links memory (buffer.ptr + i * 16) (memory i).cycleBit = .ok (writes, r') ↔
      (i + 1 < m ∧ writes = [TrbRaw.toggleCycleBit i (memory i)] ∧
          r' = { r with writeIndex := i + 1 }) ∨
        (i + 1 = m ∧ r.cycleCount + 1 < usizeSize ∧
          writes = TrbRaw.toggleCycleBit i (memory i) ::
            TrbRaw.writeInOrder m ((links.backTo buffer.ptr).setCycleBit r.cycleBit) ∧
          r' = { r with
            writeIndex := 0, cycleBit := !r.cycleBit, cycleCount := r.cycleCount + 1 }) := by
  have hfits := buffer.fits
  have hposition : buffer.position (buffer.ptr + i * 16) = .ok (i * 16) := by
    rw [TrbBuffer.position, if_pos (by omega), Nat.add_sub_cancel_left]
  have hslot : buffer.index i = .ok (buffer.ptr + i * 16) := if_pos (by omega)
  have hlink : buffer.index m = .ok (buffer.ptr + m * 16) := if_pos (by omega)
  have hnext : usizeAdd i 1 = .ok (i + 1) :=
    usizeAdd_eq_ok.mpr ⟨by simp only [usizeSize]; omega, rfl⟩
  have hlast : usizeSub buffer.len 1 = .ok m := usizeSub_eq_ok.mpr ⟨by omega, by omega⟩
  have hne : (i != m) = true := by simp; omega
  have hindex : i * 16 / 16 = i := Nat.mul_div_cancel i (by decide)
  simp only [flipCycleBitAt, hbuffer, hposition, Rust.ok_bind, hindex, hlast, hslot, hnext, hne,
    debugAssert, beq_self_eq_true, if_true]
  by_cases hend : i + 1 = m
  · simp only [hend, if_true, hlink, Rust.bind_eq_ok, usizeAdd_eq_ok, Except.ok.injEq,
      Prod.mk.injEq, lt_irrefl, false_and, false_or, true_and]
    constructor
    · rintro ⟨count, ⟨hfit, rfl⟩, _, -, rfl, rfl⟩
      exact ⟨hfit, rfl, rfl⟩
    · rintro ⟨hfit, rfl, rfl⟩
      exact ⟨_, ⟨hfit, rfl⟩, _, rfl, rfl, rfl⟩
  · have hmore : i + 1 < m := by omega
    simp only [hend, hmore, if_false, Except.ok.injEq, Prod.mk.injEq, true_and, false_and,
      or_false]
    exact and_congr eq_comm eq_comm

end TransferRing

namespace InterruptRing

variable {links : LinkTrb} {normals : NormalTrb links} {buffer : TrbBuffer} {alloc : Nat → UInt64}
  {bufSize m : Nat}

@[simp] theorem slotOf_slot (buffer : TrbBuffer) (i : Nat) :
    slotOf buffer (buffer.ptr + i * 16) = i := by
  rw [slotOf, Nat.add_sub_cancel_left, Nat.mul_div_cancel i (by decide)]

/-- What `process_transfer_event` does with a TRB of `fill_with_normal`. -/
theorem processTransferEvent_eq_ok {r r' : TransferRing} (hbuffer : r.trbBuffer = buffer)
    {i : Nat} {memory : Nat → TrbRaw} {bit : Bool}
    (hslot : memory i = (normals.filled (alloc i) bufSize).setCycleBit bit)
    {writes : List WordWrite} {trb : Option TrbRaw} :
    processTransferEvent links normals memory r (buffer.ptr + i * 16) = .ok (writes, r', trb) ↔
      r.flipCycleBitAt links memory (buffer.ptr + i * 16) (memory i).cycleBit =
        .ok (writes, r') ∧ trb = some (memory i) := by
  have hallowed : normals.isAllowed (memory i) = true := by simp [hslot]
  have hnormal : normals.isNormal (memory i) = true := by simp [hslot]
  simp only [processTransferEvent, hbuffer, slotOf_slot, hallowed, hnormal, Bool.true_eq_false,
    if_false, if_true, Rust.bind_eq_ok, Except.ok.injEq, Prod.mk.injEq, Prod.exists]
  constructor
  · rintro ⟨writes', ring, hflip, rfl, rfl, rfl⟩
    exact ⟨hflip, rfl⟩
  · rintro ⟨hflip, rfl⟩
    exact ⟨_, _, hflip, rfl, rfl, rfl⟩

/-- Where the latest flip stands: done, before its toggle, or with `j` words of the Link TRB
in memory. Slot `m - 1` and the Link TRB carry the same bit but for the last word of the
Link TRB, and the ring keeps the bit of the next one. -/
inductive Phase (links : LinkTrb) (buffer : TrbBuffer) (m : Nat) (memory : Nat → TrbRaw)
    (pending : List WordWrite) (cycleBit : Bool) : Prop where
  | idle (done : pending = []) (link : (memory m).cycleBit = (memory (m - 1)).cycleBit)
      (next : cycleBit = !(memory (m - 1)).cycleBit)
  | toggle (i : Nat) (hi : i + 1 < m) (left : pending = [TrbRaw.toggleCycleBit i (memory i)])
      (link : (memory m).cycleBit = (memory (m - 1)).cycleBit)
      (next : cycleBit = !(memory (m - 1)).cycleBit)
  | toggleLast (left : pending = TrbRaw.toggleCycleBit (m - 1) (memory (m - 1)) ::
        TrbRaw.writeInOrder m
          ((links.backTo buffer.ptr).setCycleBit !(memory (m - 1)).cycleBit))
      (link : (memory m).cycleBit = (memory (m - 1)).cycleBit)
      (next : cycleBit = (memory (m - 1)).cycleBit)
  | link (j : Nat) (hj : j < 4) (left : pending = (TrbRaw.writeInOrder m
        ((links.backTo buffer.ptr).setCycleBit (memory (m - 1)).cycleBit)).drop j)
      (link : (memory m).cycleBit = !(memory (m - 1)).cycleBit)
      (next : cycleBit = !(memory (m - 1)).cycleBit)

/-- What holds between any two steps. -/
structure Inv (links : LinkTrb) (normals : NormalTrb links) (buffer : TrbBuffer)
    (alloc : Nat → UInt64) (bufSize m : Nat) (s : InterruptRing) : Prop where
  sameBuffer : s.ring.trbBuffer = buffer
  trbs : ∀ i < m,
    s.memory i = (normals.filled (alloc i) bufSize).setCycleBit (s.memory i).cycleBit
  link : s.memory m = (links.backTo buffer.ptr).setCycleBit (s.memory m).cycleBit
  posted : ∀ event ∈ s.posted, ∃ i < m, event.trbPointer = buffer.ptr + i * 16
  recycling : Recycling m (fun i => (s.memory i).cycleBit) s.dequeue s.ccs
    (s.posted.map (fun event => slotOf buffer event.trbPointer) ++ toggles m s.pending)
  reader : ∃ f, s.dequeue ≤ m ∧ s.executed = (List.range (s.dequeue + m * f)).map (· % m)
  phase : Phase links buffer m s.memory s.pending s.ring.cycleBit

/-- A ring that has been filled. -/
theorem Inv.start (hm : 0 < m) {writes : List WordWrite} (hfilled : TransferRing.FilledTo links
      normals buffer alloc bufSize m m (applyAll writes fun _ => .zero)) :
    Inv links normals buffer alloc bufSize m (start ⟨.after buffer m m, 0⟩ writes) := by
  have hbit (i : Nat) (hi : i < m) : (applyAll writes (fun _ => .zero) i).cycleBit = true := by
    rw [hfilled.trbs i hi, TrbRaw.cycleBit_setCycleBit]
  have hlast := hbit (m - 1) (by omega)
  have hlink := hfilled.link rfl
  refine ⟨rfl, ?_, ?_, by simp [InterruptRing.start], .init hbit, ⟨0, Nat.zero_le m, rfl⟩, ?_⟩
  · intro i hi
    simp only [InterruptRing.start]
    rw [hbit i hi, hfilled.trbs i hi]
  · simp only [InterruptRing.start]
    rw [hlink, TrbRaw.cycleBit_setCycleBit]
  · refine .idle rfl ?_ ?_
    · simp only [InterruptRing.start]
      rw [hlink, TrbRaw.cycleBit_setCycleBit, hlast]
    · simp [InterruptRing.start, ProducerRing.after, lapBit, hlast, Nat.div_self hm]

variable {s : InterruptRing}

theorem Inv.dequeue_le (inv : Inv links normals buffer alloc bufSize m s) : s.dequeue ≤ m := by
  obtain ⟨f, hle, -⟩ := inv.reader
  exact hle

/-- A TRB that is no Link TRB is in front of the last slot. -/
theorem Inv.dequeue_lt (inv : Inv links normals buffer alloc bufSize m s)
    (notLink : links.isLink (s.memory s.dequeue) = false) : s.dequeue < m := by
  obtain hlast | hlt := Nat.eq_or_lt_of_le inv.dequeue_le
  · rw [hlast, inv.link, LinkTrb.isLink_backTo] at notLink
    cases notLink
  · exact hlt

/-- A Link TRB is in the last slot. -/
theorem Inv.dequeue_eq (inv : Inv links normals buffer alloc bufSize m s)
    (link : links.isLink (s.memory s.dequeue) = true) : s.dequeue = m := by
  obtain hlast | hlt := Nat.eq_or_lt_of_le inv.dequeue_le
  · exact hlast
  · rw [inv.trbs _ hlt, normals.isLink_filled] at link
    cases link

/-- The controller executes a TRB. -/
theorem Inv.execute (inv : Inv links normals buffer alloc bufSize m s)
    (owned : (s.memory s.dequeue).cycleBit = s.ccs)
    (notLink : links.isLink (s.memory s.dequeue) = false) (bytes : List UInt8)
    (memory : Nat → UInt8) :
    Inv links normals buffer alloc bufSize m
      { s with
        bytes := memory
        posted := s.posted ++ [⟨s.ring.trbBuffer.ptr + s.dequeue * 16, bytes⟩]
        executed := s.executed ++ [s.dequeue]
        dequeue := s.dequeue + 1 } := by
  have hlt := inv.dequeue_lt notLink
  refine ⟨inv.sameBuffer, inv.trbs, inv.link, ?_, ?_, ?_, inv.phase⟩
  · intro event hevent
    rw [List.mem_append, List.mem_singleton] at hevent
    obtain hevent | rfl := hevent
    · exact inv.posted event hevent
    · exact ⟨s.dequeue, hlt, by rw [inv.sameBuffer]⟩
  · refine (inv.recycling.take hlt owned).perm ?_
    simp only [inv.sameBuffer, List.map_append, List.map_cons, List.map_nil, slotOf_slot,
      List.append_assoc, List.cons_append, List.nil_append]
    exact List.perm_middle.symm
  · obtain ⟨f, -, hexecuted⟩ := inv.reader
    refine ⟨f, hlt, ?_⟩
    have hnext : s.dequeue + 1 + m * f = s.dequeue + m * f + 1 := by omega
    rw [hnext, List.range_succ, List.map_append, ← hexecuted, List.map_singleton,
      Nat.add_mul_mod_self_left, Nat.mod_eq_of_lt hlt]

/-- The controller follows the Link TRB. -/
theorem Inv.follow (inv : Inv links normals buffer alloc bufSize m s)
    (link : links.isLink (s.memory s.dequeue) = true) :
    Inv links normals buffer alloc bufSize m { s with dequeue := 0, ccs := !s.ccs } := by
  have hlast := inv.dequeue_eq link
  refine ⟨inv.sameBuffer, inv.trbs, inv.link, inv.posted, ?_, ?_, inv.phase⟩
  · have hrecycling := inv.recycling
    rw [hlast] at hrecycling
    exact hrecycling.wrap
  · obtain ⟨f, -, hexecuted⟩ := inv.reader
    refine ⟨f + 1, Nat.zero_le m, ?_⟩
    have hlap : m + m * f = 0 + m * (f + 1) := by
      rw [Nat.mul_succ]
      omega
    rw [hexecuted, hlast, hlap]

theorem toggles_link (trb : TrbRaw) (j : Nat) :
    toggles m ((TrbRaw.writeInOrder m trb).drop j) = [] := by
  rw [toggles, List.map_eq_nil_iff, List.filter_eq_nil_iff]
  intro d hd
  simp [slot_of_mem_writeInOrder (List.mem_of_mem_drop hd)]

theorem toggles_cons {i : Nat} (hi : i < m) (trb : TrbRaw) (rest : List WordWrite) :
    toggles m (TrbRaw.toggleCycleBit i trb :: rest) = i :: toggles m rest := by
  have hne : i ≠ m := by omega
  simp [toggles, TrbRaw.toggleCycleBit, hne]

theorem Phase.of_idle {memory : Nat → TrbRaw} {cycleBit : Bool}
    (h : Phase links buffer m memory [] cycleBit) :
    (memory m).cycleBit = (memory (m - 1)).cycleBit ∧
      cycleBit = !(memory (m - 1)).cycleBit := by
  cases h with
  | idle _ link next => exact ⟨link, next⟩
  | toggle _ _ left => cases left
  | toggleLast left => cases left
  | link _ hj left => simp [writeInOrder_drop hj] at left

/-- A call of `process_transfer_event` takes an event. The call itself writes nothing. -/
theorem Inv.process (inv : Inv links normals buffer alloc bufSize m s)
    (hlen : buffer.len = m + 1) (idle : s.pending = []) {event : Report}
    (taken : event ∈ s.posted) {writes : List WordWrite} {ring : TransferRing}
    {trb : Option TrbRaw} {delivering : Option (Report × TrbRaw)}
    (h : processTransferEvent links normals s.memory s.ring event.trbPointer =
      .ok (writes, ring, trb)) :
    Inv links normals buffer alloc bufSize m
      { s with
        ring := ring
        pending := writes
        delivering := delivering
        posted := s.posted.erase event } := by
  obtain ⟨i, hi, hpointer⟩ := inv.posted event taken
  have hphase := inv.phase
  have hrecycling := inv.recycling
  rw [idle] at hphase hrecycling
  obtain ⟨hlink, hnext⟩ := hphase.of_idle
  rw [hpointer, processTransferEvent_eq_ok inv.sameBuffer (inv.trbs i hi),
    TransferRing.flipCycleBitAt_eq_ok inv.sameBuffer hlen hi] at h
  -- the slot of the event stays in the list, now for its toggle
  have hreturning (rest : List WordWrite) (hrest : toggles m rest = []) :
      Recycling m (fun i => (s.memory i).cycleBit) s.dequeue s.ccs
        ((s.posted.erase event).map (fun event => slotOf buffer event.trbPointer) ++
          toggles m (TrbRaw.toggleCycleBit i (s.memory i) :: rest)) := by
    have herase := (List.perm_cons_erase taken).map fun event => slotOf buffer event.trbPointer
    rw [List.map_cons, hpointer, slotOf_slot] at herase
    rw [toggles_cons hi, hrest]
    refine hrecycling.perm ?_
    simpa [toggles] using herase.trans (List.perm_append_singleton _ _).symm
  have hposted : ∀ e ∈ s.posted.erase event, ∃ i < m, e.trbPointer = buffer.ptr + i * 16 :=
    fun e he => inv.posted e (List.mem_of_mem_erase he)
  obtain ⟨⟨hmore, rfl, rfl⟩ | ⟨hend, -, rfl, rfl⟩, -⟩ := h
  · exact ⟨inv.sameBuffer, inv.trbs, inv.link, hposted, hreturning [] rfl, inv.reader,
      .toggle i hmore rfl hlink hnext⟩
  · obtain rfl : i = m - 1 := by omega
    exact ⟨inv.sameBuffer, inv.trbs, inv.link, hposted, hreturning _ (toggles_link _ 0),
      inv.reader, .toggleLast (by rw [← hnext]) hlink (by simp [hnext])⟩

/-- The toggle of a flip goes to memory: the slot is returned. -/
theorem Inv.toggle (inv : Inv links normals buffer alloc bufSize m s) (hi : i < m)
    {rest : List WordWrite} (hrest : toggles m rest = [])
    (h : s.pending = TrbRaw.toggleCycleBit i (s.memory i) :: rest)
    (hphase : Phase links buffer m
      ((TrbRaw.toggleCycleBit i (s.memory i)).apply s.memory) rest s.ring.cycleBit) :
    Inv links normals buffer alloc bufSize m
      { s with
        memory := (TrbRaw.toggleCycleBit i (s.memory i)).apply s.memory
        pending := rest } := by
  rw [TrbRaw.toggleCycleBit_apply] at hphase ⊢
  refine ⟨inv.sameBuffer, ?_, ?_, inv.posted, ?_, inv.reader, hphase⟩
  · intro k hk
    obtain rfl | hne := eq_or_ne k i
    · simp only [Function.update_self, TrbRaw.cycleBit_setCycleBit]
      nth_rewrite 1 [inv.trbs k hk]
      exact TrbRaw.setCycleBit_setCycleBit ..
    · simp only [Function.update_of_ne hne]
      exact inv.trbs k hk
  · simp only [Function.update_of_ne (show m ≠ i by omega)]
    exact inv.link
  · have hrecycling := inv.recycling
    rw [h, toggles_cons hi, hrest] at hrecycling
    simp only [hrest, List.append_nil]
    refine (hrecycling.perm (List.perm_append_singleton _ _)).handBack ?_ ?_
    · simp
    · intro j _ hne
      simp [hne]

/-- A word of the Link TRB. Only the last one shows. -/
theorem Inv.writeLink (inv : Inv links normals buffer alloc bufSize m s) (hm : 0 < m) {j : Nat}
    (hj : j < 4) {bit : Bool} (hbit : bit = (s.memory (m - 1)).cycleBit)
    (left : s.pending = (TrbRaw.writeInOrder m ((links.backTo buffer.ptr).setCycleBit bit)).drop j)
    (hlink : (s.memory m).cycleBit = !bit) (hnext : s.ring.cycleBit = !bit) :
    WordWrite.apply ⟨m, ⟨j, hj⟩, ((links.backTo buffer.ptr).setCycleBit bit).words[j]⟩ s.memory =
        Function.update s.memory m
          ((links.backTo buffer.ptr).setCycleBit (if j = 3 then bit else !bit)) ∧
      Inv links normals buffer alloc bufSize m
        { s with
          memory := Function.update s.memory m
            ((links.backTo buffer.ptr).setCycleBit (if j = 3 then bit else !bit))
          pending := (TrbRaw.writeInOrder m
            ((links.backTo buffer.ptr).setCycleBit bit)).drop (j + 1) } := by
  have hslot : s.memory m = .partlyWritten j ((links.backTo buffer.ptr).setCycleBit bit)
      ((links.backTo buffer.ptr).setCycleBit !bit) := by
    rw [TrbRaw.partlyWritten_setCycleBit (by omega), ← hlink]
    exact inv.link
  have hother {i : Nat} (hi : i < m) (trb : TrbRaw) :
      Function.update s.memory m trb i = s.memory i :=
    Function.update_of_ne (by omega) ..
  refine ⟨?_, inv.sameBuffer, ?_, ?_, inv.posted, ?_, inv.reader, ?_⟩
  · rw [apply_partlyWritten hj hslot]
    split
    · next hlast => rw [hlast, TrbRaw.partlyWritten_four]
    · rw [TrbRaw.partlyWritten_setCycleBit (by omega)]
  · intro i hi
    simp only [hother hi]
    exact inv.trbs i hi
  · simp
  · have hrecycling := inv.recycling
    rw [left, toggles_link] at hrecycling
    simp only [toggles_link]
    exact hrecycling.congr fun i hi => by rw [hother hi]
  · have hfront := hother (show m - 1 < m by omega)
    split
    · next hlast =>
        subst hlast
        exact .idle rfl (by simp [hfront, hbit]) (by simpa [hfront, hbit] using hnext)
    · exact .link (j + 1) (by omega) (by simp [hfront, hbit]) (by simp [hfront, hbit])
        (by simpa [hfront, hbit] using hnext)

/-- The next word of a flip goes to memory. -/
theorem Inv.write (inv : Inv links normals buffer alloc bufSize m s) (hm : 0 < m) {d : WordWrite}
    {rest : List WordWrite} (h : s.pending = d :: rest) :
    Inv links normals buffer alloc bufSize m
      { s with memory := d.apply s.memory, pending := rest } := by
  cases inv.phase with
  | idle done => simp [done] at h
  | toggle i hi left link next =>
      rw [left, List.cons.injEq] at h
      obtain ⟨rfl, rfl⟩ := h
      have hlink : m ≠ i := by omega
      have hlast : m - 1 ≠ i := by omega
      refine inv.toggle (by omega) rfl left (.idle rfl ?_ ?_)
      · simpa [TrbRaw.toggleCycleBit_apply, hlink, hlast] using link
      · simpa [TrbRaw.toggleCycleBit_apply, hlast] using next
  | toggleLast left link next =>
      rw [left, List.cons.injEq] at h
      obtain ⟨rfl, rfl⟩ := h
      have hlink : m ≠ m - 1 := by omega
      refine inv.toggle (by omega) (toggles_link _ 0) left (.link 0 (by decide) ?_ ?_ ?_)
      · simp [TrbRaw.toggleCycleBit_apply]
      · simpa [TrbRaw.toggleCycleBit_apply, hlink] using link
      · simpa [TrbRaw.toggleCycleBit_apply] using next
  | link j hj left link next =>
      rw [left, writeInOrder_drop hj, List.cons.injEq] at h
      obtain ⟨rfl, rfl⟩ := h
      obtain ⟨hmemory, hinv⟩ := inv.writeLink hm hj rfl left link next
      rwa [hmemory]

theorem Inv.step (inv : Inv links normals buffer alloc bufSize m s) (hlen : buffer.len = m + 1)
    (hm : 0 < m) {label : Label} {t : InterruptRing} (h : Step links normals bufSize s label t) :
    Inv links normals buffer alloc bufSize m t := by
  cases h with
  | execute owned notLink size => exact inv.execute owned notLink _ _
  | follow owned link => exact inv.follow link
  | process idle free taken h => exact inv.process hlen idle taken h
  | write h => exact inv.write hm h
  | deliver idle h =>
      exact ⟨inv.sameBuffer, inv.trbs, inv.link, inv.posted, inv.recycling, inv.reader, inv.phase⟩

theorem Inv.of_reachable (hlen : buffer.len = m + 1) (hm : 0 < m)
    (hs : (system links normals buffer alloc bufSize).Reachable s) :
    Inv links normals buffer alloc bufSize m s := by
  refine hs.invariant ?_ ?_
  · rintro s ⟨writes, ring, hfill, rfl⟩
    obtain ⟨rfl, hfilled⟩ := TransferRing.fillWithNormal_new hlen hm hfill
    exact .start hm hfilled
  · intro s label t _ inv h
    exact inv.step hlen hm h

/-- What both parties rely on between any two steps. -/
structure Safe (links : LinkTrb) (normals : NormalTrb links) (buffer : TrbBuffer)
    (alloc : Nat → UInt64) (bufSize : Nat) (s : InterruptRing) : Prop where
  /-- The slots are executed in cyclic order. -/
  inOrder : s.executed = (List.range s.executed.length).map (· % (buffer.len - 1))
  /-- No slot is executed again before the event of its previous execution was processed. -/
  exclusive : ∀ bytes t, Step links normals bufSize s (.execute bytes) t →
    s.dequeue ∉ s.unprocessed
  /-- Exactly the slots without an unprocessed event carry the bit that the controller
  compares with when it gets there next. -/
  recycled : ∀ i < buffer.len - 1,
    (s.memory i).cycleBit = (s.ccs ^^ decide (i < s.dequeue)) ↔ i ∉ s.unprocessed
  /-- The flips have changed the TRBs in their cycle bits only. -/
  trbs : ∀ i < buffer.len - 1,
    s.memory i = (normals.filled (alloc i) bufSize).setCycleBit (s.memory i).cycleBit
  /-- The Link TRB still leads to the first slot. -/
  link : s.memory (buffer.len - 1) =
    (links.backTo buffer.ptr).setCycleBit (s.memory (buffer.len - 1)).cycleBit
  /-- A finished flip leaves the bits of the last TRB, the Link TRB and the ring in step. -/
  settled : s.pending = [] →
    (s.memory (buffer.len - 1)).cycleBit = (s.memory (buffer.len - 2)).cycleBit ∧
      s.ring.cycleBit = !(s.memory (buffer.len - 2)).cycleBit
  /-- No flip panics before the laps overflow `cycle_count`. -/
  ready : s.pending = [] → s.ring.cycleCount + 1 < usizeSize → ∀ event ∈ s.posted,
    ∃ x, processTransferEvent links normals s.memory s.ring event.trbPointer = .ok x

theorem Inv.safe (inv : Inv links normals buffer alloc bufSize m s) (hlen : buffer.len = m + 1)
    (hm : 0 < m) : Safe links normals buffer alloc bufSize s := by
  have hlast : buffer.len - 1 = m := by omega
  have hfront : buffer.len - 2 = m - 1 := by omega
  have hout : s.unprocessed =
      s.posted.map (fun event => slotOf buffer event.trbPointer) ++ toggles m s.pending := by
    rw [unprocessed, inv.sameBuffer, hlast]
  refine ⟨?_, ?_, ?_, ?_, ?_, ?_, ?_⟩
  · obtain ⟨f, -, hexecuted⟩ := inv.reader
    rw [hlast, hexecuted]
    simp
  · intro bytes t h
    cases h with
    | execute owned notLink _ =>
        rw [hout]
        exact (inv.recycling.bit_eq_iff (inv.dequeue_lt notLink)).mp owned
  · rw [hlast, hout]
    intro i hi
    exact inv.recycling.bit_eq_next_iff hi
  · rw [hlast]
    exact inv.trbs
  · rw [hlast]
    exact inv.link
  · intro idle
    have hphase := inv.phase
    rw [idle] at hphase
    rw [hlast, hfront]
    exact hphase.of_idle
  · intro _ hcount event hevent
    obtain ⟨i, hi, hpointer⟩ := inv.posted event hevent
    have hflip : ∃ x, s.ring.flipCycleBitAt links s.memory (buffer.ptr + i * 16)
        (s.memory i).cycleBit = .ok x := by
      obtain hmore | hend : i + 1 < m ∨ i + 1 = m := by omega
      · exact ⟨_, (TransferRing.flipCycleBitAt_eq_ok inv.sameBuffer hlen hi).mpr
          (.inl ⟨hmore, rfl, rfl⟩)⟩
      · exact ⟨_, (TransferRing.flipCycleBitAt_eq_ok inv.sameBuffer hlen hi).mpr
          (.inr ⟨hend, hcount, rfl, rfl⟩)⟩
    obtain ⟨⟨writes, ring⟩, hflip⟩ := hflip
    rw [hpointer]
    exact ⟨_, (processTransferEvent_eq_ok inv.sameBuffer (inv.trbs i hi)).mpr ⟨hflip, rfl⟩⟩

/-- A ring of any length, whatever the order in which the events are processed: it is
filled without a panic, and in every state of every history the controller has executed
the slots in cyclic order, owns exactly those whose event has been processed, and the
flips have changed nothing but the bits that say so. -/
theorem interrupt_ring_recycles (links : LinkTrb) (normals : NormalTrb links) (buffer : TrbBuffer)
    (hlen : 2 ≤ buffer.len) (alloc : Nat → UInt64) (bufSize : Nat) :
    (bufSize + TransferRing.pageSize ≤ 2 ^ 63 →
      ∃ x, TransferRing.fillWithNormal links normals alloc bufSize (.new buffer) = .ok x) ∧
    ∀ s, (system links normals buffer alloc bufSize).Reachable s →
      s.Safe links normals buffer alloc bufSize := by
  obtain ⟨m, hm⟩ := Nat.exists_eq_add_of_le' (by omega : 1 ≤ buffer.len)
  refine ⟨fun hfit => TransferRing.fillWithNormal_returns hm (by omega) hfit, ?_⟩
  intro s hs
  exact (Inv.of_reachable hm (by omega) hs).safe hm (by omega)

/-- A ring of two slots for the reports of a mouse. -/
def mouseBuffer : TrbBuffer := ⟨0x1000, 2, by decide⟩

/-- The data buffers of its TRBs, one page after the other. -/
def mousePages (i : Nat) : UInt64 := UInt64.ofNat (0x10000 + i * 0x1000)

/-- The event that is posted for a first movement. -/
def firstReport : Report := ⟨0x1000, [0, 1, 1]⟩

/-- The first report has been executed and its slot returned. -/
theorem interrupt_ring_recycles_mouse :
    ∃ s, (system .xhci .xhci mouseBuffer mousePages 3).Reachable s ∧ s.executed = [0] ∧
      s.unprocessed = [] ∧ s.Safe .xhci .xhci mouseBuffer mousePages 3 := by
  have hrun : (run .xhci .xhci mouseBuffer mousePages 3 (fun _ _ => true)
      [.execute [0, 1, 1], .follow, .process firstReport, .write]).any
        (fun s => s.executed = [0] ∧ s.unprocessed = []) = true := by
    decide +kernel
  obtain ⟨s, hs, hstate⟩ := (Option.any_eq_true _ _).mp hrun
  obtain ⟨hexecuted, hprocessed⟩ := of_decide_eq_true hstate
  have hreach := (reachable_of_run hs).of_guard
  exact ⟨s, hreach, hexecuted, hprocessed,
    (interrupt_ring_recycles .xhci .xhci mouseBuffer (by decide) mousePages 3).2 s hreach⟩

end InterruptRing

end LemolaOs.Xhci
