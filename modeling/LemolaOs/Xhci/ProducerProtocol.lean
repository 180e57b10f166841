import LemolaOs.Xhci.ProducerRing

/-!
# The controller executes what was pushed

The ring has `m` slots for TRBs and one for the Link TRB, so `n = m + 1`. The
invariant says where a `push` in progress stands (`Phase`), that the first `m`
slots are a cycle-bit ring in the sense of `Published`, and how many times the
Link TRB has been written. A controller that waits in front of the Link TRB has
executed whole laps, and the bound on unexecuted TRBs keeps the driver from
rewriting that TRB before it is followed.
-/

namespace LemolaOs.Xhci

section Writes

variable {slot j : Nat} {trb : TrbRaw}

theorem writeInOrder_drop (hj : j < 4) :
    (TrbRaw.writeInOrder slot trb).drop j =
      ⟨slot, ⟨j, hj⟩, trb.words[j]⟩ :: (TrbRaw.writeInOrder slot trb).drop (j + 1) := by
  rw [List.drop_eq_getElem_cons (by simpa [TrbRaw.writeInOrder] using hj)]
  simp [TrbRaw.writeInOrder]

@[simp] theorem writeInOrder_drop_four : (TrbRaw.writeInOrder slot trb).drop 4 = [] := rfl

theorem slot_of_mem_writeInOrder {d : WordWrite} (h : d ∈ TrbRaw.writeInOrder slot trb) :
    d.slot = slot := by
  simp only [TrbRaw.writeInOrder, List.mem_map] at h
  obtain ⟨k, -, rfl⟩ := h
  rfl

/-- One more word of a TRB that is being written. -/
theorem apply_partlyWritten {memory : Nat → TrbRaw} {old : TrbRaw} (hj : j < 4)
    (h : memory slot = TrbRaw.partlyWritten j trb old) :
    WordWrite.apply ⟨slot, ⟨j, hj⟩, trb.words[j]⟩ memory =
      Function.update memory slot (TrbRaw.partlyWritten (j + 1) trb old) := by
  have hword := TrbRaw.writeWord_partlyWritten ⟨j, hj⟩ trb old
  rw [WordWrite.apply, h]
  exact congrArg _ hword

end Writes

namespace ProducerRing

variable {links : LinkTrb} {buffer : TrbBuffer} {m : Nat}

/-- The ring after `p` pushes. -/
def after (buffer : TrbBuffer) (m p : Nat) : ProducerRing := ⟨buffer, p % m, lapBit m p⟩

/-- The writes of the Link TRB that end the lap of entry `p`. -/
def linkWrites (links : LinkTrb) (buffer : TrbBuffer) (m p : Nat) : List WordWrite :=
  if (p + 1) % m = 0 then
    TrbRaw.writeInOrder m ((links.backTo buffer.ptr).setCycleBit (lapBit m p))
  else []

/-- `push` never panics, writes the TRB with the cycle bit of its lap, and closes the lap
with a Link TRB. -/
theorem push_after (hlen : buffer.len = m + 1) (hm : 0 < m) (p : Nat) (cmd : TrbRaw) :
    (after buffer m p).push links cmd =
      .ok (TrbRaw.writeInOrder (p % m) (cmd.setCycleBit (lapBit m p)) ++
          linkWrites links buffer m p,
        after buffer m (p + 1), buffer.ptr + p % m * 16) := by
  have hlt := Nat.mod_lt p hm
  have hfits := buffer.fits
  have hslot : buffer.index (p % m) = .ok (buffer.ptr + p % m * 16) := if_pos (by omega)
  have hnext : usizeAdd (p % m) 1 = .ok (p % m + 1) :=
    usizeAdd_eq_ok.mpr ⟨by simp only [usizeSize]; omega, rfl⟩
  have hlast : usizeSub buffer.len 1 = .ok m := usizeSub_eq_ok.mpr ⟨by omega, by omega⟩
  by_cases hend : p % m + 1 = m
  · obtain ⟨hmod, hdiv⟩ := succ_div_mod_of_eq hm hend
    have hlink : buffer.index m = .ok (buffer.ptr + m * 16) := if_pos (by omega)
    simp [push, after, linkWrites, hslot, hnext, hlast, hend, hlink, hmod, hdiv, lapBit]
  · obtain ⟨hmod, hdiv⟩ := succ_div_mod_of_ne hm hend
    simp [push, after, linkWrites, hslot, hnext, hlast, hend, hmod, hdiv, lapBit]

end ProducerRing

namespace Shared

variable {links : LinkTrb} {buffer : TrbBuffer} {m : Nat}

/-- The last slot after the Link TRB has been written `l` times. -/
structure LinkSlot (links : LinkTrb) (ptr l : Nat) (trb : TrbRaw) : Prop where
  bit : trb.cycleBit = l.bodd
  link : 0 < l → trb = (links.backTo ptr).setCycleBit l.bodd

/-- Rewriting the Link TRB shows only with its last word. -/
theorem LinkSlot.partlyWritten {ptr l j : Nat} {old : TrbRaw} (h : LinkSlot links ptr l old)
    (hj : j ≤ 3) (bit : Bool) :
    LinkSlot links ptr l (.partlyWritten j ((links.backTo ptr).setCycleBit bit) old) := by
  refine ⟨?_, ?_⟩
  · rw [TrbRaw.cycleBit_partlyWritten hj]
    exact h.bit
  · intro hl
    rw [h.link hl]
    exact TrbRaw.partlyWritten_setCycleBit hj _ _ _

/-- Where the latest `push` stands: done, with `j` words of its TRB in memory, or with `j`
words of the Link TRB. -/
inductive Phase (links : LinkTrb) (buffer : TrbBuffer) (m : Nat) (memory : Nat → TrbRaw)
    (pending : List WordWrite) (pushed : List TrbRaw) : Prop where
  | idle (done : pending = []) (link : LinkSlot links buffer.ptr (pushed.length / m) (memory m))
  | trb (before : List TrbRaw) (cmd old : TrbRaw) (j : Nat) (hj : j < 4)
      (latest : pushed = before ++ [cmd])
      (slot : memory (before.length % m) =
        .partlyWritten j (cmd.setCycleBit (lapBit m before.length)) old)
      (left : pending = (TrbRaw.writeInOrder (before.length % m)
          (cmd.setCycleBit (lapBit m before.length))).drop j ++
        ProducerRing.linkWrites links buffer m before.length)
      (link : LinkSlot links buffer.ptr (before.length / m) (memory m))
  | link (old : TrbRaw) (j l : Nat) (hj : j < 4) (lap : pushed.length = m * (l + 1))
      (slot : memory m = .partlyWritten j ((links.backTo buffer.ptr).setCycleBit (l + 1).bodd) old)
      (left : pending =
        (TrbRaw.writeInOrder m ((links.backTo buffer.ptr).setCycleBit (l + 1).bodd)).drop j)
      (link : LinkSlot links buffer.ptr l old)

/-- The controller at `dequeue` in its `f`-th lap has executed the first of `entries`, and
the others are in memory. -/
structure Delivery (m : Nat) (entries : List TrbRaw) (memory : Nat → TrbRaw)
    (executed : List TrbRaw) (dequeue : Nat) (ccs : Bool) : Prop where
  published : Published m TrbRaw.cycleBit memory entries executed.length
  inOrder : executed <+: entries
  bounded : entries.length ≤ executed.length + (m - 1)
  reader : ∃ f, executed.length = dequeue + m * f ∧ dequeue ≤ m ∧ ccs = !f.bodd

/-- What holds between any two steps. -/
structure Inv (links : LinkTrb) (buffer : TrbBuffer) (m : Nat) (s : Shared ProducerRing) :
    Prop where
  ring : s.ring = .after buffer m s.pushed.length
  notLink : ∀ trb ∈ s.pushed, links.isLink trb = false
  phase : Phase links buffer m s.memory s.pending s.pushed
  delivery : Delivery m (stamped (m + 1) (written (m + 1) s.pending s.pushed)) s.memory
    s.executed s.dequeue s.ccs

section Stamped

variable {n : Nat} {trbs : List TrbRaw}

@[simp] theorem length_stamped : (stamped n trbs).length = trbs.length := by
  simp [stamped]

theorem stamped_concat (trb : TrbRaw) :
    stamped n (trbs ++ [trb]) =
      stamped n trbs ++ [trb.setCycleBit (lapBit (n - 1) trbs.length)] := by
  simp [stamped, List.mapIdx_append]

theorem getElem_stamped {k : Nat} (hk : k < (stamped n trbs).length) :
    ∃ trb ∈ trbs, (stamped n trbs)[k] = trb.setCycleBit (lapBit (n - 1) k) := by
  rw [length_stamped] at hk
  exact ⟨trbs[k], List.getElem_mem hk, by simp [stamped]⟩

end Stamped

section Written

variable {pushed before : List TrbRaw} {trb : TrbRaw}

@[simp] theorem written_nil : written (m + 1) [] pushed = pushed := rfl

theorem written_link (j : Nat) :
    written (m + 1) ((TrbRaw.writeInOrder m trb).drop j) pushed = pushed := by
  have hslot : ((TrbRaw.writeInOrder m trb).drop j).any (fun d => d.slot != m + 1 - 1) = false := by
    rw [List.any_eq_false]
    intro d hd
    simp [slot_of_mem_writeInOrder (List.mem_of_mem_drop hd)]
  rw [written, hslot]
  rfl

theorem written_linkWrites (p : Nat) :
    written (m + 1) (ProducerRing.linkWrites links buffer m p) pushed = pushed := by
  rw [ProducerRing.linkWrites]
  split
  · exact written_link 0
  · exact written_nil

theorem written_trb (hm : 0 < m) {j : Nat} (hj : j < 4) (p : Nat) (cmd : TrbRaw)
    (rest : List WordWrite) :
    written (m + 1) ((TrbRaw.writeInOrder (p % m) trb).drop j ++ rest) (before ++ [cmd]) =
      before := by
  have hlt := Nat.mod_lt p hm
  have hslot : ((TrbRaw.writeInOrder (p % m) trb).drop j ++ rest).any
      (fun d => d.slot != m + 1 - 1) = true := by
    rw [writeInOrder_drop hj]
    simp
    omega
  rw [written, hslot, if_pos rfl, List.dropLast_concat]

end Written

/-- A fresh ring. -/
theorem Inv.start : Inv links buffer m (start (.new buffer)) where
  ring := by simp [Shared.start, ProducerRing.new, ProducerRing.after, lapBit]
  notLink := by simp [Shared.start]
  phase := .idle rfl ⟨by simp [Shared.start], by simp [Shared.start]⟩
  delivery := ⟨.init fun i _ => TrbRaw.cycleBit_zero, List.nil_prefix, Nat.zero_le _,
    0, rfl, Nat.zero_le m, rfl⟩

variable {s : Shared ProducerRing}

theorem Phase.link_of_idle {memory : Nat → TrbRaw} {pushed : List TrbRaw}
    (h : Phase links buffer m memory [] pushed) :
    LinkSlot links buffer.ptr (pushed.length / m) (memory m) := by
  cases h with
  | idle _ link => exact link
  | trb _ _ _ _ hj _ _ left _ => simp [writeInOrder_drop hj] at left
  | link _ _ _ hj _ _ left _ => simp [writeInOrder_drop hj] at left

/-- The call of `push` itself writes nothing. -/
theorem Inv.push (inv : Inv links buffer m s) (hlen : buffer.len = m + 1) (hm : 0 < m)
    (hidle : s.pending = []) {trb : TrbRaw} (hlink : links.isLink trb = false)
    {writes : List WordWrite} {ring : ProducerRing} {ptr : Nat}
    (h : s.ring.push links trb = .ok (writes, ring, ptr)) :
    Inv links buffer m
      { s with ring := ring, pending := writes, pushed := s.pushed ++ [trb] } := by
  rw [inv.ring, ProducerRing.push_after hlen hm] at h
  simp only [Except.ok.injEq, Prod.mk.injEq] at h
  obtain ⟨rfl, rfl, -⟩ := h
  have hphase := inv.phase
  have hdelivery := inv.delivery
  rw [hidle] at hphase hdelivery
  rw [written_nil] at hdelivery
  refine ⟨?_, ?_, ?_, ?_⟩
  · simp
  · intro t ht
    rw [List.mem_append, List.mem_singleton] at ht
    obtain ht | rfl := ht
    · exact inv.notLink t ht
    · exact hlink
  · exact .trb s.pushed trb _ 0 (by decide) rfl (TrbRaw.partlyWritten_zero _ _).symm rfl
      hphase.link_of_idle
  · exact (written_trb (j := 0) hm (by decide) ..).symm ▸ hdelivery

/-- A word of the TRB that is being pushed, other than the last. -/
theorem Delivery.prepare {entries executed : List TrbRaw} {memory : Nat → TrbRaw}
    {dequeue : Nat} {ccs : Bool} (h : Delivery m entries memory executed dequeue ccs) (hm : 0 < m)
    (trb : TrbRaw) (hbit : trb.cycleBit = (memory (entries.length % m)).cycleBit) :
    Delivery m entries (Function.update memory (entries.length % m) trb) executed dequeue ccs :=
  ⟨h.published.prepare (by have := h.bounded; omega) hbit, h.inOrder, h.bounded, h.reader⟩

/-- Its last word. -/
theorem Delivery.publish {entries executed : List TrbRaw} {memory : Nat → TrbRaw}
    {dequeue : Nat} {ccs : Bool} (h : Delivery m entries memory executed dequeue ccs) (hm : 0 < m)
    (trb : TrbRaw) (hbit : trb.cycleBit = lapBit m entries.length)
    (hbounded : entries.length + 1 ≤ executed.length + (m - 1)) :
    Delivery m (entries ++ [trb]) (Function.update memory (entries.length % m) trb) executed
      dequeue ccs :=
  ⟨h.published.publish (by omega) hm hbit, h.inOrder.trans (List.prefix_append _ _),
    by simpa using hbounded, h.reader⟩

/-- A word of the Link TRB. -/
theorem Delivery.outside {entries executed : List TrbRaw} {memory : Nat → TrbRaw}
    {dequeue : Nat} {ccs : Bool} (h : Delivery m entries memory executed dequeue ccs) (hm : 0 < m)
    (trb : TrbRaw) : Delivery m entries (Function.update memory m trb) executed dequeue ccs :=
  ⟨h.published.outside le_rfl hm trb, h.inOrder, h.bounded, h.reader⟩

/-- The TRB is in memory and the Link TRB, if this was the last of the lap, still to come. -/
theorem Phase.of_linkWrites {memory : Nat → TrbRaw} {pushed : List TrbRaw} {p : Nat} (hm : 0 < m)
    (hlength : pushed.length = p + 1) (link : LinkSlot links buffer.ptr (p / m) (memory m)) :
    Phase links buffer m memory (ProducerRing.linkWrites links buffer m p) pushed := by
  rw [ProducerRing.linkWrites]
  by_cases hend : p % m + 1 = m
  · obtain ⟨hmod, hdiv⟩ := succ_div_mod_of_eq hm hend
    have hlap : pushed.length = m * (p / m + 1) := by
      rw [hlength, ← hdiv, Nat.mul_div_cancel' (Nat.dvd_of_mod_eq_zero hmod)]
    have hbit : lapBit m p = (p / m + 1).bodd := by rw [lapBit, Nat.bodd_succ]
    rw [if_pos hmod, hbit]
    exact .link _ 0 _ (by decide) hlap (TrbRaw.partlyWritten_zero _ _).symm rfl link
  · obtain ⟨hmod, hdiv⟩ := succ_div_mod_of_ne hm hend
    rw [if_neg (by omega)]
    exact .idle rfl (by rwa [hlength, hdiv])

/-- The next word goes to memory. -/
theorem Inv.write (inv : Inv links buffer m s) (hm : 0 < m) {d : WordWrite}
    {rest : List WordWrite} (h : s.pending = d :: rest)
    (hbounded : Bounded (m + 1) { s with memory := d.apply s.memory, pending := rest }) :
    Inv links buffer m { s with memory := d.apply s.memory, pending := rest } := by
  have hdelivery := inv.delivery
  cases inv.phase with
  | idle done _ => simp [done] at h
  | trb before cmd old j hj latest slot left link =>
      have hlt := Nat.mod_lt before.length hm
      rw [left, latest, written_trb hm hj] at hdelivery
      rw [left, writeInOrder_drop hj, List.cons_append, List.cons.injEq] at h
      obtain ⟨rfl, rfl⟩ := h
      rw [apply_partlyWritten hj slot] at hbounded ⊢
      have hlink (trb : TrbRaw) : LinkSlot links buffer.ptr (before.length / m)
          (Function.update s.memory (before.length % m) trb m) := by
        rwa [Function.update_of_ne (by omega)]
      obtain hmore | rfl : j + 1 < 4 ∨ j = 3 := by omega
      · -- the cycle bit is still the old one
        refine ⟨inv.ring, inv.notLink, ?_, ?_⟩
        · exact .trb before cmd old (j + 1) hmore latest (Function.update_self ..) rfl (hlink _)
        · have hslot := congrArg TrbRaw.cycleBit slot
          rw [TrbRaw.cycleBit_partlyWritten (by omega)] at hslot
          have hprepared := hdelivery.prepare hm
            (.partlyWritten (j + 1) (cmd.setCycleBit (lapBit m before.length)) old)
            (by rw [TrbRaw.cycleBit_partlyWritten (by omega), length_stamped, hslot])
          simp only
          rw [latest, written_trb hm hmore]
          rwa [length_stamped] at hprepared
      · -- the last word hands the TRB over
        simp only [Nat.reduceAdd, writeInOrder_drop_four, List.nil_append,
          TrbRaw.partlyWritten_four, Bounded, written_linkWrites] at hbounded ⊢
        refine ⟨inv.ring, inv.notLink, ?_, ?_⟩
        · exact .of_linkWrites hm (by simp [latest]) (hlink _)
        · simp only [written_linkWrites]
          have hpublished := hdelivery.publish hm
            (cmd.setCycleBit (lapBit m before.length)) (by simp)
            (by simpa [latest] using hbounded)
          rw [length_stamped] at hpublished
          rwa [latest, stamped_concat]
  | link old j l hj lap slot left link =>
      rw [left, written_link] at hdelivery
      rw [left, writeInOrder_drop hj, List.cons.injEq] at h
      obtain ⟨rfl, rfl⟩ := h
      rw [apply_partlyWritten hj slot]
      obtain hmore | rfl : j + 1 < 4 ∨ j = 3 := by omega
      · refine ⟨inv.ring, inv.notLink, ?_, ?_⟩
        · exact .link old (j + 1) l hmore lap (Function.update_self ..) rfl link
        · simp only [written_link]
          exact hdelivery.outside hm _
      · refine ⟨inv.ring, inv.notLink, ?_, ?_⟩
        · refine .idle rfl ?_
          simp only [Function.update_self, Nat.reduceAdd, TrbRaw.partlyWritten_four, lap,
            Nat.mul_div_cancel_left _ hm]
          exact ⟨TrbRaw.cycleBit_setCycleBit .., fun _ => rfl⟩
        · simp only [written_link]
          exact hdelivery.outside hm _

/-- The Link TRB has been written once per completed lap, or is about to be for the last one. -/
theorem Phase.linkSlot {memory : Nat → TrbRaw} {pending : List WordWrite} {pushed : List TrbRaw}
    (h : Phase links buffer m memory pending pushed) (hm : 0 < m) :
    ∃ l, LinkSlot links buffer.ptr l (memory m) ∧
      (l = (written (m + 1) pending pushed).length / m ∨
        (written (m + 1) pending pushed).length = m * (l + 1)) := by
  cases h with
  | idle done link =>
      rw [done, written_nil]
      exact ⟨_, link, .inl rfl⟩
  | trb before cmd old j hj latest slot left link =>
      rw [left, latest, written_trb hm hj]
      exact ⟨_, link, .inl rfl⟩
  | link old j l hj lap slot left link =>
      rw [left, written_link, slot]
      exact ⟨l, link.partlyWritten (by omega) _, .inr lap⟩

section Controller

variable {entries executed : List TrbRaw} {memory : Nat → TrbRaw} {dequeue : Nat} {ccs : Bool}

/-- In front of a TRB slot the controller owns the slot exactly if it has something to
execute, and it is then the next entry. -/
theorem Delivery.owned_iff (h : Delivery m entries memory executed dequeue ccs)
    (hdeq : dequeue < m) :
    (memory dequeue).cycleBit = ccs ↔ executed.length < entries.length := by
  obtain ⟨f, hlength, -, rfl⟩ := h.reader
  have hm : 0 < m := by omega
  have hmod : executed.length % m = dequeue := by
    rw [hlength, Nat.add_mul_mod_self_left, Nat.mod_eq_of_lt hdeq]
  have hdiv : executed.length / m = f := by
    rw [hlength, Nat.add_mul_div_left _ _ hm, Nat.div_eq_of_lt hdeq, Nat.zero_add]
  have hbit := h.published.bit_eq_iff hm h.inOrder.length_le (by have := h.bounded; omega)
  rwa [hmod, lapBit, hdiv] at hbit

theorem Delivery.front (h : Delivery m entries memory executed dequeue ccs) (hdeq : dequeue < m)
    (hlt : executed.length < entries.length) : memory dequeue = entries[executed.length] := by
  obtain ⟨f, hlength, -, -⟩ := h.reader
  have hmod : executed.length % m = dequeue := by
    rw [hlength, Nat.add_mul_mod_self_left, Nat.mod_eq_of_lt hdeq]
  have hheld := h.published.held _ hlt le_rfl
  rwa [hmod] at hheld

theorem Delivery.execute (h : Delivery m entries memory executed dequeue ccs) (hdeq : dequeue < m)
    (hlt : executed.length < entries.length) :
    Delivery m entries memory (executed ++ [memory dequeue]) (dequeue + 1) ccs := by
  obtain ⟨f, hlength, -, hccs⟩ := h.reader
  refine ⟨?_, ?_, ?_, f, ?_, hdeq, hccs⟩
  · exact h.published.advance (by simp)
  · rw [h.front hdeq hlt]
    exact List.concat_get_prefix h.inOrder hlt
  · have := h.bounded
    simp only [List.length_append, List.length_singleton]
    omega
  · simp only [List.length_append, List.length_singleton]
    omega

theorem Delivery.follow (h : Delivery m entries memory executed m ccs) :
    Delivery m entries memory executed 0 (!ccs) := by
  obtain ⟨f, hlength, -, rfl⟩ := h.reader
  exact ⟨h.published, h.inOrder, h.bounded, f + 1, by rw [hlength, Nat.mul_succ]; omega,
    Nat.zero_le m, by simp⟩

end Controller

/-- In front of the Link TRB the controller either owns it, and it is a Link TRB, or it
does not, and everything written has been executed. -/
theorem Inv.at_link (inv : Inv links buffer m s) (hm : 0 < m) (hdeq : s.dequeue = m) :
    (s.memory m).cycleBit = s.ccs ∧ links.isLink (s.memory m) = true ∨
      (s.memory m).cycleBit ≠ s.ccs ∧
        s.executed.length = (written (m + 1) s.pending s.pushed).length := by
  obtain ⟨f, hlength, -, hccs⟩ := inv.delivery.reader
  have hle := inv.delivery.inOrder.length_le
  have hbounded := inv.delivery.bounded
  rw [length_stamped] at hle hbounded
  rw [hdeq] at hlength
  obtain ⟨l, slot, hlap⟩ := inv.phase.linkSlot hm
  generalize (written (m + 1) s.pending s.pushed).length = w at *
  obtain hl | hl := hlap
  · -- the Link TRB of the controller's lap is complete
    have hnext : l = f + 1 := by
      rw [hl]
      exact Nat.div_eq_of_lt_le (by rw [Nat.succ_mul, Nat.mul_comm]; omega)
        (by rw [Nat.succ_mul, Nat.succ_mul, Nat.mul_comm]; omega)
    rw [hnext] at slot
    rw [slot.bit, hccs, slot.link (Nat.succ_pos f), LinkTrb.isLink_backTo]
    exact .inl ⟨Nat.bodd_succ f, rfl⟩
  · -- the driver is just writing it
    have hsame : l = f := by
      rw [Nat.mul_succ] at hl
      have hlow : m * f < m * (l + 1) := by rw [Nat.mul_succ]; omega
      have hhigh : m * l < m * (f + 1) := by rw [Nat.mul_succ]; omega
      have := Nat.lt_of_mul_lt_mul_left hlow
      have := Nat.lt_of_mul_lt_mul_left hhigh
      omega
    subst hsame
    rw [slot.bit, hccs, hl, Nat.mul_succ]
    exact .inr ⟨by simp, by omega⟩

/-- The controller executes the TRB at its dequeue index. -/
theorem Inv.execute (inv : Inv links buffer m s) (hm : 0 < m)
    (owned : (s.memory s.dequeue).cycleBit = s.ccs)
    (notLink : links.isLink (s.memory s.dequeue) = false) :
    Inv links buffer m
      { s with executed := s.executed ++ [s.memory s.dequeue], dequeue := s.dequeue + 1 } := by
  obtain ⟨f, -, hdeq, -⟩ := inv.delivery.reader
  obtain hlast | hlt := Nat.eq_or_lt_of_le hdeq
  · rw [hlast] at owned notLink
    obtain ⟨-, link⟩ | ⟨hne, -⟩ := inv.at_link hm hlast
    · simp [link] at notLink
    · exact absurd owned hne
  · exact ⟨inv.ring, inv.notLink, inv.phase,
      inv.delivery.execute hlt ((inv.delivery.owned_iff hlt).mp owned)⟩

/-- The TRBs in front of the last slot are no Link TRBs. -/
theorem Inv.front_notLink (inv : Inv links buffer m s) (hlt : s.dequeue < m)
    (owned : (s.memory s.dequeue).cycleBit = s.ccs) :
    links.isLink (s.memory s.dequeue) = false := by
  have hlen := (inv.delivery.owned_iff hlt).mp owned
  obtain ⟨trb, htrb, heq⟩ := getElem_stamped hlen
  rw [inv.delivery.front hlt hlen, heq, links.isLink_setCycleBit]
  refine inv.notLink trb ?_
  rw [written] at htrb
  split at htrb
  · exact List.mem_of_mem_dropLast htrb
  · exact htrb

/-- The controller follows the Link TRB. -/
theorem Inv.follow (inv : Inv links buffer m s)
    (owned : (s.memory s.dequeue).cycleBit = s.ccs)
    (link : links.isLink (s.memory s.dequeue) = true) :
    Inv links buffer m { s with dequeue := 0, ccs := !s.ccs } := by
  obtain ⟨f, -, hdeq, -⟩ := inv.delivery.reader
  obtain hlast | hlt := Nat.eq_or_lt_of_le hdeq
  · have hdelivery := inv.delivery
    rw [hlast] at hdelivery
    exact ⟨inv.ring, inv.notLink, inv.phase, hdelivery.follow⟩
  · simp [inv.front_notLink hlt owned] at link

theorem Inv.step (inv : Inv links buffer m s) (hlen : buffer.len = m + 1) (hm : 0 < m)
    {i : Label} {t : Shared ProducerRing} (h : Step links (ProducerRing.push links) s i t)
    (hbounded : t.Bounded (m + 1)) : Inv links buffer m t := by
  cases h with
  | push idle notLink h => exact inv.push hlen hm idle notLink h
  | write h => exact inv.write hm h hbounded
  | execute owned notLink => exact inv.execute hm owned notLink
  | follow owned link => exact inv.follow owned link

section Wrapped

variable {ρ : Type} {push : ρ → TrbRaw → Rust (List WordWrite × ρ × Nat)}
  {core : ρ → ProducerRing}

/-- A ring type whose `push` is that of its three common fields. -/
structure Wraps (links : LinkTrb) (push : ρ → TrbRaw → Rust (List WordWrite × ρ × Nat))
    (core : ρ → ProducerRing) : Prop where
  core_push : ∀ {r trb writes r' ptr}, push r trb = .ok (writes, r', ptr) →
    (core r).push links trb = .ok (writes, core r', ptr)
  push_total : ∀ {r trb x}, (core r).push links trb = .ok x → ∃ y, push r trb = .ok y

def onCore (core : ρ → ProducerRing) (s : Shared ρ) : Shared ProducerRing :=
  { s with ring := core s.ring }

theorem Step.onCore (wraps : Wraps links push core) {s t : Shared ρ} {i : Label}
    (h : Step links push s i t) :
    Step links (ProducerRing.push links) (s.onCore core) i (t.onCore core) := by
  cases h with
  | push idle notLink h => exact .push idle notLink (wraps.core_push h)
  | write h => exact .write h
  | execute owned notLink => exact .execute owned notLink
  | follow owned link => exact .follow owned link

theorem Inv.of_reachable (wraps : Wraps links push core) {ring : ρ}
    (hring : core ring = .new buffer) (hlen : buffer.len = m + 1) (hm : 0 < m) {s : Shared ρ}
    (hs : (system links push ring (m + 1)).Reachable s) : Inv links buffer m (s.onCore core) := by
  apply hs.invariant
  · rintro s rfl
    rw [onCore, Shared.start, hring]
    exact .start
  · intro s i t _ inv ⟨h, hbounded⟩
    exact inv.step hlen hm (h.onCore wraps) hbounded

/-- Steps of the controller alone. -/
def ControllerRun (links : LinkTrb) (push : ρ → TrbRaw → Rust (List WordWrite × ρ × Nat)) :
    Shared ρ → Shared ρ → Prop :=
  Relation.ReflTransGen fun s t => ∃ i : Label, i.isController = true ∧ Step links push s i t

/-- Left alone, the controller executes everything that has been written. The induction is
on the number of unexecuted TRBs; a Link TRB may stand before the next one. -/
theorem Inv.drains (hm : 0 < m) (k : Nat) : ∀ s : Shared ρ, Inv links buffer m (s.onCore core) →
    (written (m + 1) s.pending s.pushed).length = s.executed.length + k →
    ∃ t, ControllerRun links push s t ∧
      t.executed = stamped (m + 1) (written (m + 1) s.pending s.pushed) := by
  induction k with
  | zero =>
      intro s inv hk
      refine ⟨s, .refl, inv.delivery.inOrder.eq_of_length ?_⟩
      rw [length_stamped]
      exact hk.symm
  | succ k ih =>
      have hexecute (s : Shared ρ) (inv : Inv links buffer m (s.onCore core))
          (hlt : s.dequeue < m)
          (hk : (written (m + 1) s.pending s.pushed).length = s.executed.length + (k + 1)) :
          ∃ t, ControllerRun links push s t ∧
            t.executed = stamped (m + 1) (written (m + 1) s.pending s.pushed) := by
        have hmore : s.executed.length < (written (m + 1) s.pending s.pushed).length := by omega
        have owned := (inv.delivery.owned_iff hlt).mpr (by rw [length_stamped]; exact hmore)
        have notLink := inv.front_notLink hlt owned
        obtain ⟨t, run, ht⟩ := ih
          { s with executed := s.executed ++ [s.memory s.dequeue], dequeue := s.dequeue + 1 }
          (inv.execute hm owned notLink) (by simp; omega)
        exact ⟨t, .head ⟨.execute, rfl, .execute owned notLink⟩ run, ht⟩
      intro s inv hk
      obtain ⟨f, -, hdeq, -⟩ := inv.delivery.reader
      obtain hlast | hlt := Nat.eq_or_lt_of_le hdeq
      · obtain ⟨owned, link⟩ | ⟨-, hdone⟩ := inv.at_link hm hlast
        · rw [← hlast] at owned link
          obtain ⟨t, run, ht⟩ := hexecute { s with dequeue := 0, ccs := !s.ccs }
            (inv.follow owned link) hm hk
          exact ⟨t, .head ⟨.follow, rfl, .follow owned link⟩ run, ht⟩
        · simp only [Shared.onCore] at hdone
          omega
      · exact hexecute s inv hlt hk

/-- What the two parties rely on between any two steps. -/
structure Safe (links : LinkTrb) (push : ρ → TrbRaw → Rust (List WordWrite × ρ × Nat)) (n : Nat)
    (s : Shared ρ) : Prop where
  /-- The driver can push without a panic. -/
  ready : s.pending = [] → ∀ trb, ∃ x, push s.ring trb = .ok x
  /-- The executed TRBs are the first of the pushed ones, each with all its words and the
  cycle bit of its lap. -/
  inOrder : s.executed <+: stamped n (written n s.pending s.pushed)
  /-- A controller that can do nothing has executed everything pushed. -/
  complete : (∀ i t, Label.isController i = true → ¬ Step links push s i t) →
    s.executed = stamped n (written n s.pending s.pushed)
  /-- The controller always gets to a point where it can do nothing. -/
  drains : ∃ t, ControllerRun links push s t ∧
    t.executed = stamped n (written n s.pending s.pushed)

theorem safe_of_reachable (wraps : Wraps links push core) {ring : ρ}
    (hring : core ring = .new buffer) (hlen : 3 ≤ buffer.len) {s : Shared ρ}
    (hs : (system links push ring buffer.len).Reachable s) : Safe links push buffer.len s := by
  obtain ⟨m, hm⟩ := Nat.exists_eq_add_of_le' (by omega : 1 ≤ buffer.len)
  have hpos : 0 < m := by omega
  rw [hm] at hs ⊢
  have inv := Inv.of_reachable wraps hring hm hpos hs
  obtain ⟨k, hk⟩ := Nat.exists_eq_add_of_le inv.delivery.inOrder.length_le
  rw [length_stamped] at hk
  have hdrains : ∃ t, ControllerRun links push s t ∧ _ := Inv.drains hpos k s inv hk
  refine ⟨?_, inv.delivery.inOrder, ?_, hdrains⟩
  · intro _ trb
    have hring := congrArg (ProducerRing.push links · trb) inv.ring
    exact wraps.push_total (hring.trans (ProducerRing.push_after hm hpos s.pushed.length trb))
  · intro hstuck
    obtain ⟨t, run, ht⟩ := hdrains
    obtain rfl | ⟨u, ⟨i, hi, h⟩, -⟩ := run.cases_head
    · exact ht
    · exact absurd h (hstuck i u hi)

end Wrapped

end Shared

theorem CommandRing.push_wraps (links : LinkTrb) :
    Shared.Wraps links (CommandRing.push links) CommandRing.toProducerRing where
  core_push h := by
    obtain ⟨⟨writes, ring, ptr⟩, hcore, heq⟩ := Rust.bind_eq_ok.mp h
    simp only [Except.ok.injEq, Prod.mk.injEq] at heq
    obtain ⟨rfl, rfl, rfl⟩ := heq
    exact hcore
  push_total h := ⟨_, Rust.bind_eq_ok.mpr ⟨_, h, rfl⟩⟩

theorem TransferRing.push_wraps (links : LinkTrb) :
    Shared.Wraps links (TransferRing.push links) TransferRing.toProducerRing where
  core_push h := by
    obtain ⟨⟨writes, ring, ptr⟩, hcore, heq⟩ := Rust.bind_eq_ok.mp h
    simp only [Except.ok.injEq, Prod.mk.injEq] at heq
    obtain ⟨rfl, rfl, rfl⟩ := heq
    exact hcore
  push_total h := ⟨_, Rust.bind_eq_ok.mpr ⟨_, h, rfl⟩⟩

namespace Shared

/-- For both producer rings, whatever the order of pushes, word writes and controller
steps: the controller executes exactly the pushed TRBs, in push order, never one that is
half written, and none is lost. -/
theorem producer_rings_deliver (links : LinkTrb) (buffer : TrbBuffer) (hlen : 3 ≤ buffer.len) :
    (∀ s, (system links (CommandRing.push links) (.new buffer) buffer.len).Reachable s →
      s.Safe links (CommandRing.push links) buffer.len) ∧
    (∀ s, (system links (TransferRing.push links) (.new buffer) buffer.len).Reachable s →
      s.Safe links (TransferRing.push links) buffer.len) :=
  ⟨fun _ hs => safe_of_reachable (CommandRing.push_wraps links) rfl hlen hs,
    fun _ hs => safe_of_reachable (TransferRing.push_wraps links) rfl hlen hs⟩

/-- A ring of three slots in the middle of its first push, a No Op command. -/
theorem producer_rings_deliver_noop :
    let buffer : TrbBuffer := ⟨0x1000, 3, by decide⟩
    let noop : TrbRaw := ⟨#v[0, 0, 0, 0x5c00]⟩
    let s : Shared CommandRing :=
      { start (CommandRing.new buffer) with
        ring := ⟨⟨buffer, 1, true⟩⟩
        pending := TrbRaw.writeInOrder 0 ⟨#v[0, 0, 0, 0x5c01]⟩
        pushed := [noop] }
    (system .xhci (CommandRing.push .xhci) (.new buffer) 3).Reachable s ∧
      s.Safe .xhci (CommandRing.push .xhci) 3 := by
  intro buffer noop s
  have hstamped : noop.setCycleBit true = ⟨#v[0, 0, 0, 0x5c01]⟩ := by decide
  have hcall : (CommandRing.new buffer).push .xhci noop =
      .ok (TrbRaw.writeInOrder 0 ⟨#v[0, 0, 0, 0x5c01]⟩, ⟨⟨buffer, 1, true⟩⟩, 0x1000) := by
    rw [← hstamped]
    rfl
  have hpush : Step .xhci (CommandRing.push .xhci) (start (.new buffer)) (.push noop) s :=
    .push rfl (by decide) hcall
  have hs : (system .xhci (CommandRing.push .xhci) (.new buffer) 3).Reachable s :=
    .step (.init rfl) ⟨hpush, Nat.zero_le _⟩
  exact ⟨hs, (producer_rings_deliver .xhci buffer (by decide)).1 s hs⟩

end Shared

end LemolaOs.Xhci
