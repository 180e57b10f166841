import LemolaOs.Rust

/-!
# Transfer request blocks

A TRB is four 32-bit words. The least significant bit of the last word is the
cycle bit, which hands the TRB over between the driver and the controller
(`TrbRaw::toggle_cycle_bit` names the position). The rings are memory shared with
the controller, so `write_in_order` is modelled by the volatile writes that it
makes, one for each word, and not by its net effect.

The `xhci` crate is not part of the repository. What the rings use of its Link
TRB is collected in `LinkTrb`, and what they use of its Normal TRB in `NormalTrb`.
`Event` is what it makes of an event TRB.
-/

namespace LemolaOs.Xhci

/-- `u32::get_bit(0)` of `bit_field`. -/
def getBit0 (word : UInt32) : Bool := word &&& 1 == 1

/-- `u32::set_bit(0, value)`. -/
def setBit0 (word : UInt32) (value : Bool) : UInt32 :=
  if value then word ||| 1 else word &&& ~~~1

theorem getBit0_setBit0 (word : UInt32) (value : Bool) :
    getBit0 (setBit0 word value) = value := by
  cases value with
  | false => simp [getBit0, setBit0, UInt32.and_assoc]
  | true =>
      have h : (word ||| 1) &&& 1 = 1 := by
        apply UInt32.toBitVec_inj.mp
        simp
        ext i hi
        simp
        grind
      simp [getBit0, setBit0, h]

/-- The TRB type does not contain the cycle bit. -/
theorem setBit0_shiftRight (word : UInt32) (value : Bool) :
    setBit0 word value >>> 10 = word >>> 10 := by
  cases value with
  | false =>
      have hmask : (~~~1 : UInt32) >>> 10 = (-1 : UInt32) >>> 10 := by decide
      simp only [setBit0, Bool.false_eq_true, if_false]
      rw [UInt32.shiftRight_and, hmask, ← UInt32.shiftRight_and, UInt32.and_neg_one]
  | true =>
      have hbit : (1 : UInt32) >>> 10 = 0 := by decide
      rw [setBit0, if_pos rfl, UInt32.shiftRight_or, hbit, UInt32.or_zero]

/-- `TrbRaw([u32; 4])`. -/
structure TrbRaw where
  words : Vector UInt32 4
  deriving DecidableEq

namespace TrbRaw

@[ext] theorem ext_words {a b : TrbRaw} (h : ∀ k : Fin 4, a.words[k] = b.words[k]) : a = b := by
  obtain ⟨a⟩ := a
  obtain ⟨b⟩ := b
  congr 1
  ext k hk
  exact congrArg UInt32.toNat (h ⟨k, hk⟩)

/-- `TrbRaw::new_unchecked([0u32; 4])`, with which the ring buffers are filled. -/
def zero : TrbRaw := ⟨.replicate 4 0⟩

def cycleBit (trb : TrbRaw) : Bool := getBit0 trb.words[3]

/-- `set_cycle_bit()` and `clear_cycle_bit()` of a TRB, by the value of the bit. -/
def setCycleBit (trb : TrbRaw) (bit : Bool) : TrbRaw :=
  ⟨trb.words.set 3 (setBit0 trb.words[3] bit)⟩

/-- The TRB in memory after one of its words has been written. -/
def writeWord (trb : TrbRaw) (k : Fin 4) (value : UInt32) : TrbRaw := ⟨trb.words.set k value⟩

@[simp] theorem cycleBit_zero : zero.cycleBit = false := by decide

@[simp] theorem cycleBit_setCycleBit (trb : TrbRaw) (bit : Bool) :
    (trb.setCycleBit bit).cycleBit = bit := by
  simp [cycleBit, setCycleBit, getBit0_setBit0]

/-- The TRB in memory when the first `j` words of `trb` have been written over `old`. -/
def partlyWritten (j : Nat) (trb old : TrbRaw) : TrbRaw :=
  ⟨.ofFn fun k => if k < j then trb.words[k] else old.words[k]⟩

@[simp] theorem partlyWritten_zero (trb old : TrbRaw) : partlyWritten 0 trb old = old := by
  ext k
  simp [partlyWritten]

@[simp] theorem partlyWritten_four (trb old : TrbRaw) : partlyWritten 4 trb old = trb := by
  ext k
  simp [partlyWritten]

theorem writeWord_partlyWritten (j : Fin 4) (trb old : TrbRaw) :
    (partlyWritten j trb old).writeWord j trb.words[j] = partlyWritten (j + 1) trb old := by
  ext k
  simp only [partlyWritten, writeWord, Fin.getElem_fin, Vector.getElem_set, Vector.getElem_ofFn]
  grind

/-- Only the last word carries the cycle bit. -/
theorem cycleBit_partlyWritten {j : Nat} (hj : j ≤ 3) (trb old : TrbRaw) :
    (partlyWritten j trb old).cycleBit = old.cycleBit := by
  simp [partlyWritten, cycleBit, Nat.not_lt.mpr hj]

/-- A TRB written over itself with the other cycle bit does not change before the
last word. -/
theorem partlyWritten_setCycleBit {j : Nat} (hj : j ≤ 3) (trb : TrbRaw) (b c : Bool) :
    partlyWritten j (trb.setCycleBit b) (trb.setCycleBit c) = trb.setCycleBit c := by
  ext k
  simp only [partlyWritten, setCycleBit, Fin.getElem_fin, Vector.getElem_set, Vector.getElem_ofFn]
  grind

end TrbRaw

/-- One `write_volatile` of a word of a ring slot. -/
structure WordWrite where
  slot : Nat
  word : Fin 4
  value : UInt32
  deriving DecidableEq

def WordWrite.apply (d : WordWrite) (memory : Nat → TrbRaw) : Nat → TrbRaw :=
  Function.update memory d.slot ((memory d.slot).writeWord d.word d.value)

/-- `TrbRaw::write_in_order` on the given slot: the words go out one by one, the one
with the cycle bit last. -/
def TrbRaw.writeInOrder (slot : Nat) (another : TrbRaw) : List WordWrite :=
  (List.finRange 4).map fun k => ⟨slot, k, another.words[k]⟩

/-- `TrbRaw::toggle_cycle_bit` on the given slot: the one word it writes. -/
def TrbRaw.toggleCycleBit (slot : Nat) (trb : TrbRaw) : WordWrite :=
  ⟨slot, 3, setBit0 trb.words[3] (!trb.cycleBit)⟩

/-- What the rings use of `trb::Link`, and how the controller recognises one. The TRB
type does not depend on the cycle bit, and a Link TRB stays one when its fields are set. -/
structure LinkTrb where
  new : TrbRaw
  setRingSegmentPointer : TrbRaw → Nat → TrbRaw
  setToggleCycle : TrbRaw → TrbRaw
  isLink : TrbRaw → Bool
  isLink_setCycleBit : ∀ trb bit, isLink (trb.setCycleBit bit) = isLink trb
  isLink_new : isLink new = true
  isLink_setRingSegmentPointer : ∀ trb ptr, isLink (setRingSegmentPointer trb ptr) = isLink trb
  isLink_setToggleCycle : ∀ trb, isLink (setToggleCycle trb) = isLink trb

namespace LinkTrb

/-- The Link TRB back to the start of the ring at `ptr`, before its cycle bit is set. -/
def backTo (links : LinkTrb) (ptr : Nat) : TrbRaw :=
  links.setToggleCycle (links.setRingSegmentPointer links.new ptr)

@[simp] theorem isLink_backTo (links : LinkTrb) (ptr : Nat) (bit : Bool) :
    links.isLink ((links.backTo ptr).setCycleBit bit) = true := by
  rw [links.isLink_setCycleBit, backTo, links.isLink_setToggleCycle,
    links.isLink_setRingSegmentPointer, links.isLink_new]

/-- The layout of the specification: the pointer in the first two words, Toggle Cycle in
bit 1 and the TRB type 6 in bits 10 to 15 of the last. -/
def xhci : LinkTrb where
  new := ⟨#v[0, 0, 0, 0x1800]⟩
  setRingSegmentPointer trb ptr :=
    ⟨(trb.words.set 0 (UInt32.ofNat ptr)).set 1 (UInt32.ofNat (ptr / 2 ^ 32))⟩
  setToggleCycle trb := ⟨trb.words.set 3 (trb.words[3] ||| 2)⟩
  isLink trb := (trb.words[3] >>> 10) &&& 0x3f == 6
  isLink_setCycleBit := by
    intro trb bit
    simp [TrbRaw.setCycleBit, setBit0_shiftRight]
  isLink_new := by decide
  isLink_setRingSegmentPointer := by
    intro trb ptr
    simp
  isLink_setToggleCycle := by
    intro trb
    have hbit : (2 : UInt32) >>> 10 = 0 := by decide
    simp [UInt32.shiftRight_or, hbit]

end LinkTrb

/-- What the ring uses of `transfer::Normal`, and what `transfer::Allowed::try_from`
accepts. Setting a field leaves the TRB type and the other fields as they are. -/
structure NormalTrb (links : LinkTrb) where
  new : TrbRaw
  setDataBufferPointer : TrbRaw → UInt64 → TrbRaw
  setTrbTransferLength : TrbRaw → UInt32 → TrbRaw
  setTdSize : TrbRaw → UInt8 → TrbRaw
  setInterruptOnCompletion : TrbRaw → TrbRaw
  setInterruptOnShortPacket : TrbRaw → TrbRaw
  setInterrupterTarget : TrbRaw → UInt16 → TrbRaw
  isAllowed : TrbRaw → Bool
  isNormal : TrbRaw → Bool
  dataBufferPointer : TrbRaw → UInt64
  isNormal_new : isNormal new = true
  isNormal_setDataBufferPointer : ∀ trb p, isNormal (setDataBufferPointer trb p) = isNormal trb
  pointer_setDataBufferPointer : ∀ trb p, dataBufferPointer (setDataBufferPointer trb p) = p
  keeps_setTrbTransferLength : ∀ trb len,
    isNormal (setTrbTransferLength trb len) = isNormal trb ∧
      dataBufferPointer (setTrbTransferLength trb len) = dataBufferPointer trb
  keeps_setTdSize : ∀ trb size,
    isNormal (setTdSize trb size) = isNormal trb ∧
      dataBufferPointer (setTdSize trb size) = dataBufferPointer trb
  keeps_setInterruptOnCompletion : ∀ trb,
    isNormal (setInterruptOnCompletion trb) = isNormal trb ∧
      dataBufferPointer (setInterruptOnCompletion trb) = dataBufferPointer trb
  keeps_setInterruptOnShortPacket : ∀ trb,
    isNormal (setInterruptOnShortPacket trb) = isNormal trb ∧
      dataBufferPointer (setInterruptOnShortPacket trb) = dataBufferPointer trb
  keeps_setInterrupterTarget : ∀ trb target,
    isNormal (setInterrupterTarget trb target) = isNormal trb ∧
      dataBufferPointer (setInterrupterTarget trb target) = dataBufferPointer trb
  keeps_setCycleBit : ∀ trb bit,
    isNormal (trb.setCycleBit bit) = isNormal trb ∧
      dataBufferPointer (trb.setCycleBit bit) = dataBufferPointer trb
  isAllowed_of_isNormal : ∀ trb, isNormal trb = true → isAllowed trb = true
  isLink_of_isNormal : ∀ trb, isNormal trb = true → links.isLink trb = false

namespace NormalTrb

variable {links : LinkTrb} (normals : NormalTrb links)

/-- The TRB that `fill_with_normal` builds for the data buffer at `buf`. -/
def filled (buf : UInt64) (bufSize : Nat) : TrbRaw :=
  let normal := normals.setDataBufferPointer normals.new buf
  let normal := normals.setTrbTransferLength normal (UInt32.ofNat bufSize)
  let normal := normals.setTdSize normal 0
  let normal := normals.setInterruptOnCompletion normal
  let normal := normals.setInterruptOnShortPacket normal
  normals.setInterrupterTarget normal 0

@[simp] theorem isNormal_filled (buf : UInt64) (bufSize : Nat) (bit : Bool) :
    normals.isNormal ((normals.filled buf bufSize).setCycleBit bit) = true := by
  rw [(normals.keeps_setCycleBit _ _).1, filled, (normals.keeps_setInterrupterTarget _ _).1,
    (normals.keeps_setInterruptOnShortPacket _).1, (normals.keeps_setInterruptOnCompletion _).1,
    (normals.keeps_setTdSize _ _).1, (normals.keeps_setTrbTransferLength _ _).1,
    normals.isNormal_setDataBufferPointer, normals.isNormal_new]

@[simp] theorem dataBufferPointer_filled (buf : UInt64) (bufSize : Nat) (bit : Bool) :
    normals.dataBufferPointer ((normals.filled buf bufSize).setCycleBit bit) = buf := by
  rw [(normals.keeps_setCycleBit _ _).2, filled, (normals.keeps_setInterrupterTarget _ _).2,
    (normals.keeps_setInterruptOnShortPacket _).2, (normals.keeps_setInterruptOnCompletion _).2,
    (normals.keeps_setTdSize _ _).2, (normals.keeps_setTrbTransferLength _ _).2,
    normals.pointer_setDataBufferPointer]

@[simp] theorem isAllowed_filled (buf : UInt64) (bufSize : Nat) (bit : Bool) :
    normals.isAllowed ((normals.filled buf bufSize).setCycleBit bit) = true :=
  normals.isAllowed_of_isNormal _ (normals.isNormal_filled buf bufSize bit)

@[simp] theorem isLink_filled (buf : UInt64) (bufSize : Nat) (bit : Bool) :
    links.isLink ((normals.filled buf bufSize).setCycleBit bit) = false :=
  normals.isLink_of_isNormal _ (normals.isNormal_filled buf bufSize bit)

/-- The layout of the specification: the pointer in the first two words, the length, the TD
size and the interrupter target in the third, Interrupt on Short Packet in bit 2, Interrupt
on Completion in bit 5 and the TRB type 1 in bits 10 to 15 of the last. The types 1 to 8 are
those of transfer TRBs. -/
def xhci : NormalTrb .xhci where
  new := ⟨#v[0, 0, 0, 0x400]⟩
  setDataBufferPointer trb p :=
    ⟨(trb.words.set 0 (UInt32.ofNat p.toNat)).set 1 (UInt32.ofNat (p.toNat / 2 ^ 32))⟩
  setTrbTransferLength trb len :=
    ⟨trb.words.set 2 ((trb.words[2] &&& 0xfffe0000) ||| (len &&& 0x1ffff))⟩
  setTdSize trb size :=
    ⟨trb.words.set 2
      ((trb.words[2] &&& 0xffc1ffff) ||| (size.toUInt32 &&& 0x1f) <<< (17 : UInt32))⟩
  setInterruptOnCompletion trb := ⟨trb.words.set 3 (trb.words[3] ||| 32)⟩
  setInterruptOnShortPacket trb := ⟨trb.words.set 3 (trb.words[3] ||| 4)⟩
  setInterrupterTarget trb target :=
    ⟨trb.words.set 2 ((trb.words[2] &&& 0x3fffff) ||| target.toUInt32 <<< (22 : UInt32))⟩
  isAllowed trb :=
    let trbType := (trb.words[3] >>> 10) &&& 0x3f
    1 ≤ trbType && trbType ≤ 8
  isNormal trb := (trb.words[3] >>> 10) &&& 0x3f == 1
  dataBufferPointer trb := UInt64.ofNat (trb.words[0].toNat + trb.words[1].toNat * 2 ^ 32)
  isNormal_new := by decide
  isNormal_setDataBufferPointer := by
    intro trb p
    simp
  pointer_setDataBufferPointer := by
    intro trb p
    have hlt := p.toNat_lt
    have hsplit : p.toNat % 2 ^ 32 + p.toNat / 2 ^ 32 % 2 ^ 32 * 2 ^ 32 = p.toNat := by omega
    simp only [Vector.getElem_set_self, Vector.getElem_set_ne, ne_eq, one_ne_zero,
      not_false_eq_true, UInt32.toNat_ofNat']
    rw [hsplit, UInt64.ofNat_toNat]
  keeps_setTrbTransferLength := by
    intro trb len
    simp
  keeps_setTdSize := by
    intro trb size
    simp
  keeps_setInterruptOnCompletion := by
    intro trb
    have hbit : (32 : UInt32) >>> 10 = 0 := by decide
    simp [UInt32.shiftRight_or, hbit]
  keeps_setInterruptOnShortPacket := by
    intro trb
    have hbit : (4 : UInt32) >>> 10 = 0 := by decide
    simp [UInt32.shiftRight_or, hbit]
  keeps_setInterrupterTarget := by
    intro trb target
    simp
  keeps_setCycleBit := by
    intro trb bit
    simp [TrbRaw.setCycleBit, setBit0_shiftRight]
  isAllowed_of_isNormal := by
    intro trb h
    rw [beq_iff_eq] at h
    simp [h]
  isLink_of_isNormal := by
    intro trb h
    rw [beq_iff_eq] at h
    simp [LinkTrb.xhci, h]

end NormalTrb

structure TransferEvent where
  trbPointer : Nat
  slotId : Nat
  completionCode : Nat
  deriving DecidableEq, Repr

structure CommandCompletion where
  commandTrbPointer : Nat
  slotId : Nat
  completionCode : Nat
  deriving DecidableEq, Repr

structure PortStatusChange where
  portId : Nat
  deriving DecidableEq, Repr

/-- `event::Allowed`. The driver looks only into the first three. -/
inductive Event where
  | transferEvent (event : TransferEvent)
  | commandCompletion (event : CommandCompletion)
  | portStatusChange (event : PortStatusChange)
  | bandwidthRequest
  | doorbell
  | hostController
  | deviceNotification
  | mfindexWrap
  deriving DecidableEq, Repr

/-- The layout of the specification: the TRB type in bits 10 to 15 of the last word, the
pointer in the first two, the completion code and the slot in the top bytes of the last two. -/
def Event.xhci (trb : TrbRaw) : Option Event :=
  let pointer := trb.words[0].toNat + trb.words[1].toNat * 2 ^ 32
  let completionCode := (trb.words[2] >>> 24).toNat
  let slotId := (trb.words[3] >>> 24).toNat
  match ((trb.words[3] >>> 10) &&& 0x3f).toNat with
  | 32 => some (.transferEvent ⟨pointer, slotId, completionCode⟩)
  | 33 => some (.commandCompletion ⟨pointer, slotId, completionCode⟩)
  | 34 => some (.portStatusChange ⟨(trb.words[0] >>> 24).toNat⟩)
  | 35 => some .bandwidthRequest
  | 36 => some .doorbell
  | 37 => some .hostController
  | 38 => some .deviceNotification
  | 39 => some .mfindexWrap
  | _ => none

end LemolaOs.Xhci
