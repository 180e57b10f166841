import LemolaOs.Usb.Host
import LemolaOs.Xhci.ProducerRing

/-!
# The stages of a control transfer

`push_control_transfer` of `kernel/src/usb/device.rs` makes two or three TRBs of a request: the
setup stage, which carries the eight bytes of the request itself, a data stage if there is a buffer
to be filled, and the status stage. `setup_packet.rs` turns the request into its bytes.

The TRB types of the `xhci` crate are not part of the repository. What is used of them is
`StageTrbs`.
-/

namespace LemolaOs.Usb

open Xhci (TrbRaw LinkTrb)

/-- The byte that a request code of `usb_host` is in memory. -/
def RequestCode.toByte : RequestCode → UInt8
  | .getStatus => 0
  | .clearFeature => 1
  | .setFeature => 3
  | .getDescriptor => 6
  | .setConfiguration => 9
  | .getInterface => 10
  | .setInterface => 11

structure SetupPacketRaw where
  bmRequestType : UInt8
  bRequest : UInt8
  wValue : UInt16
  wIndex : UInt16
  wLength : UInt16
  deriving DecidableEq, Repr

/-- `SetupPacketRaw::from`. -/
def SetupPacketRaw.of (request : ControlRequest) (wLength : UInt16) : SetupPacketRaw :=
  ⟨UInt8.ofNat request.requestType.toByte, request.requestCode.toByte, request.value,
    request.index, wLength⟩

/-- `transfer::TransferType`, which the setup stage has. -/
inductive StageTransferType where
  | no
  | out
  | in
  deriving DecidableEq, Repr

/-- The fields of the TRBs that are set. -/
inductive StageTrb where
  | setup (packet : SetupPacketRaw) (transferType : StageTransferType)
  | data (pointer : UInt64) (length : UInt32) (direction : Direction) (interrupt : Bool)
  | status (direction : Direction) (interrupt : Bool)
  deriving DecidableEq, Repr

namespace StageTrb

/-- The length field of a data stage has 17 bits. -/
def Fits : StageTrb → Prop
  | .data _ length _ _ => length.toNat < 2 ^ 17
  | .setup _ _ | .status _ _ => True

/-- Interrupt on Completion. -/
def interrupts : StageTrb → Bool
  | .setup _ _ => false
  | .data _ _ _ interrupt | .status _ interrupt => interrupt

end StageTrb

/-- What is used of `transfer::SetupStage`, `DataStage` and `StatusStage`, and how the controller
reads one. -/
structure StageTrbs (links : LinkTrb) where
  encode : StageTrb → TrbRaw
  decode : TrbRaw → Option StageTrb
  isLink_encode : ∀ trb, links.isLink (encode trb) = false
  decode_encode : ∀ trb bit, trb.Fits → decode ((encode trb).setCycleBit bit) = some trb

/-- A request and the buffer that is to be filled, the arguments of `async_control_transfer`. -/
structure ControlTransfer where
  request : ControlRequest
  buf : Option (UInt64 × Nat)
  deriving DecidableEq, Repr

namespace ControlTransfer

/-- `buf.len() as u16`, or 0. -/
def wLength (transfer : ControlTransfer) : UInt16 :=
  (transfer.buf.map fun buf => UInt16.ofNat buf.2).getD 0

def setupPacket (transfer : ControlTransfer) : SetupPacketRaw :=
  .of transfer.request transfer.wLength

/-- The TRBs that `push_control_transfer` pushes. -/
def stages (transfer : ControlTransfer) : List StageTrb :=
  match transfer.buf with
  | some (pointer, len) =>
      [.setup transfer.setupPacket .in,
        .data pointer (UInt32.ofNat len) .in true,
        .status .out false]
  | none => [.setup transfer.setupPacket .no, .status .in true]

/-- The length of the buffer is the length of the request. No caller has a longer buffer. -/
def Fits (transfer : ControlTransfer) : Prop := ∀ buf ∈ transfer.buf, buf.2 < 2 ^ 16

instance (transfer : ControlTransfer) : Decidable transfer.Fits :=
  inferInstanceAs (Decidable (∀ buf ∈ transfer.buf, buf.2 < 2 ^ 16))

variable {transfer : ControlTransfer}

theorem length_stages_le (transfer : ControlTransfer) : transfer.stages.length ≤ 3 := by
  rw [stages]
  split
  · exact le_rfl
  · exact Nat.le_succ 2

theorem fits_of_mem_stages (h : transfer.Fits) {trb : StageTrb} (hmem : trb ∈ transfer.stages) :
    trb.Fits := by
  rw [stages] at hmem
  split at hmem
  next pointer len hbuf =>
    simp only [List.mem_cons, List.not_mem_nil, or_false] at hmem
    obtain rfl | rfl | rfl := hmem
    · trivial
    · have hlen : len < 2 ^ 16 := h _ hbuf
      have hsmall : (UInt32.ofNat len).toNat = len := by
        rw [UInt32.toNat_ofNat', Nat.mod_eq_of_lt (by omega)]
      rw [StageTrb.Fits, hsmall]
      omega
    · trivial
  next =>
    simp only [List.mem_cons, List.not_mem_nil, or_false] at hmem
    obtain rfl | rfl := hmem
    · trivial
    · trivial

/-- Some stage asks for an event. -/
theorem exists_interrupts (transfer : ControlTransfer) :
    ∃ j, ∃ h : j < transfer.stages.length, (transfer.stages[j]).interrupts = true := by
  rw [stages]
  split
  · exact ⟨1, by simp, rfl⟩
  · exact ⟨1, by simp, rfl⟩

end ControlTransfer

section Layout

def Direction.bit : Direction → Nat
  | .out => 0
  | .in => 1

def StageTransferType.code : StageTransferType → Nat
  | .no => 0
  | .out => 2
  | .in => 3

namespace StageTrbs

/-- The layout of the specification: what the stage carries in the first two words, Immediate Data
in bit 6, Interrupt on Completion in bit 5, the TRB type 2, 3 or 4 in bits 10 to 15, and the
direction or the transfer type from bit 16 on in the last. -/
def encodeXhci : StageTrb → TrbRaw
  | .setup packet transferType =>
      ⟨#v[UInt32.ofNat (packet.bmRequestType.toNat + packet.bRequest.toNat * 2 ^ 8 +
            packet.wValue.toNat * 2 ^ 16),
          UInt32.ofNat (packet.wIndex.toNat + packet.wLength.toNat * 2 ^ 16),
          8,
          UInt32.ofNat (2 ^ 6 + 2 * 2 ^ 10 + transferType.code * 2 ^ 16)]⟩
  | .data pointer length direction interrupt =>
      ⟨#v[UInt32.ofNat (pointer.toNat % 2 ^ 32),
          UInt32.ofNat (pointer.toNat / 2 ^ 32),
          UInt32.ofNat (length.toNat % 2 ^ 17),
          UInt32.ofNat (interrupt.toNat * 2 ^ 5 + 3 * 2 ^ 10 + direction.bit * 2 ^ 16)]⟩
  | .status direction interrupt =>
      ⟨#v[0, 0, 0,
          UInt32.ofNat (interrupt.toNat * 2 ^ 5 + 4 * 2 ^ 10 + direction.bit * 2 ^ 16)]⟩

/-- `half` is the last word without the cycle bit. -/
def decodeFields (word₀ word₁ word₂ half : Nat) : Option StageTrb :=
  let direction : Direction := if half / 2 ^ 15 % 2 = 0 then .out else .in
  let interrupt := half / 2 ^ 4 % 2 != 0
  if half / 2 ^ 9 % 2 ^ 6 = 2 then
    let packet : SetupPacketRaw :=
      ⟨UInt8.ofNat (word₀ % 2 ^ 8), UInt8.ofNat (word₀ / 2 ^ 8 % 2 ^ 8),
        UInt16.ofNat (word₀ / 2 ^ 16), UInt16.ofNat (word₁ % 2 ^ 16), UInt16.ofNat (word₁ / 2 ^ 16)⟩
    let transferType : StageTransferType :=
      if half / 2 ^ 15 % 4 = 0 then .no else if half / 2 ^ 15 % 4 = 2 then .out else .in
    some (.setup packet transferType)
  else if half / 2 ^ 9 % 2 ^ 6 = 3 then
    some (.data (UInt64.ofNat (word₀ + word₁ * 2 ^ 32)) (UInt32.ofNat (word₂ % 2 ^ 17)) direction
      interrupt)
  else if half / 2 ^ 9 % 2 ^ 6 = 4 then some (.status direction interrupt)
  else none

/-- A word of a TRB, as a number. -/
def wordAt (trb : TrbRaw) (k : Nat) : Nat := (trb.words.toList.getD k 0).toNat

def decodeXhci (trb : TrbRaw) : Option StageTrb :=
  decodeFields (wordAt trb 0) (wordAt trb 1) (wordAt trb 2) (wordAt trb 3 / 2)

/-- What the cycle bit leaves of a word. -/
theorem toNat_setBit0_div_two (word : UInt32) (bit : Bool) :
    (Xhci.setBit0 word bit).toNat / 2 = word.toNat / 2 := by
  have hshift : Xhci.setBit0 word bit >>> 1 = word >>> 1 := by
    cases bit with
    | false =>
        have hmask : (~~~1 : UInt32) >>> 1 = (-1 : UInt32) >>> 1 := by decide
        rw [Xhci.setBit0, if_neg Bool.false_ne_true, UInt32.shiftRight_and, hmask,
          ← UInt32.shiftRight_and, UInt32.and_neg_one]
    | true =>
        have hbit : (1 : UInt32) >>> 1 = 0 := by decide
        rw [Xhci.setBit0, if_pos rfl, UInt32.shiftRight_or, hbit, UInt32.or_zero]
  have hnat := congrArg UInt32.toNat hshift
  rwa [UInt32.toNat_shiftRight, UInt32.toNat_shiftRight] at hnat

theorem decodeXhci_setCycleBit (trb : TrbRaw) (bit : Bool) :
    decodeXhci (trb.setCycleBit bit) = decodeXhci trb := by
  simp [decodeXhci, wordAt, TrbRaw.setCycleBit, toNat_setBit0_div_two]

theorem decodeXhci_mk (word₀ word₁ word₂ word₃ : UInt32) :
    decodeXhci ⟨#v[word₀, word₁, word₂, word₃]⟩ =
      decodeFields word₀.toNat word₁.toNat word₂.toNat (word₃.toNat / 2) := rfl

theorem decodeXhci_encodeXhci {trb : StageTrb} (h : trb.Fits) :
    decodeXhci (encodeXhci trb) = some trb := by
  cases trb with
  | setup packet transferType =>
      obtain ⟨bmRequestType, bRequest, wValue, wIndex, wLength⟩ := packet
      have hbm := bmRequestType.toNat_lt
      have hb := bRequest.toNat_lt
      have hvalue := wValue.toNat_lt
      have hindex := wIndex.toNat_lt
      have hlength := wLength.toNat_lt
      have hfirst : (bmRequestType.toNat + bRequest.toNat * 2 ^ 8 + wValue.toNat * 2 ^ 16) %
          2 ^ 32 = bmRequestType.toNat + bRequest.toNat * 2 ^ 8 + wValue.toNat * 2 ^ 16 :=
        Nat.mod_eq_of_lt (by omega)
      have hsecond : (wIndex.toNat + wLength.toNat * 2 ^ 16) % 2 ^ 32 =
          wIndex.toNat + wLength.toNat * 2 ^ 16 := Nat.mod_eq_of_lt (by omega)
      simp only [encodeXhci, decodeXhci_mk, UInt32.toNat_ofNat', hfirst, hsecond, decodeFields]
      have h₁ : (bmRequestType.toNat + bRequest.toNat * 2 ^ 8 + wValue.toNat * 2 ^ 16) % 2 ^ 8 =
          bmRequestType.toNat := by omega
      have h₂ : (bmRequestType.toNat + bRequest.toNat * 2 ^ 8 + wValue.toNat * 2 ^ 16) / 2 ^ 8 %
          2 ^ 8 = bRequest.toNat := by omega
      have h₃ : (bmRequestType.toNat + bRequest.toNat * 2 ^ 8 + wValue.toNat * 2 ^ 16) / 2 ^ 16 =
          wValue.toNat := by omega
      have h₄ : (wIndex.toNat + wLength.toNat * 2 ^ 16) % 2 ^ 16 = wIndex.toNat := by omega
      have h₅ : (wIndex.toNat + wLength.toNat * 2 ^ 16) / 2 ^ 16 = wLength.toNat := by omega
      rw [h₁, h₂, h₃, h₄, h₅, UInt8.ofNat_toNat, UInt8.ofNat_toNat, UInt16.ofNat_toNat,
        UInt16.ofNat_toNat, UInt16.ofNat_toNat]
      cases transferType <;> rfl
  | data pointer length direction interrupt =>
      have hlength : length.toNat < 2 ^ 17 := h
      have hpointer := pointer.toNat_lt
      have hptr : pointer.toNat % 2 ^ 32 % 2 ^ 32 + pointer.toNat / 2 ^ 32 % 2 ^ 32 * 2 ^ 32 =
          pointer.toNat := by omega
      have hlen : length.toNat % 2 ^ 17 % 2 ^ 32 % 2 ^ 17 = length.toNat := by omega
      simp only [encodeXhci, decodeXhci_mk, UInt32.toNat_ofNat', decodeFields]
      rw [hptr, hlen, UInt64.ofNat_toNat, UInt32.ofNat_toNat]
      cases direction <;> cases interrupt <;> rfl
  | status direction interrupt =>
      cases direction <;> cases interrupt <;> rfl

def xhci : StageTrbs .xhci where
  encode := encodeXhci
  decode := decodeXhci
  isLink_encode trb := by
    cases trb with
    | setup packet transferType =>
        cases transferType <;> simp [encodeXhci, LinkTrb.xhci, StageTransferType.code] <;> decide
    | data pointer length direction interrupt =>
        cases direction <;> cases interrupt <;>
          simp [encodeXhci, LinkTrb.xhci, Direction.bit] <;> decide
    | status direction interrupt =>
        cases direction <;> cases interrupt <;> rfl
  decode_encode trb bit h := by
    rw [decodeXhci_setCycleBit, decodeXhci_encodeXhci h]

end StageTrbs

end Layout

end LemolaOs.Usb
