import LemolaOs.Library.Emit
import LemolaOs.Xhci.Controller.Handlers

/-!
# What a transfer reports to its caller

`async_control_transfer` and `async_in_transfer` of `kernel/src/usb/device.rs`, from the event
on that completes the transfer. The controller reports in the event how many bytes of the
request it has *not* transferred. The one path subtracts that number from the length of the
request; the other takes it for the number of bytes that were transferred, and copies as many.
-/

namespace LemolaOs.Usb

open Xhci (completionCode success shortPacket)

/-- `usb_host::TransferError`. -/
inductive TransferError where
  | retry (reason : String)
  | permanent (reason : String)
  deriving DecidableEq, Repr

/-- `usb_host::TransferType`. -/
inductive TransferType where
  | control
  | isochronous
  | bulk
  | interrupt
  deriving DecidableEq, Repr

/-- `usb_host::Direction`. -/
inductive Direction where
  | out
  | in
  deriving DecidableEq, Repr

/-- `Endpoint` of the class drivers. The two toggles are for the host to keep. -/
structure Endpoint where
  address : UInt8
  endpointNum : UInt8
  interfaceNum : UInt8
  transferType : TransferType
  direction : Direction
  maxPacketSize : UInt16
  inToggle : Bool
  outToggle : Bool
  deriving DecidableEq, Repr

/-- `Endpoint::new`. -/
def Endpoint.new (address endpointNum interfaceNum : UInt8) (transferType : TransferType)
    (direction : Direction) (maxPacketSize : UInt16) : Endpoint :=
  ⟨address, endpointNum, interfaceNum, transferType, direction, maxPacketSize, false, false⟩

/-- The fields of a Transfer Event that the two functions read. -/
structure CompletedTransfer where
  completionCode : Nat
  trbTransferLength : Nat
  trbPointer : Nat
  deriving DecidableEq, Repr

/-- `transfer::Allowed`, with the field that is read. -/
inductive TransferTrb where
  | normal (dataBufferPointer : Nat)
  | setupStage
  | dataStage
  | statusStage
  | isoch
  | link
  | eventData
  | noop
  deriving DecidableEq, Repr

/-- `async_control_transfer` with a buffer of `bufLen` bytes, if there is one. -/
def controlTransferResult (bufLen : Option Nat) (trb : CompletedTransfer) :
    Rust (Except TransferError Nat) :=
  -- `buf.len() as u16`
  let wLength := (bufLen.map (· % 2 ^ 16)).getD 0
  match completionCode trb.completionCode with
  | none => .ok (.error (.permanent "Unknown completion code"))
  | some code =>
      if code = shortPacket then do
        let length ← usizeSub wLength trb.trbTransferLength
        return .ok length
      else if code = success then .ok (.ok wLength)
      else .ok (.error (.retry "CompletionCode error"))

/-- `copy_from_slice` of `len` bytes: the bytes written to the caller's buffer. -/
def copyFromSlice (memory : Nat → UInt8) (src dst len : Nat) : List (Nat × UInt8) :=
  (List.range len).map fun i => (dst + i, memory (src + i))

/-- `async_in_transfer` with a buffer of `bufLen` bytes at `buf`: what is returned, and what is
written to the buffer. The completion code is not looked at. `readTrb` is what
`transfer::Allowed::try_from` makes of the TRB at an address. -/
def inTransferResult (readTrb : Nat → Option TransferTrb) (memory : Nat → UInt8)
    (buf bufLen : Nat) (trb : CompletedTransfer) :
    Rust (Except TransferError Nat × List (Nat × UInt8)) :=
  let transferredLength := trb.trbTransferLength
  match readTrb trb.trbPointer with
  | some (.normal dataBufferPointer) =>
      let copyingLength := min transferredLength (bufLen % 2 ^ 32)
      .ok (.ok transferredLength, copyFromSlice memory dataBufferPointer buf copyingLength)
  | some _ => .error (.message "not yet implemented")
  | none => .error (.message "called `Result::unwrap()` on an `Err` value")

/-- The event completes a request of `length` bytes, as the specification has it: the length
field is what is left of the request, which is nothing if the transfer was a success. -/
structure Completes (length : Nat) (trb : CompletedTransfer) : Prop where
  code : trb.completionCode = success ∨ trb.completionCode = shortPacket
  residue_le : trb.trbTransferLength ≤ length
  residue_eq_zero : trb.completionCode = success → trb.trbTransferLength = 0

variable {length : Nat} {trb : CompletedTransfer} {readTrb : Nat → Option TransferTrb}
  {memory : Nat → UInt8} {buf dataBufferPointer : Nat}

/-- A control transfer returns the number of bytes that were transferred. -/
theorem controlTransferResult_eq (hlength : length ≤ 65535) (h : Completes length trb) :
    controlTransferResult (some length) trb = .ok (.ok (length - trb.trbTransferLength)) := by
  have hmod : length % 2 ^ 16 = length := Nat.mod_eq_of_lt (by omega)
  rw [controlTransferResult, Option.map_some, Option.getD_some, hmod]
  obtain hcode | hcode := h.code
  · rw [hcode, h.residue_eq_zero hcode]
    rfl
  · have hsub : usizeSub length trb.trbTransferLength = .ok (length - trb.trbTransferLength) :=
      usizeSub_eq_ok.mpr ⟨h.residue_le, rfl⟩
    rw [hcode, hsub]
    rfl

/-- A transfer from an interrupt endpoint returns, and copies, what is left of the request. -/
theorem inTransferResult_eq (hlength : length ≤ 65535) (h : Completes length trb)
    (htrb : readTrb trb.trbPointer = some (.normal dataBufferPointer)) :
    inTransferResult readTrb memory buf length trb =
      .ok (.ok trb.trbTransferLength,
        copyFromSlice memory dataBufferPointer buf trb.trbTransferLength) := by
  have hmod : length % 2 ^ 32 = length := Nat.mod_eq_of_lt (by omega)
  rw [inTransferResult, htrb]
  simp only [hmod, Nat.min_eq_left h.residue_le]

theorem length_copyFromSlice (memory : Nat → UInt8) (src dst len : Nat) :
    (copyFromSlice memory src dst len).length = len := by
  rw [copyFromSlice, List.length_map, List.length_range]

/-- The number of transferred bytes is returned by both functions, and as many are copied, iff
half of the request was transferred. The control transfer is right in any case. -/
theorem byte_counts_agree_iff (length : Nat) (trb : CompletedTransfer)
    (readTrb : Nat → Option TransferTrb) (memory : Nat → UInt8) (buf dataBufferPointer : Nat)
    (hlength : length ≤ 65535) (h : Completes length trb)
    (htrb : readTrb trb.trbPointer = some (.normal dataBufferPointer)) :
    controlTransferResult (some length) trb = .ok (.ok (length - trb.trbTransferLength)) ∧
    ((controlTransferResult (some length) trb = .ok (.ok (length - trb.trbTransferLength)) ∧
        ∃ writes, inTransferResult readTrb memory buf length trb =
            .ok (.ok (length - trb.trbTransferLength), writes) ∧
          writes.length = min (length - trb.trbTransferLength) length) ↔
      2 * trb.trbTransferLength = length) := by
  have hcontrol := controlTransferResult_eq hlength h
  refine ⟨hcontrol, ?_⟩
  rw [inTransferResult_eq hlength h htrb]
  have hle := h.residue_le
  constructor
  · rintro ⟨-, writes, hresult, -⟩
    simp only [Except.ok.injEq, Prod.mk.injEq] at hresult
    omega
  · intro hhalf
    refine ⟨hcontrol, _, ?_, length_copyFromSlice memory dataBufferPointer buf _⟩
    have hcount : length - trb.trbTransferLength = trb.trbTransferLength := by omega
    rw [hcount, Nat.min_eq_left hle]

/-- Four bytes of eight. -/
theorem byte_counts_agree_iff_half :
    controlTransferResult (some 8) ⟨13, 4, 0x1000⟩ = .ok (.ok 4) ∧
    ((controlTransferResult (some 8) ⟨13, 4, 0x1000⟩ = .ok (.ok (8 - 4)) ∧
        ∃ writes, inTransferResult (fun _ => some (.normal 0x2000)) (fun _ => 0) 0x2000 8
            ⟨13, 4, 0x1000⟩ = .ok (.ok (8 - 4), writes) ∧ writes.length = min (8 - 4) 8) ↔
      2 * 4 = 8) :=
  byte_counts_agree_iff 8 ⟨13, 4, 0x1000⟩ (fun _ => some (.normal 0x2000)) (fun _ => 0) 0x2000
    0x2000 (by decide) ⟨.inr rfl, by decide, nofun⟩ rfl

/-- A report of three bytes that arrives in full is returned as one of no bytes. -/
theorem full_report_counts_zero :
    ¬ ∀ length trb readTrb memory buf dataBufferPointer, length ≤ 65535 → Completes length trb →
      readTrb trb.trbPointer = some (.normal dataBufferPointer) →
      controlTransferResult (some length) trb = .ok (.ok (length - trb.trbTransferLength)) ∧
        ∃ writes, inTransferResult readTrb memory buf length trb =
            .ok (.ok (length - trb.trbTransferLength), writes) ∧
          writes.length = min (length - trb.trbTransferLength) length := by
  intro h
  obtain ⟨-, writes, hresult, -⟩ := h 3 ⟨1, 0, 0x1000⟩ (fun _ => some (.normal 0x2000))
    (fun _ => 0) 0x2000 0x2000 (by decide) ⟨.inl rfl, by decide, fun _ => rfl⟩ rfl
  cases hresult

end LemolaOs.Usb
