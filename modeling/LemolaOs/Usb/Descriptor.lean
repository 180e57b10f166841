import LemolaOs.Rust

/-!
# Descriptors in a configuration

A device answers a request for its configuration with a chain of descriptors, each of
which begins with its length and its type. `DescriptorIter` walks the chain by the
lengths, and gives out references to the descriptors that it knows: the bytes at which a
descriptor begins are taken for a value of the type, whatever length the descriptor has
said. A reference is modelled by the offset it points to.

The types of the descriptors are those of the `usb_host` crate, which is not part of the
repository. What the code uses of it is collected in `UsbHost`.
-/

namespace LemolaOs.Usb

/-- `usb_host::DescriptorType`, with one case for those that the iterator does not know. -/
inductive DescriptorType where
  | configuration
  | interface
  | endpoint
  | other
  deriving DecidableEq, Repr

structure InterfaceDescriptor where
  bInterfaceNumber : UInt8
  bInterfaceClass : UInt8
  bInterfaceSubClass : UInt8
  bInterfaceProtocol : UInt8
  deriving DecidableEq, Repr

structure EndpointDescriptor where
  bEndpointAddress : UInt8
  bmAttributes : UInt8
  wMaxPacketSize : UInt16
  bInterval : UInt8
  deriving DecidableEq, Repr

/-- What is used of the crate: `DescriptorType::try_from`, the sizes of the three types, and
how the fields of two of them are read from memory. A reference to a descriptor that the buffer
cuts off shows also what memory holds behind the buffer. -/
structure UsbHost where
  tryFrom : UInt8 → Option DescriptorType
  size : DescriptorType → Nat
  interface : List UInt8 → InterfaceDescriptor
  endpoint : List UInt8 → EndpointDescriptor
  behind : List UInt8

namespace UsbHost

/-- The memory from where a reference into a buffer points. -/
def pointee (host : UsbHost) (data : List UInt8) (offset : Nat) : List UInt8 :=
  (data ++ host.behind).drop offset

theorem pointee_eq {host : UsbHost} {data : List UInt8} {offset : Nat}
    (h : offset ≤ data.length) : host.pointee data offset = data.drop offset ++ host.behind :=
  List.drop_append_of_le_length h

theorem pointee_append (host : UsbHost) (front data : List UInt8) :
    host.pointee (front ++ data) front.length = data ++ host.behind := by
  rw [pointee_eq (by simp), List.drop_left]

end UsbHost

/-- The layout of the specification. -/
def UsbHost.usb2 : UsbHost where
  tryFrom type :=
    if type = 2 then some .configuration
    else if type = 4 then some .interface
    else if type = 5 then some .endpoint
    else if type = 1 ∨ type = 3 ∨ type = 6 ∨ type = 7 ∨ type = 8 then some .other
    else none
  size
    | .configuration => 9
    | .interface => 9
    | .endpoint => 7
    | .other => 0
  interface bytes := ⟨bytes.getD 2 0, bytes.getD 5 0, bytes.getD 6 0, bytes.getD 7 0⟩
  endpoint bytes :=
    ⟨bytes.getD 2 0, bytes.getD 3 0,
      (bytes.getD 4 0).toUInt16 ||| ((bytes.getD 5 0).toUInt16 <<< 8), bytes.getD 6 0⟩
  behind := []

/-- `data[index]`. -/
def index (data : List UInt8) (i : Nat) : Rust UInt8 :=
  match data[i]? with
  | some byte => .ok byte
  | none => .error .outOfRange

/-- `&data[lo..hi]`. -/
def slice (data : List UInt8) (lo hi : Nat) : Rust (List UInt8) :=
  if lo ≤ hi ∧ hi ≤ data.length then .ok ((data.drop lo).take (hi - lo)) else .error .outOfRange

theorem index_eq_ok {data : List UInt8} {i : Nat} {byte : UInt8} :
    index data i = .ok byte ↔ data[i]? = some byte := by
  rw [index]
  split <;> simp [*]

theorem slice_eq_ok {data bytes : List UInt8} {lo hi : Nat} :
    slice data lo hi = .ok bytes ↔
      (lo ≤ hi ∧ hi ≤ data.length) ∧ bytes = (data.drop lo).take (hi - lo) := by
  rw [slice]
  split <;> simp [*, eq_comm]

theorem index_eq_error {data : List UInt8} {i : Nat} {e : Panic} (h : index data i = .error e) :
    e = .outOfRange := by
  rw [index] at h
  split at h
  next => cases h
  next =>
    cases h
    rfl

theorem slice_eq_error {data : List UInt8} {lo hi : Nat} {e : Panic}
    (h : slice data lo hi = .error e) : e = .outOfRange := by
  rw [slice] at h
  split at h
  next => cases h
  next =>
    cases h
    rfl

/-- A reference to the descriptor that begins at the offset. -/
inductive DescriptorRef where
  | configuration (offset : Nat)
  | interface (offset : Nat)
  | endpoint (offset : Nat)
  | unknown
  deriving DecidableEq, Repr

namespace DescriptorRef

/-- The reference to a descriptor of the given type. -/
def ofType (host : UsbHost) (offset : Nat) (type : UInt8) : DescriptorRef :=
  match host.tryFrom type with
  | some .configuration => .configuration offset
  | some .interface => .interface offset
  | some .endpoint => .endpoint offset
  | some .other | none => .unknown

/-- `DescriptorRef::new` on the slice `data` that begins at `offset`. -/
def new (host : UsbHost) (offset : Nat) (data : List UInt8) : Rust DescriptorRef := do
  let type ← index data 1
  .ok (ofType host offset type)

/-- What is referred to lies in a buffer of `len` bytes. -/
def Inside (host : UsbHost) (len : Nat) : DescriptorRef → Prop
  | .configuration offset => offset + host.size .configuration ≤ len
  | .interface offset => offset + host.size .interface ≤ len
  | .endpoint offset => offset + host.size .endpoint ≤ len
  | .unknown => True

end DescriptorRef

structure DescriptorIter where
  data : List UInt8
  readBytes : Nat

namespace DescriptorIter

@[simps] def new (data : List UInt8) : DescriptorIter := ⟨data, 0⟩

/-- The sum does not overflow, since a slice has less than `2 ^ 63` bytes. -/
def next (host : UsbHost) (it : DescriptorIter) : Rust (Option (DescriptorRef × DescriptorIter)) :=
  if it.data.length ≤ it.readBytes then .ok none
  else do
    let nextDescriptorLength ← index it.data it.readBytes
    let data ← slice it.data it.readBytes (it.readBytes + nextDescriptorLength.toNat)
    let descriptor ← DescriptorRef.new host it.readBytes data
    .ok (some (descriptor, { it with readBytes := it.readBytes + nextDescriptorLength.toNat }))

variable {host : UsbHost} {it it' : DescriptorIter} {descriptor : DescriptorRef}

theorem next_eq_none_iff : it.next host = .ok none ↔ it.data.length ≤ it.readBytes := by
  rw [next]
  split
  next h => simp [h]
  next h =>
    refine iff_of_false ?_ h
    simp only [Rust.bind_eq_ok, not_exists, not_and]
    intro _ _ _ _ _ _ heq
    cases heq

/-- A descriptor that says its length, and is in the buffer with all of it, is given out. -/
theorem next_of_drop_eq {length type : UInt8} {body rest : List UInt8}
    (hdrop : it.data.drop it.readBytes = length :: type :: (body ++ rest))
    (hlength : length.toNat = body.length + 2) :
    it.next host = .ok (some (.ofType host it.readBytes type,
      { it with readBytes := it.readBytes + length.toNat })) := by
  have hlen : it.data.length = it.readBytes + length.toNat + rest.length := by
    have h := congrArg List.length hdrop
    simp only [List.length_drop, List.length_cons, List.length_append] at h
    omega
  have hfirst : it.data[it.readBytes]? = some length := by
    have h := congrArg (·[0]?) hdrop
    simpa using h
  have hbytes : slice it.data it.readBytes (it.readBytes + length.toNat) =
      .ok (length :: type :: body) := by
    refine slice_eq_ok.mpr ⟨⟨by omega, by omega⟩, ?_⟩
    rw [hdrop, Nat.add_sub_cancel_left, hlength]
    simp
  rw [next, if_neg (by omega), index_eq_ok.mpr hfirst, Rust.ok_bind, hbytes]
  rfl

/-- A descriptor that is given out starts in the buffer and says its length. -/
theorem next_eq_some (h : it.next host = .ok (some (descriptor, it'))) :
    ∃ (length type : UInt8) (body rest : List UInt8),
      it.data.drop it.readBytes = length :: type :: (body ++ rest) ∧
      length.toNat = body.length + 2 ∧ descriptor = .ofType host it.readBytes type ∧
      it' = { it with readBytes := it.readBytes + length.toNat } := by
  rw [next] at h
  split at h
  next => cases h
  next hlt =>
    simp only [Rust.bind_eq_ok, DescriptorRef.new] at h
    obtain ⟨length, hfirst, data, hdata, descriptor', ⟨type, htype, hnew⟩, heq⟩ := h
    cases heq
    cases hnew
    rw [index_eq_ok] at hfirst htype
    obtain ⟨⟨-, hbound⟩, rfl⟩ := slice_eq_ok.mp hdata
    obtain ⟨hlt, rfl⟩ := List.getElem?_eq_some_iff.mp hfirst
    rw [Nat.add_sub_cancel_left, List.drop_eq_getElem_cons hlt, List.getElem?_take] at htype
    split at htype
    next htwo =>
      rw [List.getElem?_cons_succ] at htype
      obtain ⟨tail, htail⟩ : ∃ tail, it.data.drop (it.readBytes + 1) = type :: tail := by
        cases hdrop : it.data.drop (it.readBytes + 1) with
        | nil => simp [hdrop] at htype
        | cons byte tail =>
            rw [hdrop] at htype
            cases htype
            exact ⟨tail, rfl⟩
      refine ⟨it.data[it.readBytes], type, tail.take (it.data[it.readBytes].toNat - 2),
        tail.drop (it.data[it.readBytes].toNat - 2), ?_, ?_, rfl, rfl⟩
      · rw [List.drop_eq_getElem_cons hlt, htail, List.take_append_drop]
      · have hlen := congrArg List.length htail
        simp only [List.length_drop, List.length_cons] at hlen
        rw [List.length_take, Nat.min_eq_left (by omega)]
        omega
    next => cases htype

/-- Every round goes on by at least two bytes. -/
theorem next_lt (h : it.next host = .ok (some (descriptor, it'))) :
    it'.data.length - it'.readBytes < it.data.length - it.readBytes := by
  obtain ⟨length, type, body, rest, hdrop, hlength, -, rfl⟩ := next_eq_some h
  have hlen := congrArg List.length hdrop
  simp only [List.length_drop, List.length_cons, List.length_append] at hlen
  simp only
  omega

/-- The iteration to the end, as by `collect`. -/
def collect (host : UsbHost) (it : DescriptorIter) : Rust (List DescriptorRef) :=
  match _h : it.next host with
  | .error e => .error e
  | .ok none => .ok []
  | .ok (some (descriptor, it')) => do
      let rest ← it'.collect host
      .ok (descriptor :: rest)
termination_by it.data.length - it.readBytes
decreasing_by exact next_lt _h

theorem collect_of_none (h : it.next host = .ok none) : it.collect host = .ok [] := by
  rw [collect]
  split
  next heq => rw [h] at heq; cases heq
  next => rfl
  next heq => rw [h] at heq; cases heq

theorem collect_of_some (h : it.next host = .ok (some (descriptor, it'))) :
    it.collect host = (do
      let rest ← it'.collect host
      .ok (descriptor :: rest)) := by
  rw [collect]
  split
  next heq => rw [h] at heq; cases heq
  next heq => rw [h] at heq; cases heq
  next heq =>
    rw [h] at heq
    cases heq
    rfl

theorem collect_of_error {e : Panic} (h : it.next host = .error e) :
    it.collect host = .error e := by
  rw [collect]
  split
  next heq =>
    rw [h] at heq
    cases heq
    rfl
  next heq => rw [h] at heq; cases heq
  next heq => rw [h] at heq; cases heq

/-- The iteration panics in an index or a slice only. -/
theorem next_error {e : Panic} (h : it.next host = .error e) : e = .outOfRange := by
  rw [next] at h
  split at h
  next => cases h
  next =>
    rw [Rust.bind_eq_error] at h
    obtain hindex | ⟨length, -, h⟩ := h
    · exact index_eq_error hindex
    rw [Rust.bind_eq_error] at h
    obtain hslice | ⟨data, -, h⟩ := h
    · exact slice_eq_error hslice
    rw [Rust.bind_eq_error, DescriptorRef.new, Rust.bind_eq_error] at h
    obtain (hindex | ⟨type, -, h⟩) | ⟨descriptor, -, h⟩ := h
    · exact index_eq_error hindex
    · cases h
    · cases h

theorem collect_error {e : Panic} (h : it.collect host = .error e) : e = .outOfRange := by
  fun_induction collect with
  | case1 it e' hnext =>
      cases h
      exact next_error hnext
  | case2 it hnext => cases h
  | case3 it descriptor it' hnext ih =>
      cases hrest : it'.collect host with
      | error e' =>
          rw [hrest] at h
          cases h
          exact ih hrest
      | ok rest =>
          rw [hrest] at h
          cases h

theorem collect_eq_nil (h : it.collect host = .ok []) : it.data.length ≤ it.readBytes := by
  cases hnext : it.next host with
  | error e => rw [collect_of_error hnext] at h; cases h
  | ok result =>
      cases result with
      | none => exact next_eq_none_iff.mp hnext
      | some result =>
          rw [collect_of_some hnext, Rust.bind_eq_ok] at h
          obtain ⟨rest, -, heq⟩ := h
          cases heq

theorem collect_eq_cons {rest : List DescriptorRef}
    (h : it.collect host = .ok (descriptor :: rest)) :
    ∃ it', it.next host = .ok (some (descriptor, it')) ∧ it'.collect host = .ok rest := by
  cases hnext : it.next host with
  | error e => rw [collect_of_error hnext] at h; cases h
  | ok result =>
      cases result with
      | none => rw [collect_of_none hnext] at h; cases h
      | some result =>
          rw [collect_of_some hnext, Rust.bind_eq_ok] at h
          obtain ⟨rest', hrest, heq⟩ := h
          cases heq
          exact ⟨result.2, rfl, hrest⟩

end DescriptorIter

/-- The bytes are a chain of descriptors: each begins with its length and its type, and from
its beginning there are enough bytes for a value of its type. -/
inductive Chain (host : UsbHost) : List UInt8 → Prop where
  | nil : Chain host []
  | cons {length type : UInt8} {body rest : List UInt8}
      (hlength : length.toNat = body.length + 2)
      (hsize : ∀ known, host.tryFrom type = some known → known ≠ .other →
        host.size known ≤ length.toNat + rest.length)
      (hrest : Chain host rest) : Chain host (length :: type :: (body ++ rest))

/-- The iteration ends without a panic, and what it gives out lies in the buffer. -/
def Safe (host : UsbHost) (data : List UInt8) : Prop :=
  ∃ descriptors, (DescriptorIter.new data).collect host = .ok descriptors ∧
    ∀ descriptor ∈ descriptors, descriptor.Inside host data.length

section Safe

variable {host : UsbHost} {it : DescriptorIter}

theorem inside_ofType_iff {type : UInt8} {offset len : Nat} :
    (DescriptorRef.ofType host offset type).Inside host len ↔
      ∀ known, host.tryFrom type = some known → known ≠ .other →
        offset + host.size known ≤ len := by
  rw [DescriptorRef.ofType]
  split <;> simp [DescriptorRef.Inside, *]

theorem chain_of_collect {descriptors : List DescriptorRef}
    (h : it.collect host = .ok descriptors)
    (hinside : ∀ descriptor ∈ descriptors, descriptor.Inside host it.data.length) :
    Chain host (it.data.drop it.readBytes) := by
  induction descriptors generalizing it with
  | nil =>
      rw [List.drop_of_length_le (DescriptorIter.collect_eq_nil h)]
      exact .nil
  | cons descriptor descriptors ih =>
      obtain ⟨it', hnext, hrest⟩ := DescriptorIter.collect_eq_cons h
      obtain ⟨length, type, body, rest, hdrop, hlength, rfl, rfl⟩ :=
        DescriptorIter.next_eq_some hnext
      have hchain := ih hrest fun d hd => hinside d (List.mem_cons_of_mem _ hd)
      have htail : it.data.drop (it.readBytes + length.toNat) = rest := by
        rw [← List.drop_drop, hdrop, hlength]
        simp
      have hlen := congrArg List.length hdrop
      simp only [List.length_drop, List.length_cons, List.length_append] at hlen
      rw [hdrop]
      refine .cons hlength ?_ (htail ▸ hchain)
      intro known hknown hother
      have := inside_ofType_iff.mp (hinside _ List.mem_cons_self) known hknown hother
      omega

theorem collect_of_chain {bytes : List UInt8} (chain : Chain host bytes)
    (hbytes : it.data.drop it.readBytes = bytes) (hle : it.readBytes ≤ it.data.length) :
    ∃ descriptors, it.collect host = .ok descriptors ∧
      ∀ descriptor ∈ descriptors, descriptor.Inside host it.data.length := by
  induction chain generalizing it with
  | nil =>
      refine ⟨[], DescriptorIter.collect_of_none (DescriptorIter.next_eq_none_iff.mpr ?_), by simp⟩
      exact List.drop_eq_nil_iff.mp hbytes
  | @cons length type body rest hlength hsize hrest ih =>
      have hlen := congrArg List.length hbytes
      simp only [List.length_drop, List.length_cons, List.length_append] at hlen
      have htail : it.data.drop (it.readBytes + length.toNat) = rest := by
        rw [← List.drop_drop, hbytes, hlength]
        simp
      obtain ⟨descriptors, hcollect, hinside⟩ :=
        @ih { it with readBytes := it.readBytes + length.toNat } htail (by simp only; omega)
      refine ⟨.ofType host it.readBytes type :: descriptors, ?_, ?_⟩
      · rw [DescriptorIter.collect_of_some
          (DescriptorIter.next_of_drop_eq hbytes hlength), hcollect]
        rfl
      · intro descriptor hmem
        obtain rfl | hmem := List.mem_cons.mp hmem
        · refine inside_ofType_iff.mpr fun known hknown hother => ?_
          have := hsize known hknown hother
          omega
        · exact hinside descriptor hmem

/-- The iteration is safe on the chains of descriptors, and on nothing else. -/
theorem safe_iff_chain (host : UsbHost) (data : List UInt8) : Safe host data ↔ Chain host data := by
  constructor
  · rintro ⟨descriptors, hcollect, hinside⟩
    exact chain_of_collect hcollect hinside
  · intro chain
    exact collect_of_chain chain rfl (Nat.zero_le _)

/-- A descriptor of length 0 has no type. -/
theorem zero_length_not_safe : ¬ ∀ data, Safe .usb2 data := by
  intro h
  obtain ⟨descriptors, hcollect, -⟩ := h [0]
  have hnext : (DescriptorIter.new [0]).next .usb2 = .error .outOfRange := rfl
  rw [DescriptorIter.collect_of_error hnext] at hcollect
  cases hcollect

end Safe

end LemolaOs.Usb
