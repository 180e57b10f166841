import LemolaOs.Usb.EndpointSelection

/-!
# What the iterator makes of descriptors that a device has written

A device writes its descriptors one after the other. `RawDescriptor` is one that is well
formed, `encode` a list of them in memory. The iterator is asked for the list again: one
reference for each descriptor, in order, to the bytes that were written for it.

A value of a packed struct is its bytes, so a reference shows as many bytes of the buffer as
the struct has. `Item` keeps all of them, also the fields that nothing in the repository
reads.
-/

namespace LemolaOs.Usb

/-- The crate has the codes, the sizes and the fields of the specification. -/
structure UsbHost.FollowsUsb2 (host : UsbHost) : Prop where
  configuration_iff : ∀ code, host.tryFrom code = some .configuration ↔ code = 2
  interface_iff : ∀ code, host.tryFrom code = some .interface ↔ code = 4
  endpoint_iff : ∀ code, host.tryFrom code = some .endpoint ↔ code = 5
  size_configuration : host.size .configuration = 9
  size_interface : host.size .interface = 9
  size_endpoint : host.size .endpoint = 7
  interface_eq : host.interface = UsbHost.usb2.interface
  endpoint_eq : host.endpoint = UsbHost.usb2.endpoint

/-- The bytes without which a descriptor of the type is not well formed. -/
def structSize (type : UInt8) : Nat :=
  if type = 2 then 9 else if type = 4 then 9 else if type = 5 then 7 else 2

/-- A well-formed descriptor: its type, and what follows it. -/
structure RawDescriptor where
  type : UInt8
  body : List UInt8
  length_lt : body.length + 2 < 256
  structSize_le : structSize type ≤ body.length + 2

/-- What a `DescriptorRef` shows: the bytes of the struct. -/
inductive Item where
  | configuration (bytes : List UInt8)
  | interface (bytes : List UInt8)
  | endpoint (bytes : List UInt8)
  | unknown
  deriving DecidableEq, Repr

def DescriptorRef.item (host : UsbHost) (data : List UInt8) : DescriptorRef → Item
  | .configuration offset =>
      .configuration ((host.pointee data offset).take (host.size .configuration))
  | .interface offset => .interface ((host.pointee data offset).take (host.size .interface))
  | .endpoint offset => .endpoint ((host.pointee data offset).take (host.size .endpoint))
  | .unknown => .unknown

namespace RawDescriptor

/-- The descriptor in memory. -/
def bytes (d : RawDescriptor) : List UInt8 :=
  UInt8.ofNat (d.body.length + 2) :: d.type :: d.body

/-- What is to be seen of the descriptor. -/
def item (d : RawDescriptor) : Item :=
  if d.type = 2 then .configuration (d.bytes.take 9)
  else if d.type = 4 then .interface (d.bytes.take 9)
  else if d.type = 5 then .endpoint (d.bytes.take 7)
  else .unknown

/-- The fields that the drivers read. -/
def descriptor (d : RawDescriptor) : Descriptor :=
  if d.type = 2 then .configuration
  else if d.type = 4 then .interface (UsbHost.usb2.interface d.bytes)
  else if d.type = 5 then .endpoint (UsbHost.usb2.endpoint d.bytes)
  else .unknown

end RawDescriptor

/-- The descriptors one after the other. -/
def encode (descriptors : List RawDescriptor) : List UInt8 :=
  descriptors.flatMap RawDescriptor.bytes

theorem UsbHost.usb2_followsUsb2 : UsbHost.usb2.FollowsUsb2 where
  configuration_iff code := by
    simp only [UsbHost.usb2]
    grind
  interface_iff code := by
    simp only [UsbHost.usb2]
    grind
  endpoint_iff code := by
    simp only [UsbHost.usb2]
    grind
  size_configuration := rfl
  size_interface := rfl
  size_endpoint := rfl
  interface_eq := rfl
  endpoint_eq := rfl

/-- The fields of an interface lie in its nine bytes. -/
theorem interface_append {bytes : List UInt8} (h : 9 ≤ bytes.length) (rest : List UInt8) :
    UsbHost.usb2.interface (bytes ++ rest) = UsbHost.usb2.interface bytes := by
  simp (disch := omega) only [UsbHost.usb2, List.getD_eq_getElem?_getD, List.getElem?_append_left]

/-- The fields of an endpoint lie in its seven bytes. -/
theorem endpoint_append {bytes : List UInt8} (h : 7 ≤ bytes.length) (rest : List UInt8) :
    UsbHost.usb2.endpoint (bytes ++ rest) = UsbHost.usb2.endpoint bytes := by
  simp (disch := omega) only [UsbHost.usb2, List.getD_eq_getElem?_getD, List.getElem?_append_left]

section Behind

/-- Memory without anything behind a buffer. -/
def UsbHost.alone (host : UsbHost) : UsbHost := { host with behind := [] }

variable {host : UsbHost} {data : List UInt8}

theorem UsbHost.FollowsUsb2.alone (usb2 : host.FollowsUsb2) : host.alone.FollowsUsb2 :=
  ⟨usb2.configuration_iff, usb2.interface_iff, usb2.endpoint_iff, usb2.size_configuration,
    usb2.size_interface, usb2.size_endpoint, usb2.interface_eq, usb2.endpoint_eq⟩

/-- The iterator reads the buffer only. -/
theorem collect_alone {it : DescriptorIter} {refs : List DescriptorRef}
    (h : it.collect host = .ok refs) : it.collect host.alone = .ok refs := by
  induction refs generalizing it with
  | nil =>
      exact DescriptorIter.collect_of_none
        (DescriptorIter.next_eq_none_iff.mpr (DescriptorIter.collect_eq_nil h))
  | cons desc refs ih =>
      obtain ⟨it', hnext, hrest⟩ := DescriptorIter.collect_eq_cons h
      have halone : it.next host.alone = .ok (some (desc, it')) := hnext
      rw [DescriptorIter.collect_of_some halone, ih hrest]
      rfl

/-- What lies in the buffer is read from the buffer. -/
theorem DescriptorRef.read_alone (usb2 : host.FollowsUsb2) {desc : DescriptorRef}
    (hinside : desc.Inside host data.length) :
    desc.read host data = desc.read host.alone data := by
  have hpointee {offset size : Nat} (h : offset + size ≤ data.length) :
      host.pointee data offset = data.drop offset ++ host.behind ∧
        host.alone.pointee data offset = data.drop offset ∧
        size ≤ (data.drop offset).length := by
    refine ⟨UsbHost.pointee_eq (by omega), ?_, ?_⟩
    · rw [UsbHost.pointee_eq (by omega)]
      exact List.append_nil _
    · rw [List.length_drop]
      omega
  cases desc with
  | configuration offset => rfl
  | interface offset =>
      rw [Inside, usb2.size_interface] at hinside
      obtain ⟨hbehind, halone, hlength⟩ := hpointee hinside
      have hfields : host.alone.interface = host.interface := rfl
      rw [read, read, hbehind, halone, hfields, usb2.interface_eq, interface_append hlength]
  | endpoint offset =>
      rw [Inside, usb2.size_endpoint] at hinside
      obtain ⟨hbehind, halone, hlength⟩ := hpointee hinside
      have hfields : host.alone.endpoint = host.endpoint := rfl
      rw [read, read, hbehind, halone, hfields, usb2.endpoint_eq, endpoint_append hlength]
  | unknown => rfl

/-- What is read of a chain does not depend on what is behind it. -/
theorem configDescriptorAndRest_alone (usb2 : host.FollowsUsb2) (chain : Chain host data) :
    configDescriptorAndRest host data = configDescriptorAndRest host.alone data := by
  obtain ⟨refs, hcollect, hinside⟩ := (safe_iff_chain host data).mpr chain
  rw [configDescriptorAndRest, configDescriptorAndRest, hcollect, collect_alone hcollect]
  refine congrArg Except.ok (List.map_congr_left fun desc hdesc => ?_)
  exact DescriptorRef.read_alone usb2 (hinside desc hdesc)

end Behind

section RoundTrip

variable {host : UsbHost}

/-- The iterator knows the three codes. -/
theorem ofType_eq (usb2 : host.FollowsUsb2) (offset : Nat) (type : UInt8) :
    DescriptorRef.ofType host offset type =
      if type = 2 then .configuration offset
      else if type = 4 then .interface offset
      else if type = 5 then .endpoint offset
      else .unknown := by
  have hconfiguration := usb2.configuration_iff type
  have hinterface := usb2.interface_iff type
  have hendpoint := usb2.endpoint_iff type
  rw [DescriptorRef.ofType]
  grind

namespace RawDescriptor

variable (d : RawDescriptor)

theorem length_bytes : d.bytes.length = d.body.length + 2 := rfl

theorem toNat_length : (UInt8.ofNat (d.body.length + 2)).toNat = d.body.length + 2 :=
  UInt8.toNat_ofNat_of_lt' d.length_lt

/-- The reference to where the descriptor begins shows the bytes of the descriptor. -/
theorem item_ofType (usb2 : host.FollowsUsb2) (front rest : List UInt8) :
    (DescriptorRef.ofType host front.length d.type).item host (front ++ (d.bytes ++ rest)) =
      d.item := by
  have hsize := d.structSize_le
  rw [← d.length_bytes, structSize] at hsize
  rw [ofType_eq usb2, item]
  split_ifs with hconfiguration hinterface hendpoint
  · rw [if_pos hconfiguration] at hsize
    rw [DescriptorRef.item, UsbHost.pointee_append, List.append_assoc, usb2.size_configuration,
      List.take_append_of_le_length hsize]
  · rw [if_neg hconfiguration, if_pos hinterface] at hsize
    rw [DescriptorRef.item, UsbHost.pointee_append, List.append_assoc, usb2.size_interface,
      List.take_append_of_le_length hsize]
  · rw [if_neg hconfiguration, if_neg hinterface, if_pos hendpoint] at hsize
    rw [DescriptorRef.item, UsbHost.pointee_append, List.append_assoc, usb2.size_endpoint,
      List.take_append_of_le_length hsize]
  · rfl

/-- What is read where the descriptor begins are its fields. -/
theorem read_ofType (usb2 : host.FollowsUsb2) (front rest : List UInt8) :
    (DescriptorRef.ofType host front.length d.type).read host (front ++ (d.bytes ++ rest)) =
      d.descriptor := by
  have hsize := d.structSize_le
  rw [← d.length_bytes, structSize] at hsize
  rw [ofType_eq usb2, descriptor]
  split_ifs with hconfiguration hinterface hendpoint
  · rfl
  · rw [if_neg hconfiguration, if_pos hinterface] at hsize
    rw [DescriptorRef.read, UsbHost.pointee_append, List.append_assoc, usb2.interface_eq,
      interface_append hsize]
  · rw [if_neg hconfiguration, if_neg hinterface, if_pos hendpoint] at hsize
    rw [DescriptorRef.read, UsbHost.pointee_append, List.append_assoc, usb2.endpoint_eq,
      endpoint_append hsize]
  · rfl

end RawDescriptor

/-- Well-formed descriptors make a chain. -/
theorem chain_encode (usb2 : host.FollowsUsb2) (ds : List RawDescriptor) :
    Chain host (encode ds) := by
  induction ds with
  | nil => exact .nil
  | cons d ds ih =>
      refine .cons d.toNat_length (fun known hknown hother => ?_) ih
      have hsize := d.structSize_le
      rw [structSize] at hsize
      rw [d.toNat_length]
      cases known with
      | configuration =>
          rw [if_pos ((usb2.configuration_iff _).mp hknown)] at hsize
          rw [usb2.size_configuration]
          omega
      | interface =>
          rw [(usb2.interface_iff _).mp hknown, if_neg (by decide), if_pos rfl] at hsize
          rw [usb2.size_interface]
          omega
      | endpoint =>
          rw [(usb2.endpoint_iff _).mp hknown, if_neg (by decide), if_neg (by decide),
            if_pos rfl] at hsize
          rw [usb2.size_endpoint]
          omega
      | other => exact absurd rfl hother

/-- The iterator that has come to the end of `front`. -/
theorem next_encode_cons (front : List UInt8) (d : RawDescriptor) (ds : List RawDescriptor) :
    DescriptorIter.next host ⟨front ++ encode (d :: ds), front.length⟩ =
      .ok (some (.ofType host front.length d.type,
        ⟨front ++ encode (d :: ds), (front ++ d.bytes).length⟩)) := by
  have hdrop : (front ++ encode (d :: ds)).drop front.length =
      UInt8.ofNat (d.body.length + 2) :: d.type :: (d.body ++ encode ds) := by
    rw [List.drop_left]
    rfl
  rw [DescriptorIter.next_of_drop_eq hdrop d.toNat_length]
  simp only [d.toNat_length, List.length_append, d.length_bytes]

theorem collect_encode (usb2 : host.FollowsUsb2) (front : List UInt8) (ds : List RawDescriptor) :
    ∃ refs, DescriptorIter.collect host ⟨front ++ encode ds, front.length⟩ = .ok refs ∧
      refs.map (·.item host (front ++ encode ds)) = ds.map RawDescriptor.item ∧
      refs.map (·.read host (front ++ encode ds)) = ds.map RawDescriptor.descriptor := by
  -- The buffer stays the same, and the descriptors that have been seen move to its front.
  induction ds generalizing front with
  | nil =>
      refine ⟨[], DescriptorIter.collect_of_none (DescriptorIter.next_eq_none_iff.mpr ?_), rfl, rfl⟩
      simp [encode]
  | cons d ds ih =>
      have happend : front ++ encode (d :: ds) = front ++ d.bytes ++ encode ds := by
        rw [List.append_assoc]
        rfl
      obtain ⟨refs, hcollect, hitems, hfields⟩ := ih (front ++ d.bytes)
      rw [← happend] at hcollect hitems hfields
      refine ⟨.ofType host front.length d.type :: refs, ?_, ?_, ?_⟩
      · rw [DescriptorIter.collect_of_some (next_encode_cons front d ds), hcollect]
        rfl
      · rw [List.map_cons, List.map_cons, hitems]
        congr 1
        exact d.item_ofType usb2 front (encode ds)
      · rw [List.map_cons, List.map_cons, hfields]
        congr 1
        exact d.read_ofType usb2 front (encode ds)

/-- Reading gives back what was written: an item for each descriptor, in order, with the
bytes of the descriptor for its fields if the type is one of the three. -/
theorem descriptorIter_encode (usb2 : host.FollowsUsb2) (ds : List RawDescriptor) :
    ∃ refs, (DescriptorIter.new (encode ds)).collect host = .ok refs ∧
      refs.map (·.item host (encode ds)) = ds.map RawDescriptor.item ∧
      refs.map (·.read host (encode ds)) = ds.map RawDescriptor.descriptor :=
  collect_encode usb2 [] ds

end RoundTrip

/-- An interface, a HID descriptor and an endpoint, as a keyboard has them. -/
def keyboardDescriptors : List RawDescriptor :=
  [⟨4, [0, 0, 1, 3, 1, 1, 0], by decide, by decide⟩,
    ⟨0x21, [0x11, 0x01, 0, 1, 0x22, 63, 0], by decide, by decide⟩,
    ⟨5, [0x81, 3, 8, 0, 10], by decide, by decide⟩]

theorem keyboard_encode :
    ∃ refs, (DescriptorIter.new (encode keyboardDescriptors)).collect .usb2 = .ok refs ∧
      refs.map (·.item .usb2 (encode keyboardDescriptors)) =
        [.interface [9, 4, 0, 0, 1, 3, 1, 1, 0], .unknown, .endpoint [7, 5, 0x81, 3, 8, 0, 10]] ∧
      refs.map (·.read .usb2 (encode keyboardDescriptors)) =
        [.interface ⟨0, 3, 1, 1⟩, .unknown, .endpoint ⟨0x81, 3, 8, 10⟩] :=
  descriptorIter_encode UsbHost.usb2_followsUsb2 keyboardDescriptors

end LemolaOs.Usb
