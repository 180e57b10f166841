import LemolaOs.Usb.RawDescriptor

/-!
# Which endpoint a searcher returns

An endpoint belongs to the nearest interface before it. The searchers keep a marker of that
interface, or nothing when it is not of the kind that is searched, and return at the first
endpoint of the right kind for which there is a marker. So they return the first endpoint of
the right kind whose own interface is of the right kind.
-/

namespace LemolaOs.Usb

/-- The interface, if the descriptor is one. -/
def Descriptor.interface? : Descriptor → Option InterfaceDescriptor
  | .interface idesc => some idesc
  | .configuration | .endpoint _ | .unknown => none

/-- The nearest interface before what follows `before`. -/
def nearestInterface (before : List Descriptor) : Option InterfaceDescriptor :=
  before.reverse.findSome? Descriptor.interface?

/-- The descriptor number `n` is an endpoint of the right kind, it belongs to an interface of
the right kind, and `info` is the endpoint with the number of that interface. -/
structure Searched (isInterface : InterfaceDescriptor → Bool)
    (isEndpoint : EndpointDescriptor → Bool) (descriptors : List Descriptor) (n : Nat)
    (info : EndpointInfo) : Prop where
  endpoint : descriptors[n]? = some (.endpoint info.endpoint)
  right : isEndpoint info.endpoint = true
  interface : ∃ idesc, nearestInterface (descriptors.take n) = some idesc ∧
    isInterface idesc = true ∧ info.interfaceNum = idesc.bInterfaceNumber

/-- `result` is the first of the searched endpoints from number `start` on, if there is one. -/
def IsFirst (isInterface : InterfaceDescriptor → Bool) (isEndpoint : EndpointDescriptor → Bool)
    (descriptors : List Descriptor) (start : Nat) : (result : Option EndpointInfo) → Prop
  | some info => ∃ n, start ≤ n ∧ Searched isInterface isEndpoint descriptors n info ∧
      ∀ m other, start ≤ m → m < n → ¬ Searched isInterface isEndpoint descriptors m other
  | none => ∀ n info, start ≤ n → ¬ Searched isInterface isEndpoint descriptors n info

/-- The marker that a searcher has behind `before`. -/
def marker (isInterface : InterfaceDescriptor → Bool) (before : List Descriptor) : Option UInt8 :=
  (nearestInterface before).bind fun idesc =>
    if isInterface idesc then some idesc.bInterfaceNumber else none

variable {isInterface : InterfaceDescriptor → Bool} {isEndpoint : EndpointDescriptor → Bool}
  {descriptors before : List Descriptor} {start n : Nat} {info other : EndpointInfo}

/-- The nearest interface, taken apart. -/
theorem nearestInterface_eq_some_iff {idesc : InterfaceDescriptor} :
    nearestInterface before = some idesc ↔
      ∃ front between, before = front ++ .interface idesc :: between ∧
        ∀ i, .interface i ∉ between := by
  rw [nearestInterface, List.findSome?_eq_some_iff]
  constructor
  · rintro ⟨between, desc, front, hbefore, hdesc, hbetween⟩
    refine ⟨front.reverse, between.reverse, ?_, fun i hi => ?_⟩
    · have hinterface : desc = .interface idesc := by
        cases desc <;> simp_all [Descriptor.interface?]
      rw [← List.reverse_reverse before, hbefore, hinterface]
      simp
    · exact absurd (hbetween _ (List.mem_reverse.mp hi)) (by simp [Descriptor.interface?])
  · rintro ⟨front, between, rfl, hbetween⟩
    refine ⟨between.reverse, .interface idesc, front.reverse, by simp, rfl, fun desc hdesc => ?_⟩
    cases desc with
    | interface i => exact absurd (List.mem_reverse.mp hdesc) (hbetween i)
    | configuration | endpoint _ | unknown => rfl

theorem nearestInterface_append_interface (before : List Descriptor) (idesc : InterfaceDescriptor) :
    nearestInterface (before ++ [.interface idesc]) = some idesc := by
  rw [nearestInterface, List.reverse_append, List.reverse_singleton, List.singleton_append,
    List.findSome?_cons]
  rfl

theorem nearestInterface_append {desc : Descriptor} (h : desc.interface? = none) :
    nearestInterface (before ++ [desc]) = nearestInterface before := by
  simp [nearestInterface, h]

/-- The endpoint behind `before` is searched iff there is a marker and its kind is right. -/
theorem searched_length_iff {edesc : EndpointDescriptor} {rest : List Descriptor} :
    Searched isInterface isEndpoint (before ++ .endpoint edesc :: rest) before.length info ↔
      isEndpoint edesc = true ∧ marker isInterface before = some info.interfaceNum ∧
        info.endpoint = edesc := by
  have htake : (before ++ .endpoint edesc :: rest).take before.length = before := List.take_left
  constructor
  · rintro ⟨hendpoint, hright, idesc, hnearest, hkind, hnum⟩
    rw [htake] at hnearest
    have hedesc : info.endpoint = edesc := by simpa using hendpoint.symm
    refine ⟨hedesc ▸ hright, ?_, hedesc⟩
    rw [marker, hnearest, Option.bind_some, if_pos hkind, hnum]
  · rintro ⟨hright, hmarker, rfl⟩
    rw [marker, Option.bind_eq_some_iff] at hmarker
    obtain ⟨idesc, hnearest, hnum⟩ := hmarker
    split at hnum
    next hkind =>
      exact ⟨by simp, hright, idesc, htake.symm ▸ hnearest, hkind, (Option.some.inj hnum).symm⟩
    next => cases hnum

/-- Where nothing is searched at `start`, the search goes on behind it. -/
theorem isFirst_succ {result : Option EndpointInfo}
    (hstart : ∀ info, ¬ Searched isInterface isEndpoint descriptors start info)
    (h : IsFirst isInterface isEndpoint descriptors (start + 1) result) :
    IsFirst isInterface isEndpoint descriptors start result := by
  cases result with
  | none =>
      intro n info hn
      obtain rfl | hlt := Nat.eq_or_lt_of_le hn
      · exact hstart info
      · exact h n info hlt
  | some info =>
      obtain ⟨n, hn, hsearched, hnone⟩ := h
      refine ⟨n, Nat.le_of_succ_le hn, hsearched, fun m other hm => ?_⟩
      obtain rfl | hlt := Nat.eq_or_lt_of_le hm
      · exact fun _ => hstart other
      · exact hnone m other hlt

theorem isFirst_of_searched (h : Searched isInterface isEndpoint descriptors start info) :
    IsFirst isInterface isEndpoint descriptors start (some info) :=
  ⟨start, le_rfl, h, fun _ _ hm hlt => absurd hlt (Nat.not_lt.mpr hm)⟩

/-- There is at most one first searched endpoint. -/
theorem IsFirst.unique {result result' : Option EndpointInfo}
    (h : IsFirst isInterface isEndpoint descriptors start result)
    (h' : IsFirst isInterface isEndpoint descriptors start result') : result = result' := by
  cases result with
  | none =>
      cases result' with
      | none => rfl
      | some info =>
          obtain ⟨n, hn, hsearched, -⟩ := h'
          exact absurd hsearched (h n info hn)
  | some info =>
      obtain ⟨n, hn, hsearched, hnone⟩ := h
      cases result' with
      | none => exact absurd hsearched (h' n info hn)
      | some info' =>
          obtain ⟨n', hn', hsearched', hnone'⟩ := h'
          obtain hlt | rfl | hlt := Nat.lt_trichotomy n n'
          · exact absurd hsearched (hnone' n info hn hlt)
          · have hendpoint : info.endpoint = info'.endpoint := by
              simpa using hsearched.endpoint.symm.trans hsearched'.endpoint
            obtain ⟨idesc, hnearest, -, hnum⟩ := hsearched.interface
            obtain ⟨idesc', hnearest', -, hnum'⟩ := hsearched'.interface
            cases info
            cases info'
            grind
          · exact absurd hsearched' (hnone n' info' hn' hlt)

/-- A descriptor that is no endpoint is not searched. -/
theorem not_searched_length {desc : Descriptor} {rest : List Descriptor}
    (h : ∀ edesc, desc ≠ .endpoint edesc) (info : EndpointInfo) :
    ¬ Searched isInterface isEndpoint (before ++ desc :: rest) before.length info :=
  fun hsearched => h info.endpoint (by simpa using hsearched.endpoint)

/-- The loop of the searchers, behind `before` with the marker that belongs there, returns the
first searched endpoint that is still to come. -/
theorem isFirst_findEndpoint (before rest : List Descriptor) :
    IsFirst isInterface isEndpoint (before ++ rest) before.length
      (findEndpoint isInterface isEndpoint (marker isInterface before) rest) := by
  induction rest generalizing before with
  | nil =>
      intro n info hn hsearched
      have hendpoint := hsearched.endpoint
      rw [List.append_nil, List.getElem?_eq_none hn] at hendpoint
      cases hendpoint
  | cons desc rest ih =>
      have hrest := ih (before ++ [desc])
      rw [List.append_assoc, List.singleton_append, List.length_append, List.length_singleton]
        at hrest
      -- The marker stays where the descriptor is not an interface.
      have hskip (hnone : desc.interface? = none)
          (hstart : ∀ info, ¬ Searched isInterface isEndpoint (before ++ desc :: rest)
            before.length info) :
          IsFirst isInterface isEndpoint (before ++ desc :: rest) before.length
            (findEndpoint isInterface isEndpoint (marker isInterface before) rest) := by
        rw [marker, nearestInterface_append hnone] at hrest
        exact isFirst_succ hstart hrest
      cases desc with
      | configuration => exact hskip rfl (not_searched_length (by simp))
      | unknown => exact hskip rfl (not_searched_length (by simp))
      | interface idesc =>
          rw [marker, nearestInterface_append_interface] at hrest
          exact isFirst_succ (not_searched_length (by simp)) hrest
      | endpoint edesc =>
          rw [findEndpoint_endpoint]
          split
          next hright =>
            cases hmarker : marker isInterface before with
            | none =>
                have hnot (info : EndpointInfo) :
                    ¬ Searched isInterface isEndpoint (before ++ .endpoint edesc :: rest)
                      before.length info := by
                  rw [searched_length_iff, hmarker]
                  rintro ⟨-, hnone, -⟩
                  cases hnone
                have hfirst := hskip rfl hnot
                rw [hmarker] at hfirst
                exact hfirst
            | some interfaceNum =>
                exact isFirst_of_searched (searched_length_iff.mpr ⟨hright, hmarker, rfl⟩)
          next hright =>
            refine hskip rfl fun info hsearched => hright ?_
            exact (searched_length_iff.mp hsearched).1

/-- A searcher on the bytes of a list of descriptors. -/
theorem searchEndpoint_encode {host : UsbHost} (usb2 : host.FollowsUsb2) (ds : List RawDescriptor) :
    ∃ result, searchEndpoint host isInterface isEndpoint none (.new (encode ds)) = .ok result ∧
      ∀ result', result = result' ↔
        IsFirst isInterface isEndpoint (ds.map RawDescriptor.descriptor) 0 result' := by
  obtain ⟨refs, hcollect, -, hread⟩ := descriptorIter_encode usb2 ds
  refine ⟨_, searchEndpoint_eq hcollect, fun result' => ?_⟩
  have hfirst : IsFirst isInterface isEndpoint (ds.map RawDescriptor.descriptor) 0
      (findEndpoint isInterface isEndpoint none (ds.map RawDescriptor.descriptor)) :=
    isFirst_findEndpoint [] _
  rw [show (DescriptorIter.new (encode ds)).data = encode ds from rfl, hread]
  exact ⟨fun h => h ▸ hfirst, hfirst.unique⟩

/-- Both searchers return the first endpoint of the right kind that belongs to an interface of
the right kind, with the number of that interface, and nothing iff there is no such endpoint. -/
theorem searchers_encode {host : UsbHost} (usb2 : host.FollowsUsb2) (ds : List RawDescriptor) :
    (∃ result, epForBootkbd host (encode ds) = .ok result ∧
      ∀ result', result = result' ↔
        IsFirst isBootKeyboard isKeyboardEndpoint (ds.map RawDescriptor.descriptor) 0 result') ∧
    (∃ result, epForMouse host (encode ds) = .ok result ∧
      ∀ result', result = result' ↔
        IsFirst isMouse isInterruptIn (ds.map RawDescriptor.descriptor) 0 result') :=
  ⟨searchEndpoint_encode usb2 ds, searchEndpoint_encode usb2 ds⟩

/-- On the descriptors of a keyboard, the endpoint behind its HID descriptor. -/
theorem searchers_encode_keyboard :
    (∃ result, epForBootkbd .usb2 (encode keyboardDescriptors) = .ok result ∧
      ∀ result', result = result' ↔ IsFirst isBootKeyboard isKeyboardEndpoint
        [.interface ⟨0, 3, 1, 1⟩, .unknown, .endpoint ⟨0x81, 3, 8, 10⟩] 0 result') ∧
    (∃ result, epForMouse .usb2 (encode keyboardDescriptors) = .ok result ∧
      ∀ result', result = result' ↔ IsFirst isMouse isInterruptIn
        [.interface ⟨0, 3, 1, 1⟩, .unknown, .endpoint ⟨0x81, 3, 8, 10⟩] 0 result') :=
  searchers_encode UsbHost.usb2_followsUsb2 keyboardDescriptors

end LemolaOs.Usb
