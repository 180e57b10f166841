import LemolaOs.Usb.Descriptor

/-!
# Which endpoint a keyboard or a mouse reports on

Two pieces of code look for it. The drivers' searchers `ep_for_bootkbd` and `ep_for_mouse`
take the first endpoint of the right kind that follows an interface of the right kind,
with no other interface in between. `start_initialization` takes the first endpoint that
follows any keyboard or mouse interface, and uses it for the keyboard and the mouse alike.
-/

namespace LemolaOs.Usb

/-- `Descriptor`: the copy of what a `DescriptorRef` refers to. -/
inductive Descriptor where
  | configuration
  | interface (descriptor : InterfaceDescriptor)
  | endpoint (descriptor : EndpointDescriptor)
  | unknown
  deriving DecidableEq, Repr

/-- `Descriptor::from`. -/
def DescriptorRef.read (host : UsbHost) (data : List UInt8) : DescriptorRef → Descriptor
  | .configuration _ => .configuration
  | .interface offset => .interface (host.interface (host.pointee data offset))
  | .endpoint offset => .endpoint (host.endpoint (host.pointee data offset))
  | .unknown => .unknown

/-- What `request_config_descriptor_and_rest` makes of the bytes that it has received. -/
def configDescriptorAndRest (host : UsbHost) (data : List UInt8) : Rust (List Descriptor) := do
  let descriptors ← (DescriptorIter.new data).collect host
  .ok (descriptors.map (·.read host data))

structure EndpointInfo where
  interfaceNum : UInt8
  endpoint : EndpointDescriptor
  deriving DecidableEq, Repr

/-- The loop of the two searchers. -/
def searchEndpoint (host : UsbHost) (isInterface : InterfaceDescriptor → Bool)
    (isEndpoint : EndpointDescriptor → Bool) (interfaceFound : Option UInt8)
    (it : DescriptorIter) : Rust (Option EndpointInfo) :=
  match _h : it.next host with
  | .error e => .error e
  | .ok none => .ok none
  | .ok (some (desc, it')) =>
      match desc.read host it.data with
      | .interface idesc =>
          let interfaceFound := if isInterface idesc then some idesc.bInterfaceNumber else none
          searchEndpoint host isInterface isEndpoint interfaceFound it'
      | .endpoint edesc =>
          if isEndpoint edesc then
            match interfaceFound with
            | some interfaceNum => .ok (some ⟨interfaceNum, edesc⟩)
            | none => searchEndpoint host isInterface isEndpoint interfaceFound it'
          else searchEndpoint host isInterface isEndpoint interfaceFound it'
      | .configuration | .unknown =>
          searchEndpoint host isInterface isEndpoint interfaceFound it'
termination_by it.data.length - it.readBytes
decreasing_by all_goals exact DescriptorIter.next_lt _h

def isBootKeyboard (idesc : InterfaceDescriptor) : Bool :=
  idesc.bInterfaceClass == 0x03 && idesc.bInterfaceSubClass == 0x01 &&
    idesc.bInterfaceProtocol == 0x01

def isMouse (idesc : InterfaceDescriptor) : Bool :=
  idesc.bInterfaceClass == 0x03 && idesc.bInterfaceSubClass == 0x01 &&
    idesc.bInterfaceProtocol == 0x02

def isHub (idesc : InterfaceDescriptor) : Bool :=
  idesc.bInterfaceClass == 9 && idesc.bInterfaceSubClass == 0

/-- An interrupt IN endpoint. -/
def isInterruptIn (edesc : EndpointDescriptor) : Bool :=
  edesc.bEndpointAddress >>> 7 == 1 && edesc.bmAttributes &&& 3 == 3

/-- An interrupt IN endpoint that looks like one of a boot keyboard. -/
def isKeyboardEndpoint (edesc : EndpointDescriptor) : Bool :=
  isInterruptIn edesc && edesc.wMaxPacketSize == 8

def epForBootkbd (host : UsbHost) (buf : List UInt8) : Rust (Option EndpointInfo) :=
  searchEndpoint host isBootKeyboard isKeyboardEndpoint none (.new buf)

def epForMouse (host : UsbHost) (buf : List UInt8) : Rust (Option EndpointInfo) :=
  searchEndpoint host isMouse isInterruptIn none (.new buf)

/-- The variables of the loop in `start_initialization`. -/
structure Selection where
  bootKeyboardInterface : Option InterfaceDescriptor
  mouseInterface : Option InterfaceDescriptor
  hubInterface : Option InterfaceDescriptor
  endpointDescriptor : Option EndpointDescriptor

namespace Selection

/-- One round of the loop. -/
def see (sel : Selection) : Descriptor → Selection
  | .interface interface =>
      if isBootKeyboard interface then { sel with bootKeyboardInterface := some interface }
      else if isMouse interface then { sel with mouseInterface := some interface }
      else if isHub interface then { sel with hubInterface := some interface }
      else sel
  | .endpoint endpoint =>
      if (sel.bootKeyboardInterface.isSome || sel.mouseInterface.isSome) &&
          sel.endpointDescriptor.isNone then
        { sel with endpointDescriptor := some endpoint }
      else sel
  | .configuration | .unknown => sel

def of (descriptors : List Descriptor) : Selection :=
  descriptors.foldl see ⟨none, none, none, none⟩

/-- The endpoint with which the keyboard is set up, if there is one. -/
def keyboardEndpoint (sel : Selection) : Option EndpointDescriptor :=
  if sel.bootKeyboardInterface.isSome then sel.endpointDescriptor else none

/-- The endpoint with which the mouse is set up, if there is one. -/
def mouseEndpoint (sel : Selection) : Option EndpointDescriptor :=
  if sel.mouseInterface.isSome then sel.endpointDescriptor else none

end Selection

/-- The last interface up to here, if `first` was the last one before. -/
def lastInterface (first : InterfaceDescriptor) (descriptors : List Descriptor) :
    InterfaceDescriptor :=
  descriptors.foldl (fun last desc =>
    match desc with
    | .interface interface => interface
    | _ => last) first

/-- The first endpoint after the first keyboard or mouse interface is `endpoint`, and the last
interface before that endpoint is `interface`. -/
def Leading (descriptors : List Descriptor) (interface : InterfaceDescriptor)
    (endpoint : EndpointDescriptor) : Prop :=
  ∃ before first between rest,
    descriptors = before ++ .interface first :: (between ++ .endpoint endpoint :: rest) ∧
    (∀ i, .interface i ∈ before → isBootKeyboard i = false ∧ isMouse i = false) ∧
    (isBootKeyboard first = true ∨ isMouse first = true) ∧ (∀ e, .endpoint e ∉ between) ∧
    interface = lastInterface first between

/-- The searchers on the list of descriptors. -/
def findEndpoint (isInterface : InterfaceDescriptor → Bool)
    (isEndpoint : EndpointDescriptor → Bool) :
    (interfaceFound : Option UInt8) → List Descriptor → Option EndpointInfo
  | _, [] => none
  | _, .interface idesc :: descriptors =>
      findEndpoint isInterface isEndpoint
        (if isInterface idesc then some idesc.bInterfaceNumber else none) descriptors
  | found, .endpoint edesc :: descriptors =>
      if isEndpoint edesc then
        match found with
        | some interfaceNum => some ⟨interfaceNum, edesc⟩
        | none => findEndpoint isInterface isEndpoint found descriptors
      else findEndpoint isInterface isEndpoint found descriptors
  | found, .configuration :: descriptors | found, .unknown :: descriptors =>
      findEndpoint isInterface isEndpoint found descriptors

variable {host : UsbHost} {it it' : DescriptorIter} {isInterface : InterfaceDescriptor → Bool}
  {isEndpoint : EndpointDescriptor → Bool} {found : Option UInt8} {info : EndpointInfo}
  {descriptors : List Descriptor}

/-- On a buffer that can be iterated to the end, a searcher sees the list of descriptors. -/
theorem searchEndpoint_eq {refs : List DescriptorRef} (h : it.collect host = .ok refs) :
    searchEndpoint host isInterface isEndpoint found it =
      .ok (findEndpoint isInterface isEndpoint found (refs.map (·.read host it.data))) := by
  induction refs generalizing it found with
  | nil =>
      have hnext : it.next host = .ok none :=
        DescriptorIter.next_eq_none_iff.mpr (DescriptorIter.collect_eq_nil h)
      rw [searchEndpoint]
      split
      next heq => rw [hnext] at heq; cases heq
      next => rfl
      next heq => rw [hnext] at heq; cases heq
  | cons desc refs ih =>
      obtain ⟨it', hnext, hrest⟩ := DescriptorIter.collect_eq_cons h
      obtain ⟨_, _, _, _, -, -, -, hit'⟩ := DescriptorIter.next_eq_some hnext
      have hdata : it'.data = it.data := by rw [hit']
      rw [searchEndpoint]
      split
      next heq => rw [hnext] at heq; cases heq
      next heq => rw [hnext] at heq; cases heq
      next heq =>
        rw [hnext] at heq
        cases heq
        rw [List.map_cons]
        cases hread : desc.read host it.data with
        | configuration => simp only [findEndpoint, ih hrest, hdata]
        | unknown => simp only [findEndpoint, ih hrest, hdata]
        | interface idesc => simp only [findEndpoint, ih hrest, hdata]
        | endpoint edesc =>
            simp only [findEndpoint]
            split
            next =>
              cases found with
              | none => simp only [ih hrest, hdata]
              | some interfaceNum => rfl
            next => simp only [ih hrest, hdata]

theorem findEndpoint_endpoint (found : Option UInt8) (edesc : EndpointDescriptor) :
    findEndpoint isInterface isEndpoint found (.endpoint edesc :: descriptors) =
      if isEndpoint edesc then
        match found with
        | some interfaceNum => some ⟨interfaceNum, edesc⟩
        | none => findEndpoint isInterface isEndpoint found descriptors
      else findEndpoint isInterface isEndpoint found descriptors := by
  cases found <;> rfl

/-- A searcher finds an endpoint of the list. -/
theorem mem_of_findEndpoint
    (h : findEndpoint isInterface isEndpoint found descriptors = some info) :
    .endpoint info.endpoint ∈ descriptors := by
  induction descriptors generalizing found with
  | nil => cases h
  | cons desc descriptors ih =>
      cases desc with
      | configuration => exact List.mem_cons_of_mem _ (ih h)
      | unknown => exact List.mem_cons_of_mem _ (ih h)
      | interface idesc => exact List.mem_cons_of_mem _ (ih h)
      | endpoint edesc =>
          rw [findEndpoint_endpoint] at h
          split at h
          next =>
            cases found with
            | none => exact List.mem_cons_of_mem _ (ih h)
            | some interfaceNum =>
                cases h
                exact List.mem_cons_self
          next => exact List.mem_cons_of_mem _ (ih h)

/-- Where nothing is found yet, descriptors without an interface of the kind are skipped. -/
theorem findEndpoint_append {before : List Descriptor}
    (h : ∀ i, .interface i ∈ before → isInterface i = false) :
    findEndpoint isInterface isEndpoint none (before ++ descriptors) =
      findEndpoint isInterface isEndpoint none descriptors := by
  induction before with
  | nil => rfl
  | cons desc before ih =>
      have hrest := ih fun i hi => h i (List.mem_cons_of_mem desc hi)
      cases desc with
      | configuration => exact hrest
      | unknown => exact hrest
      | interface idesc =>
          rw [List.cons_append, findEndpoint, h idesc List.mem_cons_self]
          exact hrest
      | endpoint edesc =>
          rw [List.cons_append, findEndpoint]
          split <;> exact hrest

/-- Up to the next endpoint, the last interface counts. -/
theorem findEndpoint_between {between : List Descriptor} {first : InterfaceDescriptor}
    (h : ∀ e, .endpoint e ∉ between) :
    findEndpoint isInterface isEndpoint
        (if isInterface first then some first.bInterfaceNumber else none)
        (between ++ descriptors) =
      findEndpoint isInterface isEndpoint
        (if isInterface (lastInterface first between) then
          some (lastInterface first between).bInterfaceNumber else none) descriptors := by
  induction between generalizing first with
  | nil => rfl
  | cons desc between ih =>
      have hrest {first : InterfaceDescriptor} :=
        @ih first fun e he => h e (List.mem_cons_of_mem desc he)
      cases desc with
      | configuration => exact hrest
      | unknown => exact hrest
      | interface idesc => exact hrest
      | endpoint edesc => exact absurd List.mem_cons_self (h edesc)

/-- What a searcher does on a list with a leading endpoint. -/
theorem findEndpoint_leading {before between rest : List Descriptor} {first : InterfaceDescriptor}
    {endpoint : EndpointDescriptor} (hbefore : ∀ i, .interface i ∈ before → isInterface i = false)
    (hbetween : ∀ e, .endpoint e ∉ between) :
    findEndpoint isInterface isEndpoint none
        (before ++ .interface first :: (between ++ .endpoint endpoint :: rest)) =
      if isEndpoint endpoint && isInterface (lastInterface first between) then
        some ⟨(lastInterface first between).bInterfaceNumber, endpoint⟩
      else findEndpoint isInterface isEndpoint
        (if isInterface (lastInterface first between) then
          some (lastInterface first between).bInterfaceNumber else none) rest := by
  rw [findEndpoint_append hbefore, findEndpoint, findEndpoint_between hbetween,
    findEndpoint_endpoint]
  cases isEndpoint endpoint <;> cases isInterface (lastInterface first between) <;> rfl

/-- The first of the endpoints. -/
theorem exists_first_endpoint (h : ∃ e, .endpoint e ∈ descriptors) :
    ∃ between endpoint rest, descriptors = between ++ .endpoint endpoint :: rest ∧
      ∀ e, .endpoint e ∉ between := by
  induction descriptors with
  | nil => exact absurd h (by simp)
  | cons desc descriptors ih =>
      have hskip (hdesc : ∀ e, desc ≠ .endpoint e) :
          ∃ between endpoint rest, desc :: descriptors = between ++ .endpoint endpoint :: rest ∧
            ∀ e, .endpoint e ∉ between := by
        obtain ⟨e, he⟩ := h
        obtain ⟨between, endpoint, rest, rfl, hnone⟩ :=
          ih ⟨e, (List.mem_cons.mp he).resolve_left (hdesc e).symm⟩
        refine ⟨desc :: between, endpoint, rest, rfl, fun e' he' => ?_⟩
        obtain heq | he' := List.mem_cons.mp he'
        · exact hdesc e' heq.symm
        · exact hnone e' he'
      cases desc with
      | endpoint edesc => exact ⟨[], edesc, descriptors, rfl, fun _ => List.not_mem_nil⟩
      | configuration => exact hskip (by simp)
      | unknown => exact hskip (by simp)
      | interface idesc => exact hskip (by simp)

/-- A searcher for keyboards or mice that finds something has passed a leading endpoint. -/
theorem exists_leading
    (hkind : ∀ i, isInterface i = true → isBootKeyboard i = true ∨ isMouse i = true)
    (h : findEndpoint isInterface isEndpoint none descriptors = some info) :
    ∃ interface endpoint, Leading descriptors interface endpoint := by
  induction descriptors with
  | nil => cases h
  | cons desc descriptors ih =>
      have hskip (hdesc : ∀ i, desc = .interface i → isBootKeyboard i = false ∧ isMouse i = false)
          (h : findEndpoint isInterface isEndpoint none descriptors = some info) :
          ∃ interface endpoint, Leading (desc :: descriptors) interface endpoint := by
        obtain ⟨interface, endpoint, before, first, between, rest, rfl, hbefore, hleading⟩ := ih h
        refine ⟨interface, endpoint, desc :: before, first, between, rest, rfl, ?_, hleading⟩
        intro i hi
        obtain heq | hi := List.mem_cons.mp hi
        · exact hdesc i heq.symm
        · exact hbefore i hi
      cases desc with
      | configuration => exact hskip (by simp) h
      | unknown => exact hskip (by simp) h
      | endpoint edesc =>
          rw [findEndpoint] at h
          split at h
          next => exact hskip (by simp) h
          next => exact hskip (by simp) h
      | interface idesc =>
          by_cases hboot : isBootKeyboard idesc = true ∨ isMouse idesc = true
          · have hmem : .endpoint info.endpoint ∈ descriptors := by
              simpa using mem_of_findEndpoint h
            obtain ⟨between, endpoint, rest, rfl, hnone⟩ := exists_first_endpoint ⟨_, hmem⟩
            exact ⟨_, endpoint, [], idesc, between, rest, rfl,
              fun _ hi => absurd hi List.not_mem_nil, hboot, hnone, rfl⟩
          · have hnot : isInterface idesc = false := by
              by_contra hinterface
              exact hboot (hkind idesc (by simpa using hinterface))
            rw [findEndpoint, hnot] at h
            refine hskip ?_ h
            rintro i heq
            cases heq
            simpa using hboot

namespace Selection

variable {sel : Selection}

/-- No keyboard or mouse has been seen. -/
structure Idle (sel : Selection) : Prop where
  keyboard : sel.bootKeyboardInterface = none
  mouse : sel.mouseInterface = none
  endpoint : sel.endpointDescriptor = none

/-- A keyboard or a mouse has been seen, and no endpoint since. -/
structure Waiting (sel : Selection) : Prop where
  interface : (sel.bootKeyboardInterface.isSome || sel.mouseInterface.isSome) = true
  endpoint : sel.endpointDescriptor = none

theorem Idle.foldl (h : sel.Idle) {before : List Descriptor}
    (hbefore : ∀ i, .interface i ∈ before → isBootKeyboard i = false ∧ isMouse i = false) :
    (before.foldl see sel).Idle := by
  induction before generalizing sel with
  | nil => exact h
  | cons desc before ih =>
      refine ih ?_ fun i hi => hbefore i (List.mem_cons_of_mem desc hi)
      cases desc with
      | configuration => exact h
      | unknown => exact h
      | endpoint edesc =>
          rw [see, h.keyboard, h.mouse]
          exact h
      | interface idesc =>
          obtain ⟨hkeyboard, hmouse⟩ := hbefore idesc List.mem_cons_self
          rw [see, hkeyboard, hmouse]
          simp only [Bool.false_eq_true, if_false]
          split
          · exact ⟨h.keyboard, h.mouse, h.endpoint⟩
          · exact h

theorem Waiting.foldl (h : sel.Waiting) {between : List Descriptor}
    (hbetween : ∀ e, .endpoint e ∉ between) : (between.foldl see sel).Waiting := by
  induction between generalizing sel with
  | nil => exact h
  | cons desc between ih =>
      refine ih ?_ fun e he => hbetween e (List.mem_cons_of_mem desc he)
      cases desc with
      | configuration => exact h
      | unknown => exact h
      | endpoint edesc => exact absurd List.mem_cons_self (hbetween edesc)
      | interface idesc =>
          rw [see]
          split
          · exact ⟨by simp, h.endpoint⟩
          · split
            · exact ⟨by simp, h.endpoint⟩
            · split
              · exact ⟨h.interface, h.endpoint⟩
              · exact h

/-- The endpoint does not change any more. -/
theorem foldl_endpointDescriptor {endpoint : EndpointDescriptor}
    (h : sel.endpointDescriptor = some endpoint) (rest : List Descriptor) :
    (rest.foldl see sel).endpointDescriptor = some endpoint := by
  induction rest generalizing sel with
  | nil => exact h
  | cons desc rest ih =>
      apply ih
      cases desc with
      | configuration => exact h
      | unknown => exact h
      | endpoint edesc =>
          rw [see, h]
          simpa using h
      | interface idesc =>
          rw [see]
          split
          · exact h
          · split
            · exact h
            · split <;> exact h

theorem Idle.see_interface (h : sel.Idle) {first : InterfaceDescriptor}
    (hfirst : isBootKeyboard first = true ∨ isMouse first = true) :
    (sel.see (.interface first)).Waiting := by
  rw [see]
  split
  · exact ⟨by simp, h.endpoint⟩
  next hkeyboard =>
    rw [if_pos (hfirst.resolve_left hkeyboard)]
    exact ⟨by simp, h.endpoint⟩

theorem Waiting.see_endpoint (h : sel.Waiting) (endpoint : EndpointDescriptor) :
    (sel.see (.endpoint endpoint)).endpointDescriptor = some endpoint := by
  rw [see, h.interface, h.endpoint]
  rfl

/-- `start_initialization` takes the leading endpoint. -/
theorem of_leading {interface : InterfaceDescriptor} {endpoint : EndpointDescriptor}
    (h : Leading descriptors interface endpoint) :
    (of descriptors).endpointDescriptor = some endpoint := by
  obtain ⟨before, first, between, rest, rfl, hbefore, hfirst, hbetween, -⟩ := h
  have hidle : (before.foldl see ⟨none, none, none, none⟩).Idle :=
    Idle.foldl ⟨rfl, rfl, rfl⟩ hbefore
  rw [of, List.foldl_append, List.foldl_cons, List.foldl_append, List.foldl_cons]
  apply foldl_endpointDescriptor
  exact ((hidle.see_interface hfirst).foldl hbetween).see_endpoint endpoint

/-- An interface that is seen stays seen. -/
theorem isSome_foldl {seen : Selection → Option InterfaceDescriptor}
    (hkeep : ∀ sel desc, (seen sel).isSome = true → (seen (see sel desc)).isSome = true)
    {i : InterfaceDescriptor} (hi : .interface i ∈ descriptors)
    (hsee : ∀ sel, (seen (see sel (.interface i))).isSome = true) (sel : Selection) :
    (seen (descriptors.foldl see sel)).isSome = true := by
  have hrest (rest : List Descriptor) (sel : Selection) (h : (seen sel).isSome = true) :
      (seen (rest.foldl see sel)).isSome = true := by
    induction rest generalizing sel with
    | nil => exact h
    | cons desc rest ih => exact ih (see sel desc) (hkeep sel desc h)
  obtain ⟨before, rest, rfl⟩ := List.append_of_mem hi
  rw [List.foldl_append, List.foldl_cons]
  exact hrest rest _ (hsee _)

theorem keyboard_isSome {i : InterfaceDescriptor} (hi : .interface i ∈ descriptors)
    (hkeyboard : isBootKeyboard i = true) :
    (of descriptors).bootKeyboardInterface.isSome = true := by
  apply isSome_foldl ?_ hi
  · intro sel
    rw [see, if_pos hkeyboard]
    rfl
  · intro sel desc h
    cases desc with
    | configuration => exact h
    | unknown => exact h
    | endpoint edesc =>
        rw [see]
        split <;> exact h
    | interface idesc =>
        rw [see]
        split
        · rfl
        · split
          · exact h
          · split <;> exact h

theorem mouse_isSome {i : InterfaceDescriptor} (hi : .interface i ∈ descriptors)
    (hmouse : isMouse i = true) : (of descriptors).mouseInterface.isSome = true := by
  have hkeyboard : isBootKeyboard i = false := by
    simp only [isMouse, Bool.and_eq_true, beq_iff_eq] at hmouse
    simp [isBootKeyboard, hmouse]
  apply isSome_foldl ?_ hi
  · intro sel
    rw [see, hkeyboard, if_neg Bool.false_ne_true, if_pos hmouse]
    rfl
  · intro sel desc h
    cases desc with
    | configuration => exact h
    | unknown => exact h
    | endpoint edesc =>
        rw [see]
        split <;> exact h
    | interface idesc =>
        rw [see]
        split
        · exact h
        · split
          · rfl
          · split <;> exact h

end Selection

/-- A searcher that finds something has seen an interface of its kind. -/
theorem exists_interface_of_findEndpoint
    (h : findEndpoint isInterface isEndpoint none descriptors = some info) :
    ∃ i, .interface i ∈ descriptors ∧ isInterface i = true := by
  by_contra hnone
  simp only [not_exists, not_and, Bool.not_eq_true] at hnone
  rw [← List.append_nil descriptors, findEndpoint_append hnone] at h
  cases h

/-- The endpoint descriptors in the list. -/
def endpoints (descriptors : List Descriptor) : List EndpointDescriptor :=
  descriptors.filterMap fun desc =>
    match desc with
    | .endpoint endpoint => some endpoint
    | _ => none

theorem mem_endpoints {endpoint : EndpointDescriptor} :
    endpoint ∈ endpoints descriptors ↔ .endpoint endpoint ∈ descriptors := by
  simp only [endpoints, List.mem_filterMap]
  constructor
  · rintro ⟨desc, hmem, heq⟩
    cases desc <;> simp_all
  · exact fun hmem => ⟨_, hmem, rfl⟩

/-- The leading endpoint is one of the kind, of an interface of the kind. -/
def LeadsTo (isInterface : InterfaceDescriptor → Bool) (isEndpoint : EndpointDescriptor → Bool)
    (descriptors : List Descriptor) : Prop :=
  ∃ interface endpoint, Leading descriptors interface endpoint ∧
    isInterface interface = true ∧ isEndpoint endpoint = true

section Agreement

variable (hkind : ∀ i, isInterface i = true → isBootKeyboard i = true ∨ isMouse i = true)
  (hfind : findEndpoint isInterface isEndpoint none descriptors = some info)

variable (isEndpoint) in
include hkind in
/-- What a searcher makes of a leading endpoint. -/
theorem findEndpoint_of_leading {interface : InterfaceDescriptor} {endpoint : EndpointDescriptor}
    (h : Leading descriptors interface endpoint) :
    ∃ rest found, (∃ before, descriptors = before ++ .endpoint endpoint :: rest) ∧
      findEndpoint isInterface isEndpoint none descriptors =
        if isEndpoint endpoint && isInterface interface then
          some ⟨interface.bInterfaceNumber, endpoint⟩
        else findEndpoint isInterface isEndpoint found rest := by
  obtain ⟨before, first, between, rest, rfl, hbefore, -, hbetween, rfl⟩ := h
  have hother (i : InterfaceDescriptor) (hi : .interface i ∈ before) : isInterface i = false := by
    by_contra hinterface
    have hboot := hkind i (by simpa using hinterface)
    simp [hbefore i hi] at hboot
  exact ⟨rest, _, ⟨before ++ .interface first :: between, by simp⟩,
    findEndpoint_leading hother hbetween⟩

include hkind hfind

theorem endpointDescriptor_of_leadsTo (h : LeadsTo isInterface isEndpoint descriptors) :
    (Selection.of descriptors).endpointDescriptor = some info.endpoint := by
  obtain ⟨interface, endpoint, hleading, hinterface, hendpoint⟩ := h
  obtain ⟨rest, found, -, heq⟩ :=
    findEndpoint_of_leading isEndpoint hkind hleading
  rw [hfind, hinterface, hendpoint] at heq
  cases heq
  exact Selection.of_leading hleading

theorem leadsTo_of_endpointDescriptor (hdistinct : (endpoints descriptors).Nodup)
    (h : (Selection.of descriptors).endpointDescriptor = some info.endpoint) :
    LeadsTo isInterface isEndpoint descriptors := by
  obtain ⟨interface, endpoint, hleading⟩ := exists_leading hkind hfind
  have hsame := (Selection.of_leading hleading).symm.trans h
  refine ⟨interface, endpoint, hleading, ?_⟩
  obtain ⟨rest, found, ⟨before, rfl⟩, heq⟩ :=
    findEndpoint_of_leading isEndpoint hkind hleading
  by_contra hnot
  rw [hfind, if_neg (by simpa [and_comm] using hnot)] at heq
  -- the searcher has gone on, and found the same endpoint again
  have hagain := mem_endpoints.mpr (mem_of_findEndpoint heq.symm)
  cases hsame
  rw [endpoints, List.filterMap_append, List.filterMap_cons] at hdistinct
  exact (List.nodup_cons.mp (List.nodup_append.mp hdistinct).2.1).1 hagain

end Agreement

/-- On a chain of descriptors both pieces of code take the same endpoint if the leading
endpoint is one for the driver, and, if no two endpoint descriptors are the same, only then. -/
theorem endpoints_agree_iff (host : UsbHost) (data : List UInt8) (chain : Chain host data) :
    ∃ descriptors, configDescriptorAndRest host data = .ok descriptors ∧
      (∀ info, epForBootkbd host data = .ok (some info) →
        (LeadsTo isBootKeyboard isKeyboardEndpoint descriptors →
          (Selection.of descriptors).keyboardEndpoint = some info.endpoint) ∧
        ((endpoints descriptors).Nodup →
          (Selection.of descriptors).keyboardEndpoint = some info.endpoint →
          LeadsTo isBootKeyboard isKeyboardEndpoint descriptors)) ∧
      ∀ info, epForMouse host data = .ok (some info) →
        (LeadsTo isMouse isInterruptIn descriptors →
          (Selection.of descriptors).mouseEndpoint = some info.endpoint) ∧
        ((endpoints descriptors).Nodup →
          (Selection.of descriptors).mouseEndpoint = some info.endpoint →
          LeadsTo isMouse isInterruptIn descriptors) := by
  obtain ⟨refs, hrefs, -⟩ :=
    @collect_of_chain host (.new data) data chain rfl (Nat.zero_le _)
  refine ⟨refs.map (·.read host data), by rw [configDescriptorAndRest, hrefs]; rfl, ?_, ?_⟩
  · intro info hinfo
    rw [epForBootkbd, searchEndpoint_eq hrefs, DescriptorIter.new_data, Except.ok.injEq] at hinfo
    obtain ⟨i, hi, hkeyboard⟩ := exists_interface_of_findEndpoint hinfo
    rw [Selection.keyboardEndpoint, if_pos (Selection.keyboard_isSome hi hkeyboard)]
    exact ⟨endpointDescriptor_of_leadsTo (fun _ => .inl) hinfo,
      leadsTo_of_endpointDescriptor (fun _ => .inl) hinfo⟩
  · intro info hinfo
    rw [epForMouse, searchEndpoint_eq hrefs, DescriptorIter.new_data, Except.ok.injEq] at hinfo
    obtain ⟨i, hi, hmouse⟩ := exists_interface_of_findEndpoint hinfo
    rw [Selection.mouseEndpoint, if_pos (Selection.mouse_isSome hi hmouse)]
    exact ⟨endpointDescriptor_of_leadsTo (fun _ => .inr) hinfo,
      leadsTo_of_endpointDescriptor (fun _ => .inr) hinfo⟩

/-- A configuration with a keyboard. -/
def keyboardConfiguration : List UInt8 :=
  [9, 2, 25, 0, 1, 1, 0, 0xa0, 50, 9, 4, 0, 0, 1, 3, 1, 1, 0, 7, 5, 0x81, 3, 8, 0, 10]

/-- A configuration with a keyboard and a mouse. -/
def compositeConfiguration : List UInt8 :=
  [9, 2, 41, 0, 2, 1, 0, 0xa0, 50, 9, 4, 0, 0, 1, 3, 1, 1, 0, 7, 5, 0x81, 3, 8, 0, 10,
    9, 4, 1, 0, 1, 3, 1, 2, 0, 7, 5, 0x82, 3, 4, 0, 10]

theorem keyboardConfiguration_chain : Chain .usb2 keyboardConfiguration := by
  apply @Chain.cons _ 9 2 [25, 0, 1, 1, 0, 0xa0, 50] _ rfl (by decide)
  apply @Chain.cons _ 9 4 [0, 0, 1, 3, 1, 1, 0] _ rfl (by decide)
  exact @Chain.cons _ 7 5 [0x81, 3, 8, 0, 10] _ rfl (by decide) .nil

theorem keyboardConfiguration_collect :
    (DescriptorIter.new keyboardConfiguration).collect .usb2 =
      .ok [.configuration 0, .interface 9, .endpoint 18] := by
  have h₀ : (DescriptorIter.new keyboardConfiguration).next .usb2 =
    .ok (some (.configuration 0, ⟨keyboardConfiguration, 9⟩)) := rfl
  have h₁ : DescriptorIter.next .usb2 ⟨keyboardConfiguration, 9⟩ =
    .ok (some (.interface 9, ⟨keyboardConfiguration, 18⟩)) := rfl
  have h₂ : DescriptorIter.next .usb2 ⟨keyboardConfiguration, 18⟩ =
    .ok (some (.endpoint 18, ⟨keyboardConfiguration, 25⟩)) := rfl
  have h₃ : DescriptorIter.next .usb2 ⟨keyboardConfiguration, 25⟩ = .ok none := rfl
  rw [DescriptorIter.collect_of_some h₀, DescriptorIter.collect_of_some h₁,
    DescriptorIter.collect_of_some h₂, DescriptorIter.collect_of_none h₃]
  rfl

theorem compositeConfiguration_collect :
    (DescriptorIter.new compositeConfiguration).collect .usb2 =
      .ok [.configuration 0, .interface 9, .endpoint 18, .interface 25, .endpoint 34] := by
  have h₀ : (DescriptorIter.new compositeConfiguration).next .usb2 =
    .ok (some (.configuration 0, ⟨compositeConfiguration, 9⟩)) := rfl
  have h₁ : DescriptorIter.next .usb2 ⟨compositeConfiguration, 9⟩ =
    .ok (some (.interface 9, ⟨compositeConfiguration, 18⟩)) := rfl
  have h₂ : DescriptorIter.next .usb2 ⟨compositeConfiguration, 18⟩ =
    .ok (some (.endpoint 18, ⟨compositeConfiguration, 25⟩)) := rfl
  have h₃ : DescriptorIter.next .usb2 ⟨compositeConfiguration, 25⟩ =
    .ok (some (.interface 25, ⟨compositeConfiguration, 34⟩)) := rfl
  have h₄ : DescriptorIter.next .usb2 ⟨compositeConfiguration, 34⟩ =
    .ok (some (.endpoint 34, ⟨compositeConfiguration, 41⟩)) := rfl
  have h₅ : DescriptorIter.next .usb2 ⟨compositeConfiguration, 41⟩ = .ok none := rfl
  rw [DescriptorIter.collect_of_some h₀, DescriptorIter.collect_of_some h₁,
    DescriptorIter.collect_of_some h₂, DescriptorIter.collect_of_some h₃,
    DescriptorIter.collect_of_some h₄, DescriptorIter.collect_of_none h₅]
  rfl

/-- With a keyboard alone, the two agree. -/
theorem endpoints_agree_iff_keyboard :
    ∃ descriptors info, configDescriptorAndRest .usb2 keyboardConfiguration = .ok descriptors ∧
      epForBootkbd .usb2 keyboardConfiguration = .ok (some info) ∧
      (Selection.of descriptors).keyboardEndpoint = some info.endpoint := by
  obtain ⟨descriptors, hdescriptors, hkeyboard, -⟩ :=
    endpoints_agree_iff .usb2 keyboardConfiguration keyboardConfiguration_chain
  have hinfo : epForBootkbd .usb2 keyboardConfiguration = .ok (some ⟨0, ⟨0x81, 3, 8, 10⟩⟩) := by
    rw [epForBootkbd, searchEndpoint_eq keyboardConfiguration_collect]
    decide +kernel
  refine ⟨descriptors, _, hdescriptors, hinfo, (hkeyboard _ hinfo).1 ?_⟩
  rw [configDescriptorAndRest, keyboardConfiguration_collect] at hdescriptors
  cases hdescriptors
  exact ⟨⟨0, 3, 1, 1⟩, ⟨0x81, 3, 8, 10⟩,
    ⟨[.configuration], ⟨0, 3, 1, 1⟩, [], [], rfl, by simp, by decide, by simp, rfl⟩,
    by decide, by decide⟩

/-- With a keyboard and a mouse, the mouse is set up with the endpoint of the keyboard. -/
theorem composite_mouse_endpoint_differs :
    ¬ ∀ data descriptors info, Chain .usb2 data →
      configDescriptorAndRest .usb2 data = .ok descriptors →
      epForMouse .usb2 data = .ok (some info) →
      (Selection.of descriptors).mouseEndpoint = some info.endpoint := by
  intro h
  have hchain : Chain .usb2 compositeConfiguration := by
    apply @Chain.cons _ 9 2 [41, 0, 2, 1, 0, 0xa0, 50] _ rfl (by decide)
    apply @Chain.cons _ 9 4 [0, 0, 1, 3, 1, 1, 0] _ rfl (by decide)
    apply @Chain.cons _ 7 5 [0x81, 3, 8, 0, 10] _ rfl (by decide)
    apply @Chain.cons _ 9 4 [1, 0, 1, 3, 1, 2, 0] _ rfl (by decide)
    exact @Chain.cons _ 7 5 [0x82, 3, 4, 0, 10] _ rfl (by decide) .nil
  have hinfo : epForMouse .usb2 compositeConfiguration = .ok (some ⟨1, ⟨0x82, 3, 4, 10⟩⟩) := by
    rw [epForMouse, searchEndpoint_eq compositeConfiguration_collect]
    decide +kernel
  have hdescriptors : configDescriptorAndRest .usb2 compositeConfiguration =
      .ok [.configuration, .interface ⟨0, 3, 1, 1⟩, .endpoint ⟨0x81, 3, 8, 10⟩,
        .interface ⟨1, 3, 1, 2⟩, .endpoint ⟨0x82, 3, 4, 10⟩] := by
    rw [configDescriptorAndRest, compositeConfiguration_collect]
    rfl
  exact absurd (h _ _ _ hchain hdescriptors hinfo) (by decide +kernel)

end LemolaOs.Usb
