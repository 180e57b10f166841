import LemolaOs.Xhci.Controller.Specs

/-!
# Route strings

A device behind hubs is reached by a route string: four bits for each hub on the way,
the port of the first hub in the lowest. `next_route` puts the port into the first of the
four lowest nibbles that is free, without a mask, and gives up with 0 if there is none;
`initialize_slot_context` then stores 18 bits of the result. A path of five hubs is thus
lost, and a port above 15 reaches into the next nibble.

`u32` and `u8` are natural numbers here: a port is below 256 and is shifted by at most 12.
-/

namespace LemolaOs.Xhci

/-- The loop of `next_route`, with `n` rounds to go. -/
def nextRouteFrom (routing port : Nat) : (n shift : Nat) → Nat
  | 0, _ => 0
  | n + 1, shift =>
      if routing &&& (0xf <<< shift) = 0 then routing ||| (port <<< shift)
      else nextRouteFrom routing port n (shift + 4)

def nextRoute (routing port : Nat) : Nat := nextRouteFrom routing port 4 0

/-- What `initialize_slot_context` stores of a routing. -/
def routeString (routing : Nat) : Nat := routing &&& 0x3ffff

/-- The routing of the device behind the given ports of a chain of hubs. -/
def route (ports : List Nat) : Nat := ports.foldl nextRoute 0

/-- Bits `4 * i` to `4 * i + 3`. -/
def nibble (i x : Nat) : Nat := (x >>> (4 * i)) % 16

/-- The route string has the ports in its nibbles, and nothing else. -/
structure Identifies (ports : List Nat) : Prop where
  port : ∀ i p, ports[i]? = some p → nibble i (routeString (route ports)) = p
  rest : ∀ i, ports.length ≤ i → nibble i (routeString (route ports)) = 0

/-- The nibble is the lowest that is zero. -/
def FirstFree (routing i : Nat) : Prop :=
  nibble i routing = 0 ∧ ∀ j, j < i → nibble j routing ≠ 0

/-- `next_route` changes at most the first free nibble. -/
def ChangesFirstFree (routing port : Nat) : Prop :=
  ∀ i, nibble i (nextRoute routing port) ≠ nibble i routing → FirstFree routing i

variable {routing port i j : Nat}

theorem testBit_nibble (i x k : Nat) :
    (nibble i x).testBit k = (decide (k < 4) && x.testBit (4 * i + k)) := by
  rw [nibble, show 16 = 2 ^ 4 from rfl, Nat.testBit_mod_two_pow, Nat.testBit_shiftRight]

theorem nibble_or (i x y : Nat) : nibble i (x ||| y) = nibble i x ||| nibble i y := by
  apply Nat.eq_of_testBit_eq
  intro k
  rw [Nat.testBit_or, testBit_nibble, testBit_nibble, testBit_nibble, Nat.testBit_or,
    Bool.and_or_distrib_left]

theorem nibble_shiftLeft_of_lt (h : j < i) (x : Nat) : nibble j (x <<< (4 * i)) = 0 := by
  apply Nat.eq_of_testBit_eq
  intro k
  rw [testBit_nibble, Nat.testBit_shiftLeft, Nat.zero_testBit]
  by_cases hk : k < 4
  · have hlt : ¬ 4 * i ≤ 4 * j + k := by omega
    simp [hlt]
  · simp [hk]

theorem nibble_shiftLeft_of_le (h : i ≤ j) (x : Nat) :
    nibble j (x <<< (4 * i)) = nibble (j - i) x := by
  apply Nat.eq_of_testBit_eq
  intro k
  have hle : 4 * i ≤ 4 * j + k := by omega
  have hsub : 4 * j + k - 4 * i = 4 * (j - i) + k := by omega
  rw [testBit_nibble, testBit_nibble, Nat.testBit_shiftLeft, hsub]
  simp [hle]

/-- The test of the loop. -/
theorem and_mask_eq_zero_iff : routing &&& (0xf <<< (4 * i)) = 0 ↔ nibble i routing = 0 := by
  have hbit (k : Nat) : (routing &&& (0xf <<< (4 * i))).testBit (4 * i + k) =
      (nibble i routing).testBit k := by
    rw [Nat.testBit_and, Nat.testBit_shiftLeft, testBit_nibble, Nat.add_sub_cancel_left,
      show (0xf : Nat) = 2 ^ 4 - 1 from rfl, Nat.testBit_two_pow_sub_one]
    simp [Bool.and_comm]
  constructor
  · intro h
    apply Nat.eq_of_testBit_eq
    intro k
    rw [← hbit, h]
    simp
  · intro h
    apply Nat.eq_of_testBit_eq
    intro k
    obtain hlt | hle := Nat.lt_or_ge k (4 * i)
    · have hnot : ¬ 4 * i ≤ k := by omega
      simp [Nat.testBit_shiftLeft, hnot]
    · obtain ⟨k, rfl⟩ := Nat.exists_eq_add_of_le hle
      rw [hbit, h]
      simp

theorem nextRouteFrom_of_firstFree (hfree : FirstFree routing i) {n : Nat} (hle : j ≤ i)
    (hlt : i < j + n) :
    nextRouteFrom routing port n (4 * j) = routing ||| (port <<< (4 * i)) := by
  induction n generalizing j with
  | zero => omega
  | succ n ih =>
      rw [nextRouteFrom]
      obtain rfl | hne := Nat.eq_or_lt_of_le hle
      · rw [if_pos (and_mask_eq_zero_iff.mpr hfree.1)]
      · rw [if_neg fun h => hfree.2 j hne (and_mask_eq_zero_iff.mp h)]
        exact ih hne (by omega)

theorem nextRouteFrom_of_full {n : Nat} (hfull : ∀ k, j ≤ k → k < j + n → nibble k routing ≠ 0) :
    nextRouteFrom routing port n (4 * j) = 0 := by
  induction n generalizing j with
  | zero => rfl
  | succ n ih =>
      rw [nextRouteFrom,
        if_neg fun h => hfull j (Nat.le_refl j) (by omega) (and_mask_eq_zero_iff.mp h)]
      exact ih (j := j + 1) fun k hk hlt => hfull k (by omega) (by omega)

theorem nextRoute_of_firstFree (hfree : FirstFree routing i) (hi : i < 4) :
    nextRoute routing port = routing ||| (port <<< (4 * i)) :=
  nextRouteFrom_of_firstFree (j := 0) hfree (Nat.zero_le i) (by omega)

theorem nextRoute_of_full (hfull : ∀ i, i < 4 → nibble i routing ≠ 0) :
    nextRoute routing port = 0 :=
  nextRouteFrom_of_full (j := 0) fun k _ hlt => hfull k (by omega)

/-- The nibbles after a free one has been found. -/
theorem nibble_nextRoute (hfree : FirstFree routing i) (hi : i < 4) (j : Nat) :
    nibble j (nextRoute routing port) =
      if j < i then nibble j routing else nibble j routing ||| nibble (j - i) port := by
  rw [nextRoute_of_firstFree hfree hi, nibble_or]
  split
  next h => rw [nibble_shiftLeft_of_lt h, Nat.or_zero]
  next h => rw [nibble_shiftLeft_of_le (by omega)]

theorem nibble_zero_of_lt (h : port < 16) : nibble 0 port = port := Nat.mod_eq_of_lt h

theorem nibble_eq_zero_of_lt (h : port < 16 ^ i) (hij : i ≤ j) : nibble j port = 0 := by
  have hlt : port < 2 ^ (4 * j) := by
    calc port < 16 ^ i := h
      _ ≤ 16 ^ j := Nat.pow_le_pow_right (by decide) hij
      _ = 2 ^ (4 * j) := by rw [Nat.pow_mul]
  rw [nibble, Nat.shiftRight_eq_div_pow, Nat.div_eq_of_lt hlt]

/-- The nibbles of the routing behind at most four hubs. -/
theorem nibble_route {ports : List Nat} (hports : ∀ p ∈ ports, 1 ≤ p ∧ p ≤ 15)
    (hlen : ports.length ≤ 4) (j : Nat) : nibble j (route ports) = ports.getD j 0 := by
  induction ports using List.reverseRecOn generalizing j with
  | nil => simp [route, nibble]
  | append_singleton ports p ih =>
      rw [List.length_append, List.length_singleton] at hlen
      have hbefore (j : Nat) : nibble j (route ports) = ports.getD j 0 :=
        ih (fun q hq => hports q (List.mem_append_left _ hq)) (by omega) j
      have hp := hports p (List.mem_append_right _ List.mem_cons_self)
      have hfree : FirstFree (route ports) ports.length := by
        refine ⟨by simp [hbefore], fun j hj => ?_⟩
        have hport := hports ports[j] (List.mem_append_left _ (List.getElem_mem hj))
        simp only [hbefore, List.getD, List.getElem?_eq_getElem hj, Option.getD_some]
        omega
      have hstep : route (ports ++ [p]) = nextRoute (route ports) p := by
        rw [route, List.foldl_append]
        rfl
      rw [hstep, nibble_nextRoute hfree (by omega), hbefore]
      obtain hlt | rfl | hgt := Nat.lt_trichotomy j ports.length
      · rw [if_pos hlt, List.getD, List.getD, List.getElem?_append_left hlt]
      · rw [if_neg (Nat.lt_irrefl _), Nat.sub_self, nibble_zero_of_lt (by omega)]
        simp
      · rw [if_neg (by omega), nibble_eq_zero_of_lt (i := 1) (by omega) (by omega)]
        simp [List.getD, List.getElem?_eq_none (show (ports ++ [p]).length ≤ j by simp; omega),
          List.getElem?_eq_none (show ports.length ≤ j by omega)]

theorem nibble_routeString (hi : i < 4) : nibble i (routeString routing) = nibble i routing := by
  apply Nat.eq_of_testBit_eq
  intro k
  rw [testBit_nibble, testBit_nibble, routeString, Nat.testBit_and,
    show (0x3ffff : Nat) = 2 ^ 18 - 1 from rfl, Nat.testBit_two_pow_sub_one]
  by_cases hk : k < 4
  · have hlt : 4 * i + k < 18 := by omega
    simp [hlt]
  · simp [hk]

theorem nibble_routeString_eq_zero (h : nibble i routing = 0) :
    nibble i (routeString routing) = 0 := by
  apply Nat.eq_of_testBit_eq
  intro k
  have hbit := congrArg (Nat.testBit · k) h
  simp only [testBit_nibble, Nat.zero_testBit, Bool.and_eq_false_imp] at hbit
  rw [testBit_nibble, routeString, Nat.testBit_and, Nat.zero_testBit]
  grind

/-- The device that `address_device_at` puts in a slot has the route string of its routing. -/
theorem addressed_routeString_eq (s : Controller) (portIndex speed : Nat)
    (parentHubSlotId parentPortIndex : Option Nat) :
    (s.addressed portIndex routing speed parentHubSlotId parentPortIndex).routeString =
      routeString routing :=
  (Nat.and_two_pow_sub_one_eq_mod routing 18).symm

theorem identifies_of_length_le {ports : List Nat} (hports : ∀ p ∈ ports, 1 ≤ p ∧ p ≤ 15)
    (hlen : ports.length ≤ 4) : Identifies ports where
  port i p hp := by
    obtain ⟨hi, rfl⟩ := List.getElem?_eq_some_iff.mp hp
    rw [nibble_routeString (by omega), nibble_route hports hlen]
    simp [List.getD, hi]
  rest i hi := by
    apply nibble_routeString_eq_zero
    rw [nibble_route hports hlen]
    simp [List.getD, List.getElem?_eq_none hi]

/-- Behind a fifth hub, the route is lost. -/
theorem route_of_length_eq_five {ports : List Nat} (hports : ∀ p ∈ ports, 1 ≤ p ∧ p ≤ 15)
    (hlen : ports.length = 5) : route ports = 0 := by
  obtain ⟨before, p, rfl⟩ :=
    List.eq_nil_or_concat' ports |>.resolve_left (by rintro rfl; cases hlen)
  rw [List.length_append, List.length_singleton] at hlen
  rw [route, List.foldl_append]
  apply nextRoute_of_full
  intro i hi
  have hi : i < before.length := by omega
  have hbefore := nibble_route (fun q hq => hports q (List.mem_append_left _ hq))
    (show before.length ≤ 4 by omega) i
  rw [route] at hbefore
  rw [hbefore]
  have hport := hports before[i] (List.mem_append_left _ (List.getElem_mem hi))
  simp only [List.getD, List.getElem?_eq_getElem hi, Option.getD_some]
  omega

theorem exists_firstFree (h : nibble i routing = 0) : ∃ j, j ≤ i ∧ FirstFree routing j := by
  have hex : ∃ j, nibble j routing = 0 := ⟨i, h⟩
  exact ⟨Nat.find hex, Nat.find_min' hex h, Nat.find_spec hex, fun j hj => Nat.find_min hex hj⟩

theorem changesFirstFree_iff (hport : port < 256) :
    ChangesFirstFree routing port ↔
      ∃ i, i < 4 ∧ FirstFree routing i ∧
        nibble (i + 1) routing ||| port / 16 = nibble (i + 1) routing := by
  have hhigh : nibble 1 port = port / 16 := by
    rw [nibble, Nat.shiftRight_eq_div_pow]
    exact Nat.mod_eq_of_lt (by omega)
  constructor
  · intro hchanges
    by_cases hfull : ∀ i, i < 4 → nibble i routing ≠ 0
    · -- nothing is free, and the route is given up
      have hzero := hchanges 0
      rw [nextRoute_of_full hfull] at hzero
      exact absurd (hzero (hfull 0 (by decide)).symm).1 (hfull 0 (by decide))
    · simp only [not_forall, not_not] at hfull
      obtain ⟨k, hk, hzero⟩ := hfull
      obtain ⟨i, hle, hfree⟩ := exists_firstFree hzero
      refine ⟨i, by omega, hfree, ?_⟩
      by_contra hne
      -- the next nibble has changed, but it is not the first that is free
      have hnext := hchanges (i + 1)
      rw [nibble_nextRoute hfree (by omega), if_neg (by omega), Nat.add_sub_cancel_left,
        hhigh] at hnext
      exact (hnext hne).2 i (Nat.lt_succ_self i) hfree.1
  · rintro ⟨i, hi, hfree, hcovered⟩ j hchanged
    rw [nibble_nextRoute hfree hi] at hchanged
    split at hchanged
    next => exact absurd rfl hchanged
    next hij =>
      obtain rfl | rfl | hlt : j = i ∨ j = i + 1 ∨ i + 1 < j := by omega
      · exact hfree
      · rw [Nat.add_sub_cancel_left, hhigh] at hchanged
        exact absurd hcovered hchanged
      · have hnone : nibble (j - i) port = 0 := nibble_eq_zero_of_lt (i := 2) hport (by omega)
        rw [hnone, Nat.or_zero] at hchanged
        exact absurd rfl hchanged

/-- Different paths have different route strings. -/
theorem Identifies.injective {ports ports' : List Nat} (h : Identifies ports)
    (h' : Identifies ports') (hports : ∀ p ∈ ports, 1 ≤ p) (hports' : ∀ p ∈ ports', 1 ≤ p)
    (heq : routeString (route ports) = routeString (route ports')) : ports = ports' := by
  -- a port is not zero, so the nibbles tell which ports there are
  have hsome {ports ports' : List Nat} (h : Identifies ports) (h' : Identifies ports')
      (hports : ∀ p ∈ ports, 1 ≤ p)
      (heq : routeString (route ports) = routeString (route ports')) {i p : Nat}
      (hp : ports[i]? = some p) : ports'[i]? = some p := by
    have hnibble := h.port i p hp
    have hpos := hports p (List.mem_of_getElem? hp)
    rw [heq] at hnibble
    cases hp' : ports'[i]? with
    | none =>
        rw [h'.rest i (List.getElem?_eq_none_iff.mp hp')] at hnibble
        omega
    | some q => rw [← hnibble, h'.port i q hp']
  apply List.ext_getElem?
  intro i
  cases hp : ports[i]? with
  | some p => exact (hsome h h' hports heq hp).symm
  | none =>
      cases hp' : ports'[i]? with
      | none => rfl
      | some q =>
          rw [hsome h' h hports' heq.symm hp'] at hp
          cases hp

/-- Paths of at most four hubs get their own route strings, longer ones do not; and a port
above 15 spoils the next nibble, unless that has the bits already. -/
theorem route_identifies_iff (ports ports' : List Nat) (routing port : Nat) :
    ((∀ p ∈ ports, 1 ≤ p ∧ p ≤ 15) → ports.length ≤ 5 →
      (Identifies ports ↔ ports.length ≤ 4)) ∧
    ((∀ p ∈ ports, 1 ≤ p ∧ p ≤ 15) → (∀ p ∈ ports', 1 ≤ p ∧ p ≤ 15) →
      ports.length ≤ 4 → ports'.length ≤ 4 →
      (routeString (route ports) = routeString (route ports') ↔ ports = ports') ∧
      (routeString (route ports) = 0 ↔ ports = [])) ∧
    (15 < port → port < 256 →
      (ChangesFirstFree routing port ↔
        ∃ i, i < 4 ∧ FirstFree routing i ∧
          nibble (i + 1) routing ||| port / 16 = nibble (i + 1) routing)) := by
  refine ⟨?_, ?_, fun _ hport => changesFirstFree_iff hport⟩
  · intro hports hlen
    refine ⟨fun h => ?_, identifies_of_length_le hports⟩
    by_contra hlong
    have hfive : ports.length = 5 := by omega
    obtain ⟨p, before, rfl⟩ := List.exists_cons_of_length_eq_add_one hfive
    have hfirst := h.port 0 p rfl
    rw [route_of_length_eq_five hports hfive] at hfirst
    have hp := hports p List.mem_cons_self
    rw [← hfirst] at hp
    exact absurd hp.1 (by decide)
  · intro hports hports' hlen hlen'
    have hinjective {ports ports' : List Nat} (hports : ∀ p ∈ ports, 1 ≤ p ∧ p ≤ 15)
        (hports' : ∀ p ∈ ports', 1 ≤ p ∧ p ≤ 15) (hlen : ports.length ≤ 4)
        (hlen' : ports'.length ≤ 4) (heq : routeString (route ports) = routeString (route ports')) :
        ports = ports' :=
      (identifies_of_length_le hports hlen).injective (identifies_of_length_le hports' hlen')
        (fun p hp => (hports p hp).1) (fun p hp => (hports' p hp).1) heq
    refine ⟨⟨hinjective hports hports' hlen hlen', fun h => by rw [h]⟩, fun h => ?_, fun h => ?_⟩
    · exact hinjective hports (fun _ hp => absurd hp List.not_mem_nil) hlen (Nat.zero_le 4) h
    · rw [h]
      rfl

/-- Five hubs deep, the device has the route string of a device at the root port. -/
theorem fifth_hub_not_identified :
    ¬ ∀ ports : List Nat, (∀ p ∈ ports, 1 ≤ p ∧ p ≤ 15) → ports.length ≤ 5 → Identifies ports := by
  intro h
  have hfive := (h [1, 1, 1, 1, 1] (by decide) (by decide)).port 0 1 rfl
  exact absurd hfive (by decide)

end LemolaOs.Xhci
