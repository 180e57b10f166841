import LemolaOs.Pci.CapabilityList
import LemolaOs.Pci.Scan

/-!
# Configuring the MSI capabilities of a function

`configure_msi` of `kernel/src/pci.rs`: it follows the capability list from register
`0x34`, and edits and writes back every MSI capability on the way. The iterator goes on
in the configuration space that was written to.

`forEach_configure` is the run along a list: the header of a capability is in no
register of another that is MSI, so what is written does not disturb what is still to be
read. There are two ways to fail. The assertion on the header type compares the whole
byte, the multi-function bit with it, and a capability near the end of the space that is
not MSI is read as if it were.
-/

namespace LemolaOs.Pci

/-- `PciDevice::read_capabilities_pointer`. -/
def PciDevice.readCapabilitiesPointer (device : PciDevice) (space : ConfigSpace) : Rust UInt8 := do
  debugAssert (device.headerType.isGenericDevice || device.headerType.isPciToPciBridge)
  let rawData := readData space (.new device.bus device.device device.function 0x34)
  return (rawData &&& 0xff).toUInt8

/-- The body of the loop of `configure_msi`. -/
def configureMsiBody (device : PciDevice) (msgAddr msgData : UInt32) (numVectorExponent : Nat)
    (state : ConfigSpace × Bool) (item : UInt8 × MsiCapability) : Rust (ConfigSpace × Bool) := do
  let msiCap ← item.2.configure msgAddr msgData numVectorExponent
  let space ← writeMsiCapability state.1 device item.1 msiCap
  return (space, true)

def configureMsi (space : ConfigSpace) (device : PciDevice) (msgAddr msgData : UInt32)
    (numVectorExponent : Nat) (fuel : Nat) : Fueled Panic ConfigSpace := do
  let capAddr ← .lift (device.readCapabilitiesPointer space)
  let iter := MsiCapabilityIterator.new capAddr
  let (space, written) ← iter.forEach device Prod.fst
    (configureMsiBody device msgAddr msgData numVectorExponent) (space, false) fuel
  if !written then .lift (.error (.message "MSI capability not found")) else return space

section fields

variable {cap cap' : MsiCapability} {msgAddr msgData : UInt32} {numVectorExponent : Nat}

/-- What a configured capability holds, given what it was. -/
structure Configured (msgAddr msgData : UInt32) (numVectorExponent : Nat)
    (cap cap' : MsiCapability) : Prop where
  enable : cap'.messageControl.enable = true
  multipleMessageEnable : numVectorExponent < 2 ^ 16 →
    cap'.messageControl.multipleMessageEnable.toNat =
      min cap.messageControl.multipleMessageCapable.toNat numVectorExponent
  messageAddress : cap'.messageAddress = msgAddr.toUInt64
  messageData : cap'.messageData = msgData.toUInt16

theorem Configured.congr {cap₁ cap₂ : MsiCapability}
    (h : Configured msgAddr msgData numVectorExponent cap₁ cap')
    (hcontrol : cap₁.messageControl = cap₂.messageControl) :
    Configured msgAddr msgData numVectorExponent cap₂ cap' :=
  ⟨h.enable, hcontrol ▸ h.multipleMessageEnable, h.messageAddress, h.messageData⟩

/-- The two edits of the message control, and what they leave. -/
theorem MessageControl.fields_of_edits {control several enabled : MessageControl} {value : UInt16}
    (hseveral : control.setMultipleMessageEnable value = .ok several)
    (henabled : several.setEnable true = .ok enabled) :
    enabled.enable = true ∧ enabled.multipleMessageEnable = value ∧
      enabled.address64BitCapable = control.address64BitCapable ∧
      enabled.perVectorMasking = control.perVectorMasking := by
  obtain ⟨bits, hbits, heq⟩ := Rust.bind_eq_ok.mp hseveral
  cases heq
  obtain ⟨bits', hbits', heq⟩ := Rust.bind_eq_ok.mp henabled
  cases heq
  have hraw := toNat_ofNat_bits (by omega) (by omega) hbits
  have hraw' := toNat_ofNat_bits (by omega) (by omega) hbits'
  have hlayout := layout_of_setBits (by omega) (by omega) hbits
  have hlayout' := layout_of_setBits (by omega) (by omega) hbits'
  refine ⟨?_, ?_, hlayout'.1.trans hlayout.1, hlayout'.2.trans hlayout.2⟩
  · rw [enable, getBit, hraw', getBits_setBits (by omega) hbits']
    rfl
  · -- the second edit is below the bits of the first
    have hkept := setBits_div (i := 4) (by omega) (by omega) hbits'
    have hset := getBits_setBits (by omega) hbits
    rw [getBits] at hset
    rw [multipleMessageEnable, hraw', getBits, hkept, hraw, hset, UInt16.ofNat_toNat]

theorem configured_configure (hwell : cap.WellFormed) (msgAddr msgData : UInt32)
    (numVectorExponent : Nat) :
    ∃ cap', cap.configure msgAddr msgData numVectorExponent = .ok cap' ∧ cap'.WellFormed ∧
      cap'.lastOffset = cap.lastOffset ∧ Configured msgAddr msgData numVectorExponent cap cap' := by
  obtain ⟨value, several, enabled, control, hvalue, hseveral, henabled, hput, hconfigure⟩ :=
    MsiCapability.configure_eq hwell.data msgAddr msgData numVectorExponent
  obtain ⟨cap', hconfigure', hedited⟩ :=
    MsiCapability.configure_edited hwell.data msgAddr msgData numVectorExponent
  rw [hconfigure] at hconfigure'
  cases hconfigure'
  have hcontrol := (MsiCapability.messageControl_setMessageControl hput).1
  obtain ⟨henable, hmultiple, hwide, hmasked⟩ := MessageControl.fields_of_edits hseveral henabled
  rw [← hcontrol] at henable hmultiple hwide hmasked
  refine ⟨_, hconfigure, hedited.wellFormed hwell, ?_, henable, ?_, address_lower msgAddr, ?_⟩
  · exact MsiCapability.lastOffset_congr hwide hmasked
  · intro hexponent
    rw [UInt16.toNat_ofNat', Nat.mod_eq_of_lt hexponent] at hvalue
    exact (congrArg UInt16.toNat hmultiple).trans hvalue
  · have hlt := msgData.toUInt16.toNat_lt
    refine UInt16.toNat_inj.mp ?_
    rw [MsiCapability.messageData, UInt16.toNat_ofNat', getBits, UInt16.toNat_toUInt32]
    omega

end fields

section places

open MsiCapabilityIterator

variable {space space' : ConfigSpace} {device : PciDevice} {a b : UInt8}

/-- A place in the registers of the capability at `a`. -/
def InRegisters (space : ConfigSpace) (device : PciDevice) (a : UInt8)
    (place : UInt8 × UInt8 × UInt8 × UInt8) : Prop :=
  ∃ k ≤ (capAt space device a).lastOffset, place = device.place a k

/-- Registers of capabilities that lie apart have different places. -/
theorem not_inRegisters {k : Nat} (ha : a.toNat % 4 = 0) (hb : b.toNat % 4 = 0)
    (hread : Readable space device a) (hk : b.toNat + k < 256)
    (h : a.toNat + (capAt space device a).lastOffset < b.toNat ∨ b.toNat + k < a.toNat) :
    ¬ InRegisters space device a (device.place b k) := by
  rintro ⟨j, hj, heq⟩
  have hlast := (capAt space device a).lastOffset_mod
  have hquot := location_eq_iff.mp heq
  unfold Readable at hread
  rw [toNat_add_ofNat hk, toNat_add_ofNat (by omega)] at hquot
  omega

/-- The record at an address depends on its registers. -/
theorem capAt_congr (h : ∀ place, InRegisters space device a place →
    space'.at place = space.at place) : capAt space' device a = capAt space device a :=
  MsiCapability.ofReads_congr fun k hk => h _ ⟨k, hk, rfl⟩

theorem capAt_word0 (space : ConfigSpace) (device : PciDevice) (a : UInt8) :
    (capAt space device a).word0 = space.at (device.place a 0) := rfl

theorem wellFormed_capAt (space : ConfigSpace) (device : PciDevice) (a : UInt8) :
    (capAt space device a).WellFormed := MsiCapability.wellFormed_ofReads _

/-- The header decides on everything but the address, the data and the masks. -/
theorem header_congr (h : (capAt space' device a).word0 = (capAt space device a).word0) :
    (capAt space' device a).nextPointer = (capAt space device a).nextPointer ∧
      (capAt space' device a).lastOffset = (capAt space device a).lastOffset ∧
      (IsMsi space' device a ↔ IsMsi space device a) ∧
      (Readable space' device a ↔ Readable space device a) ∧
      (capAt space' device a).messageControl = (capAt space device a).messageControl := by
  have hcontrol :
      (capAt space' device a).messageControl = (capAt space device a).messageControl := by
    rw [MsiCapability.messageControl, h]
    rfl
  have hlast := MsiCapability.lastOffset_congr
    (congrArg MessageControl.address64BitCapable hcontrol)
    (congrArg MessageControl.perVectorMasking hcontrol)
  refine ⟨?_, hlast, ?_, ?_, hcontrol⟩
  · rw [MsiCapability.nextPointer, h]
    rfl
  · rw [IsMsi, IsMsi, MsiCapability.capabilityId, h]
    rfl
  · rw [Readable, Readable, hlast]

/-- One MSI capability: it is configured, and nothing outside its registers changes. -/
theorem configureMsiBody_eq (hread : Readable space device a) (msgAddr msgData : UInt32)
    (numVectorExponent : Nat) (written : Bool) :
    ∃ space', configureMsiBody device msgAddr msgData numVectorExponent (space, written)
        (a, capAt space device a) = .ok (space', true) ∧
      (capAt space' device a).lastOffset = (capAt space device a).lastOffset ∧
      Configured msgAddr msgData numVectorExponent (capAt space device a) (capAt space' device a) ∧
      ∀ place, ¬ InRegisters space device a place → space'.at place = space.at place := by
  obtain ⟨cap', hconfigure, hwell, hlast, hconfigured⟩ := configured_configure
    (wellFormed_capAt space device a) msgAddr msgData numVectorExponent
  have hfits : a.toNat + cap'.lastOffset < 256 := by
    rw [hlast]
    exact hread
  obtain ⟨space', hwrite, hat⟩ := writeMsiCapability_eq space device hfits hwell.data
  have hcap' : capAt space' device a = cap' :=
    ofReads_eq hwell fun k v hmem => read_register hfits hat hmem
  refine ⟨space', ?_, ?_, ?_, ?_⟩
  · simp only [configureMsiBody, hconfigure, Rust.ok_bind, hwrite]
    rfl
  · rw [hcap', hlast]
  · rw [hcap']
    exact hconfigured
  · intro place houtside
    rw [hat]
    refine applyWrites_of_not_mem fun v hmem => houtside ?_
    obtain ⟨r, hr, heq⟩ := List.mem_map.mp hmem
    have hoffset := (registers_offsets cap').2 r.1 (List.mem_map_of_mem hr)
    exact ⟨r.1, hlast ▸ hoffset.2, (Prod.mk.inj heq).1.symm⟩

end places

section chain

open MsiCapabilityIterator

variable {space space' : ConfigSpace} {device : PciDevice} {a b start : UInt8} {chain : List UInt8}
variable {msgAddr msgData : UInt32} {numVectorExponent : Nat}

/-- The addresses that the next pointers lead to, up to the null pointer. -/
def IsChain (space : ConfigSpace) (device : PciDevice) : UInt8 → List UInt8 → Prop
  | start, [] => start = 0
  | start, a :: chain => start = a ∧ IsChain space device (capAt space device a).nextPointer chain

instance decidableIsChain (space : ConfigSpace) (device : PciDevice) :
    ∀ start chain, Decidable (IsChain space device start chain)
  | start, [] => inferInstanceAs (Decidable (start = 0))
  | start, a :: chain =>
    have := decidableIsChain space device (capAt space device a).nextPointer chain
    inferInstanceAs (Decidable (start = a ∧ _))

/-- The capabilities of a list: at different aligned addresses behind the header of the
configuration space, with the MSI capabilities inside the space and clear of the others. -/
structure Placed (space : ConfigSpace) (device : PciDevice) (chain : List UInt8) : Prop where
  nodup : chain.Nodup
  aligned : ∀ a ∈ chain, a.toNat % 4 = 0
  behind : ∀ a ∈ chain, 0x40 ≤ a.toNat
  fits : ∀ a ∈ chain, IsMsi space device a → Readable space device a
  /-- No capability begins inside the registers of one that is MSI. -/
  apart : ∀ a ∈ chain, IsMsi space device a → ∀ b ∈ chain, a.toNat < b.toNat →
    a.toNat + (capAt space device a).lastOffset < b.toNat

namespace Placed

theorem ne_zero (h : Placed space device chain) (ha : a ∈ chain) : a ≠ 0 := by
  rintro rfl
  exact absurd (h.behind 0 ha) (by decide)

theorem tail (h : Placed space device (a :: chain)) : Placed space device chain where
  nodup := (List.nodup_cons.mp h.nodup).2
  aligned := fun b hb => h.aligned b (List.mem_cons_of_mem a hb)
  behind := fun b hb => h.behind b (List.mem_cons_of_mem a hb)
  fits := fun b hb => h.fits b (List.mem_cons_of_mem a hb)
  apart := fun b hb hmsi c hc =>
    h.apart b (List.mem_cons_of_mem a hb) hmsi c (List.mem_cons_of_mem a hc)

theorem lt_or_gt (hne : a ≠ b) : a.toNat < b.toNat ∨ b.toNat < a.toNat :=
  Nat.lt_or_gt_of_ne fun heq => hne (UInt8.toNat_inj.mp heq)

/-- The header of another capability is in no register of an MSI capability. -/
theorem header_outside (h : Placed space device chain) (ha : a ∈ chain)
    (hmsi : IsMsi space device a) (hb : b ∈ chain) (hne : a ≠ b) :
    ¬ InRegisters space device a (device.place b 0) := by
  have hlt := b.toNat_lt
  refine not_inRegisters (h.aligned a ha) (h.aligned b hb) (h.fits a ha hmsi) (by omega) ?_
  obtain hab | hba := lt_or_gt hne
  · exact .inl (h.apart a ha hmsi b hb hab)
  · exact .inr hba

/-- Two MSI capabilities have no place in common. -/
theorem disjoint (h : Placed space device chain) (ha : a ∈ chain) (hmsi : IsMsi space device a)
    (hb : b ∈ chain) (hmsi' : IsMsi space device b) (hne : a ≠ b)
    {place : UInt8 × UInt8 × UInt8 × UInt8} (hplace : InRegisters space device b place) :
    ¬ InRegisters space device a place := by
  obtain ⟨k, hk, rfl⟩ := hplace
  have hread : b.toNat + (capAt space device b).lastOffset < 256 := h.fits b hb hmsi'
  refine not_inRegisters (h.aligned a ha) (h.aligned b hb) (h.fits a ha hmsi) (by omega) ?_
  obtain hab | hba := lt_or_gt hne
  · exact .inl (h.apart a ha hmsi b hb hab)
  · have hlast := h.apart b hb hmsi' a ha hba
    exact .inr (by omega)

/-- What matters of a list is in its headers. -/
theorem congr (h : Placed space device chain)
    (hsame : ∀ a ∈ chain, (capAt space' device a).word0 = (capAt space device a).word0) :
    Placed space' device chain where
  nodup := h.nodup
  aligned := h.aligned
  behind := h.behind
  fits := fun a ha hmsi => by
    obtain ⟨-, -, hmsi', hread, -⟩ := header_congr (hsame a ha)
    exact hread.mpr (h.fits a ha (hmsi'.mp hmsi))
  apart := fun a ha hmsi b hb hlt => by
    obtain ⟨-, hlast, hmsi', -, -⟩ := header_congr (hsame a ha)
    rw [hlast]
    exact h.apart a ha (hmsi'.mp hmsi) b hb hlt

end Placed

theorem IsChain.congr (h : IsChain space device start chain)
    (hsame : ∀ a ∈ chain, (capAt space' device a).word0 = (capAt space device a).word0) :
    IsChain space' device start chain := by
  induction chain generalizing start with
  | nil => exact h
  | cons a chain ih =>
      have hnext := (header_congr (hsame a List.mem_cons_self)).1
      refine ⟨h.1, ?_⟩
      rw [hnext]
      exact ih h.2 fun b hb => hsame b (List.mem_cons_of_mem a hb)

/-- What `configure_msi` is for: the MSI capabilities of the list are configured, and
everything outside their registers is as it was. -/
structure ConfiguresExactly (msgAddr msgData : UInt32) (numVectorExponent : Nat)
    (device : PciDevice) (chain : List UInt8) (space space' : ConfigSpace) : Prop where
  readable : ∀ a ∈ chain, IsMsi space device a → Readable space' device a
  configured : ∀ a ∈ chain, IsMsi space device a →
    Configured msgAddr msgData numVectorExponent (capAt space device a) (capAt space' device a)
  unchanged : ∀ place, (∀ a ∈ chain, IsMsi space device a → ¬ InRegisters space device a place) →
    space'.at place = space.at place

theorem inRegisters_congr
    (h : (capAt space' device a).lastOffset = (capAt space device a).lastOffset)
    {place : UInt8 × UInt8 × UInt8 × UInt8} :
    InRegisters space' device a place ↔ InRegisters space device a place := by
  rw [InRegisters, InRegisters, h]

namespace ConfiguresExactly

variable {space₁ : ConfigSpace}

theorem nil : ConfiguresExactly msgAddr msgData numVectorExponent device [] space space where
  readable := fun _ ha => absurd ha List.not_mem_nil
  configured := fun _ ha => absurd ha List.not_mem_nil
  unchanged := fun _ _ => rfl

/-- A capability that is not MSI has no part in it. -/
theorem cons_other (hmsi : ¬ IsMsi space device a)
    (h : ConfiguresExactly msgAddr msgData numVectorExponent device chain space space') :
    ConfiguresExactly msgAddr msgData numVectorExponent device (a :: chain) space space' where
  readable := fun b hb hmsi' => by
    obtain rfl | hb := List.mem_cons.mp hb
    · exact absurd hmsi' hmsi
    · exact h.readable b hb hmsi'
  configured := fun b hb hmsi' => by
    obtain rfl | hb := List.mem_cons.mp hb
    · exact absurd hmsi' hmsi
    · exact h.configured b hb hmsi'
  unchanged := fun place houtside =>
    h.unchanged place fun b hb => houtside b (List.mem_cons_of_mem a hb)

/-- Configuring an MSI capability, and then the rest of the list in the space as it is then. -/
theorem cons_msi (hplaced : Placed space device (a :: chain)) (hmsi : IsMsi space device a)
    (hlast : (capAt space₁ device a).lastOffset = (capAt space device a).lastOffset)
    (hconfigured : Configured msgAddr msgData numVectorExponent (capAt space device a)
      (capAt space₁ device a))
    (houtside : ∀ place, ¬ InRegisters space device a place → space₁.at place = space.at place)
    (hsame : ∀ b ∈ chain, (capAt space₁ device b).word0 = (capAt space device b).word0)
    (h : ConfiguresExactly msgAddr msgData numVectorExponent device chain space₁ space') :
    ConfiguresExactly msgAddr msgData numVectorExponent device (a :: chain) space space' := by
  have hnot : a ∉ chain := (List.nodup_cons.mp hplaced.nodup).1
  have hne {b : UInt8} (hb : b ∈ chain) : b ≠ a := fun heq => hnot (heq ▸ hb)
  -- the capability keeps what it was given, since no later one shares a place with it
  have hkept : capAt space' device a = capAt space₁ device a := by
    refine capAt_congr fun place hplace => h.unchanged place fun b hb hmsi' => ?_
    obtain ⟨-, hlast', hmsi'', -, -⟩ := header_congr (hsame b hb)
    rw [inRegisters_congr hlast']
    exact hplaced.disjoint (List.mem_cons_of_mem a hb) (hmsi''.mp hmsi') List.mem_cons_self hmsi
      (hne hb) ((inRegisters_congr hlast).mp hplace)
  refine ⟨fun b hb hmsi' => ?_, fun b hb hmsi' => ?_, fun place hplace => ?_⟩
  · obtain rfl | hb := List.mem_cons.mp hb
    · rw [Readable, hkept, hlast]
      exact hplaced.fits b List.mem_cons_self hmsi
    · exact h.readable b hb ((header_congr (hsame b hb)).2.2.1.mpr hmsi')
  · obtain rfl | hb := List.mem_cons.mp hb
    · rw [hkept]
      exact hconfigured
    · obtain ⟨-, -, hmsi'', -, hcontrol⟩ := header_congr (hsame b hb)
      exact (h.configured b hb (hmsi''.mpr hmsi')).congr hcontrol
  · rw [h.unchanged place ?_, houtside place (hplace a List.mem_cons_self hmsi)]
    intro b hb hmsi'
    obtain ⟨-, hlast', hmsi'', -, -⟩ := header_congr (hsame b hb)
    rw [inRegisters_congr hlast']
    exact hplace b (List.mem_cons_of_mem a hb) (hmsi''.mp hmsi')

end ConfiguresExactly

/-- Writing to an MSI capability leaves the headers of the others. -/
theorem Placed.sameHeader (hplaced : Placed space device (a :: chain)) (hmsi : IsMsi space device a)
    (houtside : ∀ place, ¬ InRegisters space device a place → space'.at place = space.at place)
    (hb : b ∈ chain) : (capAt space' device b).word0 = (capAt space device b).word0 := by
  have hnot : a ∉ chain := (List.nodup_cons.mp hplaced.nodup).1
  rw [capAt_word0, capAt_word0]
  apply houtside
  refine hplaced.header_outside List.mem_cons_self hmsi (List.mem_cons_of_mem a hb) ?_
  rintro rfl
  exact hnot hb

/-- The loop along a list whose capabilities can all be read. -/
theorem forEach_configure (msgAddr msgData : UInt32) (numVectorExponent : Nat)
    (hchain : IsChain space device start chain) (hplaced : Placed space device chain)
    (hread : ∀ a ∈ chain, Readable space device a) (written : Bool) :
    ∃ space' written', Returns (forEach device Prod.fst
        (configureMsiBody device msgAddr msgData numVectorExponent) ⟨start⟩ (space, written))
        (.ok (space', written')) ∧
      (written' = true ↔ written = true ∨ ∃ a ∈ chain, IsMsi space device a) ∧
      ConfiguresExactly msgAddr msgData numVectorExponent device chain space space' := by
  induction chain generalizing start space written with
  | nil =>
      obtain rfl : start = 0 := hchain
      exact ⟨space, written, returns_forEach_null.mpr rfl, by simp, .nil⟩
  | cons a chain ih =>
      obtain ⟨rfl, hrest⟩ := hchain
      have ha := hplaced.ne_zero List.mem_cons_self
      have hcap := hread start List.mem_cons_self
      have htail : ∀ b ∈ chain, Readable space device b := fun b hb =>
        hread b (List.mem_cons_of_mem start hb)
      by_cases hmsi : IsMsi space device start
      · obtain ⟨space₁, hbody, hlast, hconfigured, houtside⟩ :=
          configureMsiBody_eq hcap msgAddr msgData numVectorExponent written
        have hsame {b : UInt8} (hb : b ∈ chain) := hplaced.sameHeader hmsi houtside hb
        obtain ⟨space', written', hreturns, hwritten, hexact⟩ := ih
          (hrest.congr fun b hb => hsame hb) (hplaced.tail.congr fun b hb => hsame hb)
          (fun b hb => (header_congr (hsame hb)).2.2.2.1.mpr (htail b hb)) true
        refine ⟨space', written', ?_, ?_, ?_⟩
        · exact (returns_forEach_msi Prod.fst (space, written) ha hcap hmsi hbody).mpr hreturns
        · simp [hwritten, hmsi]
        · exact .cons_msi hplaced hmsi hlast hconfigured houtside (fun b hb => hsame hb) hexact
      · obtain ⟨space', written', hreturns, hwritten, hexact⟩ := ih hrest hplaced.tail htail written
        refine ⟨space', written', ?_, ?_, hexact.cons_other hmsi⟩
        · exact (returns_forEach_other Prod.fst (space, written) ha hcap hmsi).mpr hreturns
        · simp [hwritten, hmsi]

/-- A capability that cannot be read ends the loop with an overflow. -/
theorem forEach_overflow (msgAddr msgData : UInt32) (numVectorExponent : Nat)
    (hchain : IsChain space device start chain) (hplaced : Placed space device chain)
    (hread : ∃ a ∈ chain, ¬ Readable space device a) (written : Bool) :
    Returns (forEach device Prod.fst (configureMsiBody device msgAddr msgData numVectorExponent)
      ⟨start⟩ (space, written)) (.error .overflow) := by
  induction chain generalizing start space written with
  | nil =>
      obtain ⟨a, ha, -⟩ := hread
      exact absurd ha List.not_mem_nil
  | cons a chain ih =>
      obtain ⟨rfl, hrest⟩ := hchain
      have ha := hplaced.ne_zero List.mem_cons_self
      by_cases hcap : Readable space device start
      · obtain ⟨b, hb, hb'⟩ : ∃ b ∈ chain, ¬ Readable space device b := by
          obtain ⟨b, hb, hb'⟩ := hread
          obtain rfl | hb := List.mem_cons.mp hb
          · exact absurd hcap hb'
          · exact ⟨b, hb, hb'⟩
        by_cases hmsi : IsMsi space device start
        · obtain ⟨space₁, hbody, -, -, houtside⟩ :=
            configureMsiBody_eq hcap msgAddr msgData numVectorExponent written
          have hsame {b : UInt8} (hb : b ∈ chain) := hplaced.sameHeader hmsi houtside hb
          refine (returns_forEach_msi Prod.fst (space, written) ha hcap hmsi hbody).mpr ?_
          exact ih (hrest.congr fun b hb => hsame hb) (hplaced.tail.congr fun b hb => hsame hb)
            ⟨b, hb, fun h => hb' ((header_congr (hsame hb)).2.2.2.1.mp h)⟩ true
        · refine (returns_forEach_other Prod.fst (space, written) ha hcap hmsi).mpr ?_
          exact ih hrest hplaced.tail ⟨b, hb, hb'⟩ written
      · exact (returns_forEach_not_readable Prod.fst (space, written) ha hcap).mpr rfl

end chain

section configure

open MsiCapabilityIterator

variable {space space' : ConfigSpace} {device : PciDevice} {chain : List UInt8}

/-- A capability list from register `0x34` with an MSI capability in it. -/
structure CapabilityList (space : ConfigSpace) (device : PciDevice) (chain : List UInt8) : Prop
    extends Placed space device chain where
  chained : IsChain space device
    (readData space (.new device.bus device.device device.function 0x34) &&& 0xff).toUInt8 chain
  some_msi : ∃ a ∈ chain, IsMsi space device a

theorem configureMsi_monotone (space : ConfigSpace) (device : PciDevice) (msgAddr msgData : UInt32)
    (numVectorExponent : Nat) :
    Monotone (configureMsi space device msgAddr msgData numVectorExponent) := by
  intro m n hmn
  refine Fueled.bind_mono (le_refl _) fun capAddr => ?_
  exact Fueled.bind_mono (forEach_monotone _ _ hmn) fun state => le_refl _

/-- The assertion fails. -/
theorem configureMsi_of_error {e : Panic} (h : device.readCapabilitiesPointer space = .error e)
    (msgAddr msgData : UInt32) (numVectorExponent : Nat) :
    Returns (configureMsi space device msgAddr msgData numVectorExponent) (.error e) := by
  refine ⟨0, ?_⟩
  rw [configureMsi, h]
  rfl

/-- The loop decides, once the pointer is read. -/
theorem configureMsi_of_loop {capAddr : UInt8} {out : Rust (ConfigSpace × Bool)}
    {msgAddr msgData : UInt32} {numVectorExponent : Nat}
    (h : device.readCapabilitiesPointer space = .ok capAddr)
    (hloop : Returns (forEach device Prod.fst
      (configureMsiBody device msgAddr msgData numVectorExponent) ⟨capAddr⟩ (space, false)) out) :
    Returns (configureMsi space device msgAddr msgData numVectorExponent) (do
      let state ← out
      if !state.2 then .error (.message "MSI capability not found") else .ok state.1) := by
  obtain ⟨fuel, hfuel⟩ := hloop
  refine ⟨fuel, ?_⟩
  rw [configureMsi, h, Fueled.lift_ok_bind]
  simp only [MsiCapabilityIterator.new]
  rw [hfuel]
  obtain e | ⟨space', written⟩ := out
  · rfl
  · cases written <;> rfl

/-- A header type of layout 0. -/
theorem HeaderType.eq_of_layout {type : HeaderType} (h : type.raw &&& 0x7f = 0) :
    type.raw = 0 ∨ type.raw = 0x80 := by
  have hlt := type.raw.toNat_lt
  have hmod : type.raw.toNat % 128 = 0 := by
    have htoNat := congrArg UInt8.toNat h
    rw [UInt8.toNat_and] at htoNat
    rw [← Nat.and_two_pow_sub_one_eq_mod _ 7]
    exact htoNat
  obtain hzero | hmulti : type.raw.toNat = 0 ∨ type.raw.toNat = 128 := by omega
  · exact .inl (UInt8.toNat_inj.mp hzero)
  · exact .inr (UInt8.toNat_inj.mp hmulti)

/-- The assertion takes the multi-function bit for a part of the layout. -/
theorem readCapabilitiesPointer_eq (space : ConfigSpace)
    (hlayout : device.headerType.raw &&& 0x7f = 0) :
    device.readCapabilitiesPointer space =
      if device.headerType.isMultiFunction then .error .assertion
      else .ok (readData space
        (.new device.bus device.device device.function 0x34) &&& 0xff).toUInt8 := by
  rw [PciDevice.readCapabilitiesPointer, HeaderType.isGenericDevice, HeaderType.isPciToPciBridge,
    HeaderType.isMultiFunction]
  obtain hraw | hraw := HeaderType.eq_of_layout hlayout
  · rw [hraw]
    rfl
  · rw [hraw]
    rfl

/--
`configure_msi` does what it is for if the function is alone in its device, and if every
capability that is not MSI leaves room for the MSI record that is read in its place.
-/
theorem configureMsi_iff (space : ConfigSpace) (device : PciDevice) (chain : List UInt8)
    (msgAddr msgData : UInt32) (numVectorExponent : Nat)
    (hlayout : device.headerType.raw &&& 0x7f = 0) (hlist : CapabilityList space device chain) :
    (∃ space', Returns (configureMsi space device msgAddr msgData numVectorExponent) (.ok space') ∧
      ConfiguresExactly msgAddr msgData numVectorExponent device chain space space') ↔
      device.headerType.isMultiFunction = false ∧
        ∀ a ∈ chain, ¬ IsMsi space device a → Readable space device a := by
  have hpointer := readCapabilitiesPointer_eq space hlayout
  have hmono := configureMsi_monotone space device msgAddr msgData numVectorExponent
  constructor
  · rintro ⟨space', hreturns, -⟩
    have hsingle : device.headerType.isMultiFunction = false := by
      by_contra hmulti
      rw [if_pos (by simpa using hmulti)] at hpointer
      cases hreturns.unique hmono (configureMsi_of_error hpointer _ _ _)
    refine ⟨hsingle, fun a ha _ => ?_⟩
    by_contra hread
    rw [hsingle, if_neg Bool.false_ne_true] at hpointer
    have hloop := forEach_overflow msgAddr msgData numVectorExponent hlist.chained hlist.toPlaced
      ⟨a, ha, hread⟩ false
    cases hreturns.unique hmono (configureMsi_of_loop hpointer hloop)
  · rintro ⟨hsingle, hread⟩
    rw [hsingle, if_neg Bool.false_ne_true] at hpointer
    have hall : ∀ a ∈ chain, Readable space device a := by
      intro a ha
      by_cases hmsi : IsMsi space device a
      · exact hlist.fits a ha hmsi
      · exact hread a ha hmsi
    obtain ⟨space', written, hloop, hwritten, hexact⟩ := forEach_configure msgAddr msgData
      numVectorExponent hlist.chained hlist.toPlaced hall false
    obtain rfl : written = true := hwritten.mpr (.inr hlist.some_msi)
    exact ⟨space', configureMsi_of_loop hpointer hloop, hexact⟩

/-- A function with a power management capability at `0x40` and an MSI capability at `0x50`. -/
def twoCapabilities (headerType : UInt8) : ConfigSpace := fun _ _ _ register =>
  if register = 0 then 0x12348086
  else if register = 0x0c then headerType.toUInt32 <<< 16
  else if register = 0x34 then 0x40
  else if register = 0x40 then 0x5001
  else if register = 0x50 then 0x0005
  else 0

theorem twoCapabilities_list {headerType : UInt8} (h : headerType = 0 ∨ headerType = 0x80) :
    CapabilityList (twoCapabilities headerType) (.new (twoCapabilities headerType) 0 1 0)
      [0x40, 0x50] := by
  obtain rfl | rfl := h
  all_goals exact
    { nodup := by decide
      aligned := by decide +kernel
      behind := by decide +kernel
      fits := by decide +kernel
      apart := by decide +kernel
      chained := by decide +kernel
      some_msi := by decide +kernel }

theorem configureMsi_iff_twoCapabilities :
    ∃ space', Returns (configureMsi (twoCapabilities 0) (.new (twoCapabilities 0) 0 1 0)
        0xfee00000 0x40 0) (.ok space') ∧
      ConfiguresExactly 0xfee00000 0x40 0 (.new (twoCapabilities 0) 0 1 0) [0x40, 0x50]
        (twoCapabilities 0) space' :=
  (configureMsi_iff (twoCapabilities 0) (.new (twoCapabilities 0) 0 1 0) [0x40, 0x50] 0xfee00000
    0x40 0 (by decide +kernel) (twoCapabilities_list (.inl rfl))).mpr
    ⟨by decide +kernel, by decide +kernel⟩

/-- With the multi-function bit, the assertion fails. -/
theorem multi_function_not_configured :
    ¬ ∀ (space : ConfigSpace) (bus device function : UInt8) (chain : List UInt8)
        (msgAddr msgData : UInt32) (numVectorExponent : Nat), Exposed space bus device function →
      (PciDevice.new space bus device function).headerType.raw &&& 0x7f = 0 →
      CapabilityList space (.new space bus device function) chain →
      ∃ space', Returns (configureMsi space (.new space bus device function) msgAddr msgData
          numVectorExponent) (.ok space') ∧
        ConfiguresExactly msgAddr msgData numVectorExponent (.new space bus device function) chain
          space space' := by
  intro h
  have hexposed : Exposed (twoCapabilities 0x80) 0 1 0 :=
    ⟨by decide, by decide, by rw [Present]; decide +kernel, .inl rfl⟩
  obtain ⟨space', hreturns, -⟩ := h (twoCapabilities 0x80) 0 1 0 [0x40, 0x50] 0xfee00000 0x40 0
    hexposed (by decide +kernel) (twoCapabilities_list (.inr rfl))
  have hassert : (PciDevice.new (twoCapabilities 0x80) 0 1 0).readCapabilitiesPointer
      (twoCapabilities 0x80) = .error .assertion := by decide +kernel
  cases hreturns.unique (configureMsi_monotone _ _ _ _ _) (configureMsi_of_error hassert _ _ _)

end configure

end LemolaOs.Pci
