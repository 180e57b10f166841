import LemolaOs.Library.TypedMemory
import LemolaOs.Rust

/-!
# The memory map behind its header

`MemMapEntry` and `MemMapIter` of `common/src/types.rs`. The header holds a number, and as many
memory descriptors lie behind it. `new_inplace` writes them, and the iterator that `into_iter`
makes reads them back one by one. `MemoryDescriptor` comes from outside and is a parameter: a type
with a layout.

`Behind` says what the iterator stands on: the descriptors of a list, at the places that its own
pointer arithmetic leads to. Then one call of `next` is one step through the list (`next_spec`),
and calls in a row are as many steps (`nextCalls_spec`). `size` never changes on the way, and
`len` is `size` (`lenAfter_spec`).
-/

namespace LemolaOs.Common

/-- `#[repr(C)]`, with this one field. -/
structure MemMapEntry where
  size : UInt64

def MemMapEntry.layout : DataType MemMapEntry := DataType.u64.via size mk fun _ => rfl

structure MemMapIter where
  index : Nat
  size : Nat
  current : BitVec 64
  deriving DecidableEq

variable {MemoryDescriptor : Type} (descriptor : DataType MemoryDescriptor) (mem : Memory 64)

namespace MemMapEntry

/-- `entry` is the address of the slice; that the slice is large enough and aligned is the
caller's. -/
def newInplace (entry : BitVec 64) (size : UInt64) (iter : List MemoryDescriptor) : Memory 64 :=
  let header := entry
  let mem := layout.store mem header ⟨size⟩
  let descHead := layout.add header 1
  descriptor.storeArray mem descHead iter

/-- `self` is a reference, so the header is read where it lies. -/
def intoIter (mem : Memory 64) (self : BitVec 64) : MemMapIter :=
  { index := 0
    size := (layout.load mem self).size.toNat
    current := layout.add self 1 }

end MemMapEntry

namespace MemMapIter

def next (self : MemMapIter) : Rust (Option MemoryDescriptor × MemMapIter) :=
  if self.size ≤ self.index then return (none, self)
  else do
    let current := descriptor.add self.current self.index
    let index ← usizeAdd self.index 1
    return (some (descriptor.load mem current), { self with index })

/-- `ExactSizeIterator::len`. -/
def len (self : MemMapIter) : Nat := self.size

/-- What a number of calls of `next` return, and the iterator behind them. -/
def nextCalls : Nat → MemMapIter → Rust (List (Option MemoryDescriptor) × MemMapIter)
  | 0, self => return ([], self)
  | calls + 1, self => do
      let (first, self) ← self.next descriptor mem
      let (rest, self) ← nextCalls calls self
      return (first :: rest, self)

/-- `len` behind a number of calls of `next`. -/
def lenAfter (calls : Nat) (self : MemMapIter) : Rust Nat := do
  let (_, self) ← nextCalls descriptor mem calls self
  return self.len

/-- A call that yields a descriptor moves the iterator towards its end. -/
theorem remaining_lt_of_next {self self' : MemMapIter} {desc : MemoryDescriptor}
    (h : self.next descriptor mem = .ok (some desc, self')) :
    self'.size - self'.index < self.size - self.index := by
  rw [next] at h
  split at h
  · cases h
  · obtain ⟨index, hindex, hself⟩ := Rust.bind_eq_ok.mp h
    obtain ⟨-, rfl⟩ := usizeAdd_eq_ok.mp hindex
    cases hself
    dsimp only
    omega

/-- `Iterator::fold`, with a closure that may panic. -/
def foldM {σ : Type} (f : σ → MemoryDescriptor → Rust σ) (self : MemMapIter) (s : σ) : Rust σ :=
  match _h : self.next descriptor mem with
  | .error e => .error e
  | .ok (none, _) => .ok s
  | .ok (some desc, self') => do foldM f self' (← f s desc)
termination_by self.size - self.index
decreasing_by exact remaining_lt_of_next descriptor mem _h

variable {descriptor mem} {descriptors : List MemoryDescriptor} {it : MemMapIter} {before : Nat}

/-- The iterator stands on the descriptors, and `before` calls of `next` have moved it. -/
structure Behind (descriptor : DataType MemoryDescriptor) (mem : Memory 64)
    (descriptors : List MemoryDescriptor) (it : MemMapIter) (before : Nat) : Prop where
  size_eq : it.size = descriptors.length
  index_eq : it.index = min before descriptors.length
  lt_usizeSize : descriptors.length < usizeSize
  load_eq : ∀ i (hi : i < descriptors.length),
    descriptor.load mem (descriptor.add it.current i) = descriptors[i]

/-- One call is one step through the list, and behind its end nothing moves. -/
theorem next_spec (h : Behind descriptor mem descriptors it before) :
    ∃ it', it.next descriptor mem = .ok (descriptors[before]?, it') ∧ it'.size = it.size ∧
      Behind descriptor mem descriptors it' (before + 1) := by
  have hindex := h.index_eq
  have hsize := h.size_eq
  have hfit := h.lt_usizeSize
  rcases Nat.lt_or_ge before descriptors.length with hlt | hge
  · have hbefore : it.index = before := by omega
    have hadd : usizeAdd it.index 1 = .ok (it.index + 1) := usizeAdd_eq_ok.mpr ⟨by omega, rfl⟩
    refine ⟨{ it with index := it.index + 1 }, ?_, rfl, hsize, ?_, hfit, h.load_eq⟩
    · rw [next, if_neg (by omega), hadd, List.getElem?_eq_getElem hlt, ← h.load_eq before hlt,
        ← hbefore]
      rfl
    · change it.index + 1 = _
      omega
  · refine ⟨it, ?_, rfl, hsize, by omega, hfit, h.load_eq⟩
    rw [next, if_pos (by omega), List.getElem?_eq_none hge]
    rfl

/-- The reader finds behind the header what the writer has put there. -/
theorem behind_intoIter {writer reader : DataType MemoryDescriptor} (h : writer.ReadBy reader)
    (mem : Memory 64) (entry : BitVec 64)
    (hroom : MemMapEntry.layout.size + descriptors.length * writer.size ≤ 2 ^ 64) :
    let written := MemMapEntry.newInplace writer mem entry (.ofNat descriptors.length) descriptors
    Behind reader written descriptors (MemMapEntry.intoIter written entry) 0 := by
  intro written
  have hheader : MemMapEntry.layout.load written entry = ⟨.ofNat descriptors.length⟩ := by
    have hkept : MemMapEntry.layout.load written entry = _ :=
      DataType.load_storeArray_behind hroom _ entry
    rw [hkept]
    exact DataType.load_store (.refl _) (by decide) mem entry _
  have hfit : descriptors.length < usizeSize := by
    have hlength := Nat.le_mul_of_pos_right descriptors.length writer.size_pos
    have hsize := MemMapEntry.layout.size_pos
    have husize : usizeSize = 2 ^ 64 := rfl
    omega
  refine ⟨?_, (Nat.zero_min _).symm, hfit, fun i hi => ?_⟩
  · rw [MemMapEntry.intoIter, hheader]
    exact UInt64.toNat_ofNat_of_lt hfit
  · exact DataType.load_storeArray h (by omega) _ _ hi

/-- Every call answers with the next place of the list. -/
theorem nextCalls_spec (calls : Nat) (h : Behind descriptor mem descriptors it before) :
    ∃ it', nextCalls descriptor mem calls it =
        .ok ((List.range' before calls).map (descriptors[·]?), it') ∧ it'.size = it.size := by
  induction calls generalizing it before with
  | zero => exact ⟨it, rfl, rfl⟩
  | succ calls ih =>
      obtain ⟨it₁, hnext, hsize₁, h₁⟩ := next_spec h
      obtain ⟨it₂, hrest, hsize₂⟩ := ih h₁
      refine ⟨it₂, ?_, hsize₂.trans hsize₁⟩
      rw [nextCalls, hnext, Rust.ok_bind]
      dsimp only
      rw [hrest]
      rfl

/-- Through the whole list, and on. -/
theorem nextCalls_through (h : Behind descriptor mem descriptors it 0) (further : Nat) :
    (nextCalls descriptor mem (descriptors.length + further) it).map Prod.fst =
      .ok (descriptors.map some ++ List.replicate further none) := by
  obtain ⟨it', hcalls, -⟩ := nextCalls_spec (descriptors.length + further) h
  have hanswers : (List.range' 0 (descriptors.length + further)).map (descriptors[·]?) =
      descriptors.map some ++ List.replicate further none := by
    refine List.ext_getElem (by simp) fun i _ _ => ?_
    rw [List.getElem_map, List.getElem_range', Nat.zero_add, Nat.one_mul, List.getElem_append]
    split
    next hi =>
      rw [List.length_map] at hi
      rw [List.getElem_map, List.getElem?_eq_getElem hi]
    next hi =>
      rw [List.length_map, Nat.not_lt] at hi
      rw [List.getElem_replicate, List.getElem?_eq_none hi]
  rw [hcalls, hanswers]
  rfl

/-- `len` is the number of all descriptors, however many of them have been taken. -/
theorem lenAfter_spec (h : Behind descriptor mem descriptors it before)
    (calls : Nat) : lenAfter descriptor mem calls it = .ok descriptors.length := by
  obtain ⟨it', hcalls, hsize⟩ := nextCalls_spec calls h
  rw [lenAfter, hcalls, ← h.size_eq, ← hsize]
  rfl

/-- A fold goes through the descriptors that are left. -/
theorem foldM_spec {σ : Type} (f : σ → MemoryDescriptor → Rust σ) (s : σ)
    (h : Behind descriptor mem descriptors it before) :
    it.foldM descriptor mem f s = (descriptors.drop before).foldlM f s := by
  induction hleft : descriptors.length - before generalizing it before s with
  | zero =>
      obtain ⟨it', hnext, -, -⟩ := next_spec h
      rw [List.getElem?_eq_none (by omega)] at hnext
      rw [List.drop_eq_nil_of_le (by omega), foldM]
      split
      next hn => cases hnext.symm.trans hn
      next => rfl
      next hn => cases hnext.symm.trans hn
  | succ left ih =>
      have hlt : before < descriptors.length := by omega
      obtain ⟨it', hnext, -, hbehind⟩ := next_spec h
      rw [List.getElem?_eq_getElem hlt] at hnext
      rw [List.drop_eq_getElem_cons hlt, List.foldlM_cons, foldM]
      split
      next hn => cases hnext.symm.trans hn
      next hn => cases hnext.symm.trans hn
      next hn =>
        cases hnext.symm.trans hn
        cases f s descriptors[before] with
        | error e => rfl
        | ok s' => exact ih s' hbehind (by omega)

end MemMapIter

end LemolaOs.Common
