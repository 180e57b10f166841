import LemolaOs.Library.Writes
import Mathlib.Data.Nat.Digits.Defs

/-!
# Typed values in a memory of bytes

A memory has a byte at each of `2 ^ w` addresses, and addresses wrap. A `DataType` says how the
values of a type lie in it, so that a typed store writes the bytes of a value and a typed load
puts a value together again. Two programs may lay a type out on their own; `ReadBy` is what they
have to agree on for one to read what the other writes.

Where a value lies is an offset from some base. Offsets that differ by less than the whole memory
are different addresses, which gives the two rules for a load behind a store (`load_store`,
`load_store_of_apart`). An array is stored element by element, and its rules follow from these by
induction on the array (`load_storeArray`, `load_storeArray_of_apart`).
-/

namespace LemolaOs

universe u v

/-- A byte for every address. -/
abbrev Memory (w : Nat) := BitVec w → UInt8

/-- A type as it lies in memory. The bytes of a value include its padding. -/
structure DataType (α : Type u) where
  size : Nat
  toBytes : α → List UInt8
  ofBytes : List UInt8 → α
  size_pos : 0 < size
  length_toBytes : ∀ a, (toBytes a).length = size
  ofBytes_toBytes : ∀ a, ofBytes (toBytes a) = a

namespace DataType

variable {w : Nat} {α : Type u} {β : Type v} {S : DataType β} {T writer reader : DataType α}

/-- What one program writes, the other reads. -/
structure ReadBy (writer reader : DataType α) : Prop where
  size_eq : reader.size = writer.size
  ofBytes_toBytes : ∀ a, reader.ofBytes (writer.toBytes a) = a

theorem ReadBy.refl (T : DataType α) : T.ReadBy T := ⟨rfl, T.ofBytes_toBytes⟩

/-- `p.add(count)` of a pointer to the type. -/
def add (T : DataType α) (p : BitVec w) (count : Nat) : BitVec w :=
  p + BitVec.ofNat w (count * T.size)

/-- `*p = a`. -/
def store (T : DataType α) (mem : Memory w) (p : BitVec w) (a : α) : Memory w :=
  applyWrites mem ((T.toBytes a).zipIdx.map fun byte => (p + BitVec.ofNat w byte.2, byte.1))

/-- `*p`. -/
def load (T : DataType α) (mem : Memory w) (p : BitVec w) : α :=
  T.ofBytes ((List.range T.size).map fun i => mem (p + BitVec.ofNat w i))

/-- `for (i, x) in items.enumerate() { *p.add(i) = x }`. -/
def storeArray (T : DataType α) (mem : Memory w) (p : BitVec w) (items : List α) : Memory w :=
  items.zipIdx.foldl (fun mem item => T.store mem (T.add p item.2) item.1) mem

section Offsets

variable {p : BitVec w} {i j : Nat}

theorem add_ofNat_add_ofNat (p : BitVec w) (i j : Nat) :
    p + BitVec.ofNat w i + BitVec.ofNat w j = p + BitVec.ofNat w (i + j) := by
  rw [BitVec.add_assoc, BitVec.ofNat_add]

/-- Different offsets inside one memory are different addresses. -/
theorem add_ofNat_inj (hi : i < 2 ^ w) (hj : j < 2 ^ w)
    (h : p + BitVec.ofNat w i = p + BitVec.ofNat w j) : i = j := by
  have hnat := congrArg BitVec.toNat ((BitVec.add_right_inj p).mp h)
  rwa [BitVec.toNat_ofNat, BitVec.toNat_ofNat, Nat.mod_eq_of_lt hi, Nat.mod_eq_of_lt hj] at hnat

end Offsets

section Store

variable {mem mem' : Memory w} {p x : BitVec w} {a : α} {i : Nat}

theorem mem_writes {b : UInt8} :
    (x, b) ∈ (T.toBytes a).zipIdx.map (fun byte => (p + BitVec.ofNat w byte.2, byte.1)) ↔
      ∃ i, (T.toBytes a)[i]? = some b ∧ x = p + BitVec.ofNat w i := by
  simp only [List.mem_map, Prod.exists, Prod.mk.injEq, List.mk_mem_zipIdx_iff_getElem?]
  constructor
  · rintro ⟨b, i, hbyte, rfl, rfl⟩
    exact ⟨i, hbyte, rfl⟩
  · rintro ⟨i, hbyte, rfl⟩
    exact ⟨b, i, hbyte, rfl, rfl⟩

theorem store_of_outside (h : ∀ i < T.size, x ≠ p + BitVec.ofNat w i) :
    T.store mem p a x = mem x := by
  refine applyWrites_of_not_mem fun b hb => ?_
  obtain ⟨i, hbyte, rfl⟩ := mem_writes.mp hb
  have hi : i < (T.toBytes a).length := (List.getElem?_eq_some_iff.mp hbyte).1
  exact h i (T.length_toBytes a ▸ hi) rfl

theorem store_of_inside (hfit : T.size ≤ 2 ^ w) {b : UInt8} (hbyte : (T.toBytes a)[i]? = some b) :
    T.store mem p a (p + BitVec.ofNat w i) = b := by
  have hlt {j : Nat} {c : UInt8} (hc : (T.toBytes a)[j]? = some c) : j < 2 ^ w := by
    have hj : j < (T.toBytes a).length := (List.getElem?_eq_some_iff.mp hc).1
    have hlength := T.length_toBytes a
    omega
  refine applyWrites_of_mem (mem_writes.mpr ⟨i, hbyte, rfl⟩) fun c hc => ?_
  obtain ⟨j, hbyte', heq⟩ := mem_writes.mp hc
  have hij : i = j := add_ofNat_inj (hlt hbyte) (hlt hbyte') heq
  subst hij
  exact Option.some_injective _ (hbyte'.symm.trans hbyte)

/-- A load sees nothing but the bytes of its value. -/
theorem load_congr (h : ∀ i < T.size, mem (p + BitVec.ofNat w i) = mem' (p + BitVec.ofNat w i)) :
    T.load mem p = T.load mem' p := by
  rw [load, load, List.map_congr_left fun i hi => h i (List.mem_range.mp hi)]

theorem load_store (h : writer.ReadBy reader) (hfit : writer.size ≤ 2 ^ w) (mem : Memory w)
    (p : BitVec w) (a : α) : reader.load (writer.store mem p a) p = a := by
  have hbytes : (List.range reader.size).map
      (fun i => writer.store mem p a (p + BitVec.ofNat w i)) = writer.toBytes a := by
    refine List.ext_getElem ?_ fun i _ hi => ?_
    · rw [List.length_map, List.length_range, h.size_eq, writer.length_toBytes]
    · rw [List.getElem_map, List.getElem_range]
      exact store_of_inside hfit (List.getElem?_eq_getElem hi)
  rw [load, hbytes, h.ofBytes_toBytes]

/-- A store behind a value, or in front of it, leaves it. -/
theorem load_store_of_apart {read written : Nat}
    (hapart : read + S.size ≤ written ∨ written + T.size ≤ read) (hread : read + S.size ≤ 2 ^ w)
    (hwritten : written + T.size ≤ 2 ^ w) (mem : Memory w) (p : BitVec w) (a : α) :
    S.load (T.store mem (p + BitVec.ofNat w written) a) (p + BitVec.ofNat w read) =
      S.load mem (p + BitVec.ofNat w read) := by
  refine load_congr fun i hi => store_of_outside fun j hj heq => ?_
  rw [add_ofNat_add_ofNat, add_ofNat_add_ofNat] at heq
  have hoffsets : read + i = written + j := add_ofNat_inj (by omega) (by omega) heq
  omega

end Store

section Array

variable {items : List α}

@[simp] theorem storeArray_nil (T : DataType α) (mem : Memory w) (p : BitVec w) :
    T.storeArray mem p [] = mem := rfl

/-- The last round of the loop. -/
theorem storeArray_concat (T : DataType α) (mem : Memory w) (p : BitVec w)
    (items : List α) (a : α) :
    T.storeArray mem p (items ++ [a]) =
      T.store (T.storeArray mem p items) (T.add p items.length) a := by
  rw [storeArray, List.zipIdx_append, List.foldl_append, Nat.zero_add]
  rfl

/-- The elements lie behind each other. -/
theorem length_mul_size_concat (T : DataType α) (items : List α) (a : α) :
    (items ++ [a]).length * T.size = items.length * T.size + T.size := by
  rw [List.length_append, List.length_singleton, Nat.succ_mul]

theorem load_storeArray_of_apart {read written : Nat} (hapart : read + S.size ≤ written)
    (hfit : written + items.length * T.size ≤ 2 ^ w) (mem : Memory w) (p : BitVec w) :
    S.load (T.storeArray mem (p + BitVec.ofNat w written) items) (p + BitVec.ofNat w read) =
      S.load mem (p + BitVec.ofNat w read) := by
  induction items using List.reverseRecOn with
  | nil => rfl
  | append_singleton items a ih =>
      rw [length_mul_size_concat] at hfit
      rw [storeArray_concat, add, add_ofNat_add_ofNat,
        load_store_of_apart (.inl (by omega)) (by omega) (by omega), ih (by omega)]

/-- An array behind a header leaves the header. -/
theorem load_storeArray_behind (hfit : S.size + items.length * T.size ≤ 2 ^ w) (mem : Memory w)
    (p : BitVec w) : S.load (T.storeArray mem (S.add p 1) items) p = S.load mem p := by
  have hbase : p + BitVec.ofNat w 0 = p := BitVec.add_zero p
  have hkept : S.load (T.storeArray mem (p + BitVec.ofNat w (1 * S.size)) items)
      (p + BitVec.ofNat w 0) = S.load mem (p + BitVec.ofNat w 0) :=
    load_storeArray_of_apart (by omega) (by omega) mem p
  rwa [hbase] at hkept

/-- Every element of a stored array is where the reader looks for it. -/
theorem load_storeArray (h : writer.ReadBy reader) (hfit : items.length * writer.size ≤ 2 ^ w)
    (mem : Memory w) (p : BitVec w) {i : Nat} (hi : i < items.length) :
    reader.load (writer.storeArray mem p items) (reader.add p i) = items[i] := by
  have hadd : reader.add p i = writer.add p i := by rw [add, add, h.size_eq]
  rw [hadd]
  induction items using List.reverseRecOn with
  | nil => exact absurd hi (Nat.not_lt_zero i)
  | append_singleton items a ih =>
      rw [length_mul_size_concat] at hfit
      rw [storeArray_concat]
      have hsize := writer.size_pos
      rcases Nat.lt_or_ge i items.length with hlt | hge
      · -- an earlier element is in front of the last one
        have hbefore : i * writer.size + writer.size ≤ items.length * writer.size := by
          rw [← Nat.succ_mul]
          exact Nat.mul_le_mul_right _ hlt
        rw [List.getElem_append_left hlt, ← ih (by omega) hlt]
        refine load_store_of_apart (.inl ?_) ?_ (by omega) _ p a
        · rwa [h.size_eq]
        · rw [h.size_eq]
          omega
      · have hlast : i = items.length := by
          rw [List.length_append, List.length_singleton] at hi
          omega
        subst hlast
        rw [load_store h (by omega), List.getElem_append_right le_rfl]
        simp

end Array

section Types

/-- The `n` bytes of a number, the lowest first. -/
def leBytes : Nat → Nat → List UInt8
  | 0, _ => []
  | n + 1, x => UInt8.ofNat x :: leBytes n (x / 256)

def ofLeBytes (bytes : List UInt8) : Nat := Nat.ofDigits 256 (bytes.map UInt8.toNat)

theorem length_leBytes (n x : Nat) : (leBytes n x).length = n := by
  induction n generalizing x with
  | zero => rfl
  | succ n ih => rw [leBytes, List.length_cons, ih]

theorem ofLeBytes_leBytes (n x : Nat) : ofLeBytes (leBytes n x) = x % 256 ^ n := by
  induction n generalizing x with
  | zero => rw [Nat.pow_zero, Nat.mod_one]; rfl
  | succ n ih =>
      have hrest : Nat.ofDigits 256 ((leBytes n (x / 256)).map UInt8.toNat) =
          x / 256 % 256 ^ n := ih (x / 256)
      rw [ofLeBytes, leBytes, List.map_cons, Nat.ofDigits_cons, hrest, Nat.pow_succ', Nat.mod_mul]
      rfl

/-- A type of numbers of `n + 1` bytes. -/
def littleEndian (n : Nat) (toNat : α → Nat) (ofNat : Nat → α)
    (h : ∀ a, ofNat (toNat a % 256 ^ (n + 1)) = a) : DataType α where
  size := n + 1
  toBytes a := leBytes (n + 1) (toNat a)
  ofBytes bytes := ofNat (ofLeBytes bytes)
  size_pos := Nat.succ_pos n
  length_toBytes a := length_leBytes (n + 1) (toNat a)
  ofBytes_toBytes a := by rw [ofLeBytes_leBytes, h]

/-- `u32`. -/
def u32 : DataType UInt32 :=
  littleEndian 3 UInt32.toNat UInt32.ofNat fun x => by
    have hlt : x.toNat < 256 ^ 4 := x.toNat_lt
    rw [Nat.mod_eq_of_lt hlt, UInt32.ofNat_toNat]

/-- `u64`. -/
def u64 : DataType UInt64 :=
  littleEndian 7 UInt64.toNat UInt64.ofNat fun x => by
    have hlt : x.toNat < 256 ^ 8 := x.toNat_lt
    rw [Nat.mod_eq_of_lt hlt, UInt64.ofNat_toNat]

/-- A type whose values lie in memory as those of another one. -/
def via (T : DataType β) (f : α → β) (g : β → α) (h : ∀ a, g (f a) = a) : DataType α where
  size := T.size
  toBytes a := T.toBytes (f a)
  ofBytes bytes := g (T.ofBytes bytes)
  size_pos := T.size_pos
  length_toBytes a := T.length_toBytes (f a)
  ofBytes_toBytes a := by rw [T.ofBytes_toBytes, h]

/-- One field behind another. -/
def prod (S : DataType α) (T : DataType β) : DataType (α × β) where
  size := S.size + T.size
  toBytes x := S.toBytes x.1 ++ T.toBytes x.2
  ofBytes bytes := (S.ofBytes (bytes.take S.size), T.ofBytes (bytes.drop S.size))
  size_pos := Nat.add_pos_left S.size_pos _
  length_toBytes x := by rw [List.length_append, S.length_toBytes, T.length_toBytes]
  ofBytes_toBytes x := by
    rw [List.take_left' (S.length_toBytes x.1), List.drop_left' (S.length_toBytes x.1),
      S.ofBytes_toBytes, T.ofBytes_toBytes]

/-- Padding behind a field. -/
def padded (T : DataType α) (count : Nat) : DataType α where
  size := T.size + count
  toBytes a := T.toBytes a ++ List.replicate count 0
  ofBytes bytes := T.ofBytes (bytes.take T.size)
  size_pos := Nat.add_pos_left T.size_pos _
  length_toBytes a := by rw [List.length_append, T.length_toBytes, List.length_replicate]
  ofBytes_toBytes a := by rw [List.take_left' (T.length_toBytes a), T.ofBytes_toBytes]

end Types

end DataType

end LemolaOs
