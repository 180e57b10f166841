import LemolaOs.Library.Emit
import Mathlib.Logic.Function.Basic
import Mathlib.Tactic

/-!
# Memory after a sequence of writes

A memory is a function from addresses to values, and `applyWrites` carries out a
list of writes in order. What one address holds afterwards is decided by the
writes to that address alone: the old value if there is none, and the written
value if all of them agree.

Two computations that emit writes are compared by `Emit.SameAt`: they end alike and
leave the same values at the addresses that matter. A loop may be replaced round by
round (`Emit.SameAt.forEach`).
-/

namespace LemolaOs

universe u v

variable {ι : Type u} {β : Type v} [DecidableEq ι]

/-- Carry out the writes from left to right. -/
def applyWrites (mem : ι → β) (writes : List (ι × β)) : ι → β :=
  writes.foldl (fun mem write => Function.update mem write.1 write.2) mem

@[simp] theorem applyWrites_nil (mem : ι → β) : applyWrites mem [] = mem := rfl

@[simp] theorem applyWrites_cons (mem : ι → β) (write : ι × β) (writes : List (ι × β)) :
    applyWrites mem (write :: writes) =
      applyWrites (Function.update mem write.1 write.2) writes := rfl

theorem applyWrites_append (mem : ι → β) (first second : List (ι × β)) :
    applyWrites mem (first ++ second) = applyWrites (applyWrites mem first) second :=
  List.foldl_append

/-- A loop each of whose rounds carries out some writes. -/
theorem applyWrites_flatMap {α : Type*} (writes : α → List (ι × β)) (xs : List α) (mem : ι → β) :
    xs.foldl (fun mem x => applyWrites mem (writes x)) mem =
      applyWrites mem (xs.flatMap writes) := by
  induction xs generalizing mem with
  | nil => rfl
  | cons x xs ih => rw [List.foldl_cons, ih, List.flatMap_cons, applyWrites_append]

theorem applyWrites_of_not_mem {mem : ι → β} {writes : List (ι × β)} {i : ι}
    (h : ∀ b, (i, b) ∉ writes) : applyWrites mem writes i = mem i := by
  induction writes using List.reverseRecOn with
  | nil => rfl
  | append_singleton writes write ih =>
      have hne : i ≠ write.1 := fun heq => h write.2 (by simp [heq])
      rw [applyWrites_append]
      change Function.update (applyWrites mem writes) write.1 write.2 i = _
      rw [Function.update_of_ne hne]
      exact ih fun b hmem => h b (List.mem_append_left _ hmem)

/-- An address written to, always with the same value, holds that value. -/
theorem applyWrites_of_mem {mem : ι → β} {writes : List (ι × β)} {i : ι} {value : β}
    (hmem : (i, value) ∈ writes) (hall : ∀ b, (i, b) ∈ writes → b = value) :
    applyWrites mem writes i = value := by
  induction writes using List.reverseRecOn with
  | nil => simp at hmem
  | append_singleton writes write ih =>
      rw [applyWrites_append]
      change Function.update (applyWrites mem writes) write.1 write.2 i = _
      by_cases heq : i = write.1
      · subst heq
        rw [Function.update_self]
        exact hall write.2 (by simp)
      · rw [Function.update_of_ne heq]
        refine ih ?_ fun b hb => hall b (List.mem_append_left _ hb)
        rcases List.mem_append.mp hmem with hmem | hmem
        · exact hmem
        · rw [List.mem_singleton] at hmem
          subst hmem
          exact absurd rfl heq

/-- What an address holds afterwards depends on nothing but what it held before. -/
theorem applyWrites_congr {mem mem' : ι → β} {i : ι} (h : mem i = mem' i)
    (writes : List (ι × β)) : applyWrites mem writes i = applyWrites mem' writes i := by
  induction writes generalizing mem mem' with
  | nil => exact h
  | cons write writes ih =>
      rw [applyWrites_cons, applyWrites_cons]
      refine ih ?_
      by_cases heq : i = write.1
      · subst heq
        rw [Function.update_self, Function.update_self]
      · rw [Function.update_of_ne heq, Function.update_of_ne heq, h]

/-- Nothing of the old memory is left at an address that is written to. -/
theorem applyWrites_of_written {writes : List (ι × β)} {i : ι} {b : β} (h : (i, b) ∈ writes)
    (mem mem' : ι → β) : applyWrites mem writes i = applyWrites mem' writes i := by
  obtain ⟨before, after, rfl⟩ := List.append_of_mem h
  rw [applyWrites_append, applyWrites_append, applyWrites_cons, applyWrites_cons]
  refine applyWrites_congr ?_ _
  rw [Function.update_self, Function.update_self]

/-- In a loop only one of whose rounds writes to an address, that round decides. -/
theorem applyWrites_flatMap_of_unique {α : Type*} {xs : List α} {writes : α → List (ι × β)} {x : α}
    {i : ι} (mem : ι → β) (hx : x ∈ xs) (hnodup : xs.Nodup)
    (hother : ∀ y ∈ xs, y ≠ x → ∀ b, (i, b) ∉ writes y) :
    applyWrites mem (xs.flatMap writes) i = applyWrites mem (writes x) i := by
  obtain ⟨before, after, rfl⟩ := List.append_of_mem hx
  obtain ⟨-, hafter, hdisjoint⟩ := List.nodup_append.mp hnodup
  have hbefore : ∀ b, (i, b) ∉ before.flatMap writes := by
    intro b hb
    obtain ⟨y, hy, hb⟩ := List.mem_flatMap.mp hb
    exact hother y (List.mem_append_left _ hy) (hdisjoint y hy x List.mem_cons_self) b hb
  have hrest : ∀ b, (i, b) ∉ after.flatMap writes := by
    intro b hb
    obtain ⟨y, hy, hb⟩ := List.mem_flatMap.mp hb
    refine hother y (List.mem_append_right _ (List.mem_cons_of_mem x hy)) ?_ b hb
    exact fun heq => (List.nodup_cons.mp hafter).1 (heq ▸ hy)
  rw [List.flatMap_append, List.flatMap_cons, applyWrites_append, applyWrites_append,
    applyWrites_of_not_mem hrest]
  exact applyWrites_congr (applyWrites_of_not_mem hbefore) _

namespace Emit

variable {ε : Type*} {α : Type*} {P : ι → Prop} {a a' b b' : Emit (ι × β) ε}

/-- The computations end alike and leave the same values at the addresses in `P`. -/
structure SameAt (P : ι → Prop) (a b : Emit (ι × β) ε) : Prop where
  ended : a.ended = b.ended
  values : ∀ mem i, P i → applyWrites mem a.effects i = applyWrites mem b.effects i

theorem SameAt.refl (P : ι → Prop) (a : Emit (ι × β) ε) : a.SameAt P a := ⟨rfl, fun _ _ _ => rfl⟩

/-- The same writes at the addresses in `P`, with no two different values for one of them. -/
theorem SameAt.of_mem (hended : a.ended = b.ended)
    (hmem : ∀ i x, P i → ((i, x) ∈ a.effects ↔ (i, x) ∈ b.effects))
    (hunique : ∀ i x x', (i, x) ∈ a.effects → (i, x') ∈ a.effects → x = x') : a.SameAt P b := by
  refine ⟨hended, ?_⟩
  intro mem i hi
  by_cases hwritten : ∃ x, (i, x) ∈ a.effects
  · obtain ⟨x, hx⟩ := hwritten
    rw [applyWrites_of_mem hx fun x' hx' => hunique i x' x hx' hx,
      applyWrites_of_mem ((hmem i x hi).mp hx) fun x' hx' =>
        hunique i x' x ((hmem i x' hi).mpr hx') hx]
  · push Not at hwritten
    rw [applyWrites_of_not_mem hwritten, applyWrites_of_not_mem fun x hx =>
      hwritten x ((hmem i x hi).mpr hx)]

/-- An address in `P` that one of them writes to is written to by the other. -/
theorem SameAt.exists_mem [Nontrivial β] (h : a.SameAt P b) {i : ι} (hi : P i) {x : β}
    (hx : (i, x) ∈ a.effects) : ∃ x', (i, x') ∈ b.effects := by
  by_contra hkept
  push Not at hkept
  -- otherwise two memories that differ there would agree afterwards
  obtain ⟨u, v, hne⟩ := exists_pair_ne β
  have hu := h.values (fun _ => u) i hi
  have hv := h.values (fun _ => v) i hi
  rw [applyWrites_of_not_mem hkept] at hu hv
  rw [applyWrites_of_written hx _ (fun _ => v), hv] at hu
  exact hne hu.symm

theorem SameAt.andThen (h : a.SameAt P a') (hb : b.SameAt P b') :
    (a.andThen b).SameAt P (a'.andThen b') := by
  have hended := h.ended
  cases ha : a.ended with
  | none =>
      rw [ha] at hended
      simp only [Emit.andThen, ha, ← hended]
      refine ⟨hb.ended, ?_⟩
      intro mem i hi
      rw [applyWrites_append, applyWrites_append, hb.values _ i hi]
      exact applyWrites_congr (h.values mem i hi) _
  | some e =>
      rw [ha] at hended
      simp only [Emit.andThen, ha, ← hended]
      exact h

theorem SameAt.forEach {xs : List α} {f f' : α → Emit (ι × β) ε}
    (h : ∀ x ∈ xs, (f x).SameAt P (f' x)) : (Emit.forEach xs f).SameAt P (Emit.forEach xs f') := by
  induction xs with
  | nil => exact .refl P _
  | cons x xs ih =>
      simp only [List.forall_mem_cons] at h
      exact h.1.andThen (ih h.2)

end Emit

end LemolaOs
