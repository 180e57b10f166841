import Mathlib.Data.Finset.Card
import Mathlib.Data.List.ReduceOption
import Mathlib.Logic.Function.Basic
import Mathlib.Tactic

/-!
# Tables with free slots

A slot of a table is free or has an entry, and an entry has a key. An entry is put into the first
free slot; it is looked up and removed by its key, from the front. The slots that are freed are
used again, so the order of the entries says nothing about their age.

`Holds` says that a table stands for a finite map. As long as no key is put in twice the operations
are those of the map (`Holds.insert`, `Holds.remove`, `Holds.find`, `Holds.set`), and there is no
room if and only if the map has as many keys as the table has slots (`insert_eq_none_iff`).
-/

namespace LemolaOs.SlotTable

universe u v

variable {α : Type u} {κ : Type v}

/-- Put an entry into the first free slot, if there is one. -/
def insert (a : α) : List (Option α) → Option (List (Option α))
  | [] => none
  | none :: slots => some (some a :: slots)
  | some b :: slots => (insert a slots).map (some b :: ·)

/-- The first entry that satisfies `p`. -/
def find (p : α → Bool) : List (Option α) → Option α
  | [] => none
  | none :: slots => find p slots
  | some a :: slots => if p a then some a else find p slots

/-- Free the slot of the first entry that satisfies `p`. -/
def remove (p : α → Bool) : List (Option α) → List (Option α)
  | [] => []
  | none :: slots => none :: remove p slots
  | some a :: slots => if p a then none :: slots else some a :: remove p slots

/-- The table has one entry for each key of the map. -/
structure Holds (key : α → κ) (slots : List (Option α)) (f : κ → Option α) : Prop where
  distinct : (slots.reduceOption.map key).Nodup
  entry_iff : ∀ k a, f k = some a ↔ a ∈ slots.reduceOption ∧ key a = k

section Slots

variable {a : α} {p : α → Bool} {slots slots' : List (Option α)}

/-- The entry is new, and nothing else changes. -/
theorem insert_spec (h : insert a slots = some slots') :
    slots'.length = slots.length ∧ slots'.reduceOption.Perm (a :: slots.reduceOption) := by
  induction slots generalizing slots' with
  | nil => cases h
  | cons slot slots ih =>
      cases slot with
      | none =>
          cases h
          exact ⟨rfl, .refl _⟩
      | some b =>
          obtain ⟨rest, hrest, rfl⟩ := Option.map_eq_some_iff.mp h
          obtain ⟨hlength, hperm⟩ := ih hrest
          refine ⟨congrArg (· + 1) hlength, ?_⟩
          rw [List.reduceOption_cons_of_some, List.reduceOption_cons_of_some]
          exact (hperm.cons b).trans (.swap a b _)

theorem insert_eq_none_iff : insert a slots = none ↔ slots.reduceOption.length = slots.length := by
  rw [List.reduceOption_length_eq_iff]
  induction slots with
  | nil => simp [insert]
  | cons slot slots ih =>
      cases slot with
      | none => simp [insert]
      | some b => simp [insert, ih]

theorem length_remove (p : α → Bool) (slots : List (Option α)) :
    (remove p slots).length = slots.length := by
  induction slots with
  | nil => rfl
  | cons slot slots ih =>
      cases slot with
      | none => exact congrArg (· + 1) ih
      | some b =>
          rw [remove]
          split
          · rfl
          · exact congrArg (· + 1) ih

theorem reduceOption_remove (p : α → Bool) (slots : List (Option α)) :
    (remove p slots).reduceOption = slots.reduceOption.eraseP p := by
  induction slots with
  | nil => rfl
  | cons slot slots ih =>
      cases slot with
      | none => rw [remove, List.reduceOption_cons_of_none, List.reduceOption_cons_of_none, ih]
      | some b =>
          rw [remove, List.reduceOption_cons_of_some]
          split
          next hp => rw [List.reduceOption_cons_of_none, List.eraseP_cons_of_pos hp]
          next hp => rw [List.reduceOption_cons_of_some, List.eraseP_cons_of_neg hp, ih]

theorem find_eq_find? (p : α → Bool) (slots : List (Option α)) :
    find p slots = slots.reduceOption.find? p := by
  induction slots with
  | nil => rfl
  | cons slot slots ih =>
      cases slot with
      | none => rw [find, List.reduceOption_cons_of_none, ih]
      | some b =>
          rw [find, List.reduceOption_cons_of_some, List.find?_cons, ih]
          cases p b <;> rfl

end Slots

section Map

variable {key : α → κ} {slots slots' : List (Option α)} {f : κ → Option α} {a b : α} {k : κ}

theorem Holds.replicate (n : Nat) : Holds key (List.replicate n none) fun _ => none := by
  constructor
  · simp
  · simp

/-- A table in which no key is twice stands for the map that is looked up in it. -/
theorem Holds.of_distinct [DecidableEq κ] (h : (slots.reduceOption.map key).Nodup) :
    Holds key slots fun k => find (fun a => key a = k) slots := by
  refine ⟨h, fun k a => ?_⟩
  rw [find_eq_find?]
  constructor
  · intro hfind
    exact ⟨List.mem_of_find?_eq_some hfind, by simpa using List.find?_some hfind⟩
  · rintro ⟨ha, rfl⟩
    cases hfind : slots.reduceOption.find? (fun b => key b = key a) with
    | none => simpa using List.find?_eq_none.mp hfind a ha
    | some b =>
        have hkey : key b = key a := by simpa using List.find?_some hfind
        rw [List.inj_on_of_nodup_map h (List.mem_of_find?_eq_some hfind) ha hkey]

theorem Holds.eq_none_iff (h : Holds key slots f) :
    f k = none ↔ k ∉ slots.reduceOption.map key := by
  rw [List.mem_map, ← not_iff_not, not_not, ← ne_eq, Option.ne_none_iff_exists']
  simp only [h.entry_iff]

/-- There are as many keys as entries. -/
theorem Holds.keys [DecidableEq κ] (h : Holds key slots f) :
    ∃ keys : Finset κ, (∀ k, k ∈ keys ↔ f k ≠ none) ∧ keys.card = slots.reduceOption.length := by
  refine ⟨(slots.reduceOption.map key).toFinset, fun k => ?_, ?_⟩
  · rw [List.mem_toFinset, ne_eq, h.eq_none_iff, not_not]
  · rw [List.toFinset_card_of_nodup h.distinct, List.length_map]

theorem Holds.find [DecidableEq κ] (h : Holds key slots f) (k : κ) :
    find (fun a => key a = k) slots = f k := by
  rw [find_eq_find?]
  cases hfind : slots.reduceOption.find? (fun a => key a = k) with
  | none =>
      symm
      rw [← Option.not_isSome_iff_eq_none, Option.isSome_iff_exists]
      rintro ⟨a, ha⟩
      obtain ⟨hmem, hkey⟩ := (h.entry_iff k a).mp ha
      exact absurd hkey (by simpa using List.find?_eq_none.mp hfind a hmem)
  | some a =>
      have hkey : key a = k := by simpa using List.find?_some hfind
      exact ((h.entry_iff k a).mpr ⟨List.mem_of_find?_eq_some hfind, hkey⟩).symm

theorem Holds.insert [DecidableEq κ] (h : Holds key slots f) (hnew : f (key a) = none)
    (hinsert : insert a slots = some slots') :
    Holds key slots' (Function.update f (key a) (some a)) := by
  obtain ⟨-, hperm⟩ := insert_spec hinsert
  have habsent : ∀ b ∈ slots.reduceOption, key b ≠ key a := by
    intro b hb heq
    rw [(h.entry_iff (key a) b).mpr ⟨hb, heq⟩] at hnew
    cases hnew
  constructor
  · rw [(hperm.map key).nodup_iff, List.map_cons, List.nodup_cons, List.mem_map]
    refine ⟨?_, h.distinct⟩
    rintro ⟨b, hb, heq⟩
    exact habsent b hb heq
  · intro k b
    rw [hperm.mem_iff, List.mem_cons]
    by_cases hk : k = key a
    · subst hk
      rw [Function.update_self, Option.some_inj]
      constructor
      · rintro rfl
        exact ⟨.inl rfl, rfl⟩
      · rintro ⟨rfl | hb, heq⟩
        · rfl
        · exact absurd heq (habsent b hb)
    · rw [Function.update_of_ne hk, h.entry_iff]
      constructor
      · rintro ⟨hb, heq⟩
        exact ⟨.inr hb, heq⟩
      · rintro ⟨rfl | hb, heq⟩
        · exact absurd heq.symm hk
        · exact ⟨hb, heq⟩

theorem Holds.remove [DecidableEq κ] (h : Holds key slots f) (k : κ) :
    Holds key (remove (fun a => key a = k) slots) (Function.update f k none) := by
  constructor
  · rw [reduceOption_remove]
    exact h.distinct.sublist ((List.eraseP_sublist).map key)
  · intro j b
    rw [reduceOption_remove]
    by_cases hj : j = k
    · subst hj
      rw [Function.update_self]
      refine iff_of_false (Option.some_ne_none b).symm ?_
      rintro ⟨hb, hkey⟩
      -- the first entry with the key is gone, and there is no second
      have hmem := List.mem_of_mem_eraseP hb
      obtain ⟨c, before, after, hbefore, hc, hsplit, hrest⟩ :=
        List.exists_of_eraseP (p := fun a => decide (key a = j)) hmem (by simpa using hkey)
      have hdistinct := h.distinct
      rw [hsplit, List.map_append, List.map_cons] at hdistinct
      rw [hrest, List.mem_append] at hb
      have hcj : key c = j := by simpa using hc
      obtain hb | hb := hb
      · exact hbefore b hb (by simpa using hkey)
      · have hnot := (List.nodup_cons.mp (List.nodup_append.mp hdistinct).2.1).1
        exact hnot (List.mem_map.mpr ⟨b, hb, hkey.trans hcj.symm⟩)
    · rw [Function.update_of_ne hj, h.entry_iff]
      refine and_congr_left fun hkey => ?_
      rw [List.mem_eraseP_of_neg]
      simp only [decide_eq_true_eq]
      rw [hkey]
      exact hj

/-- An entry is replaced by another one with its key. -/
theorem Holds.set [DecidableEq κ] {before after : List (Option α)}
    (h : Holds key (before ++ some a :: after) f) (hkey : key b = key a) :
    Holds key (before ++ some b :: after) (Function.update f (key a) (some b)) := by
  have hdistinct := h.distinct
  have hentry := h.entry_iff
  simp only [List.reduceOption_append, List.reduceOption_cons_of_some, List.map_append,
    List.map_cons] at hdistinct hentry
  have hothers : ∀ c, c ∈ before.reduceOption ∨ c ∈ after.reduceOption → key c ≠ key a := by
    intro c hc
    have hparts := List.nodup_append.mp hdistinct
    obtain hc | hc := hc
    · exact hparts.2.2 _ (List.mem_map_of_mem hc) _ List.mem_cons_self
    · intro heq
      exact (List.nodup_cons.mp hparts.2.1).1 (heq ▸ List.mem_map_of_mem hc)
  constructor
  · simpa only [List.reduceOption_append, List.reduceOption_cons_of_some, List.map_append,
      List.map_cons, hkey] using hdistinct
  · intro k c
    simp only [List.reduceOption_append, List.reduceOption_cons_of_some, List.mem_append,
      List.mem_cons]
    by_cases hk : k = key a
    · subst hk
      rw [Function.update_self, Option.some_inj]
      constructor
      · rintro rfl
        exact ⟨.inr (.inl rfl), hkey⟩
      · rintro ⟨hc | rfl | hc, heq⟩
        · exact absurd heq (hothers c (.inl hc))
        · rfl
        · exact absurd heq (hothers c (.inr hc))
    · rw [Function.update_of_ne hk, hentry]
      simp only [List.mem_append, List.mem_cons]
      refine and_congr_left fun heq => ?_
      have hca : c ≠ a := fun hca => hk (heq.symm.trans (congrArg key hca))
      have hcb : c ≠ b := fun hcb => hk (heq.symm.trans ((congrArg key hcb).trans hkey))
      simp only [hca, hcb, false_or]

end Map

end LemolaOs.SlotTable
