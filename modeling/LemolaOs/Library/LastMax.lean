import Mathlib.Order.Lattice
import Mathlib.Tactic

/-!
# The last of the largest

A scan of a list that keeps the element with the largest key, and of several with that key the
last. The scan carries the key along with the element, so that each key is computed once.

`lastMax_eq_some_iff` says where the element stands: no key before it is larger, and every key
behind it is smaller.
-/

namespace LemolaOs

universe u v

variable {α : Type u} {β : Type v} [LinearOrder β] {key : α → β}

/-- What the scan keeps after one more element. -/
def keepLast (best : Option (β × α)) (next : β × α) : Option (β × α) :=
  match best with
  | none => some next
  | some best => if next.1 < best.1 then some best else some next

/-- The scan. -/
def lastMax (key : α → β) (xs : List α) : Option α :=
  (xs.foldl (fun best x => keepLast best (key x, x)) none).map Prod.snd

/-- The element stands in the list where the scan finds it. -/
structure IsLastMax (key : α → β) (xs : List α) (a : α) (front back : List α) : Prop where
  eq_append : xs = front ++ a :: back
  le_key : ∀ x ∈ front, key x ≤ key a
  key_lt : ∀ x ∈ back, key x < key a

/-- What the scan holds behind a list. -/
private theorem foldl_keepLast (key : α → β) (xs : List α) :
    (xs = [] ∧ xs.foldl (fun best x => keepLast best (key x, x)) none = none) ∨
      ∃ a front back, xs.foldl (fun best x => keepLast best (key x, x)) none = some (key a, a) ∧
        IsLastMax key xs a front back := by
  induction xs using List.reverseRecOn with
  | nil => exact .inl ⟨rfl, rfl⟩
  | append_singleton xs x ih =>
      right
      rw [List.foldl_append, List.foldl_cons, List.foldl_nil]
      obtain ⟨rfl, hnone⟩ | ⟨a, front, back, hsome, hmax⟩ := ih
      · exact ⟨x, [], [], by rw [hnone]; rfl, rfl, by simp, by simp⟩
      · rw [hsome]
        by_cases hlt : key x < key a
        · refine ⟨a, front, back ++ [x], if_pos hlt, ?_, hmax.le_key, ?_⟩
          · rw [hmax.eq_append, List.append_assoc, List.cons_append]
          · intro y hy
            rw [List.mem_append, List.mem_singleton] at hy
            obtain hy | rfl := hy
            · exact hmax.key_lt y hy
            · exact hlt
        · refine ⟨x, xs, [], if_neg hlt, rfl, fun y hy => ?_, by simp⟩
          have hle : key a ≤ key x := not_lt.mp hlt
          rw [hmax.eq_append, List.mem_append, List.mem_cons] at hy
          obtain hy | rfl | hy := hy
          · exact (hmax.le_key y hy).trans hle
          · exact hle
          · exact (hmax.key_lt y hy).le.trans hle

/-- There is one last maximum. -/
theorem IsLastMax.unique {xs : List α} {a b : α} {front back front' back' : List α}
    (ha : IsLastMax key xs a front back) (hb : IsLastMax key xs b front' back') : a = b := by
  have heq : front ++ a :: back = front' ++ b :: back' := ha.eq_append.symm.trans hb.eq_append
  obtain ⟨mid, rfl, hmid⟩ | ⟨mid, rfl, hmid⟩ := List.append_eq_append_iff.mp heq
  · cases mid with
    | nil => exact (List.cons.inj hmid).1
    | cons c mid =>
        obtain ⟨rfl, rfl⟩ := List.cons.inj hmid
        exact absurd (ha.key_lt b (by simp)) (not_lt.mpr (hb.le_key a (by simp)))
  · cases mid with
    | nil => exact (List.cons.inj hmid).1.symm
    | cons c mid =>
        obtain ⟨rfl, rfl⟩ := List.cons.inj hmid
        exact absurd (hb.key_lt a (by simp)) (not_lt.mpr (ha.le_key b (by simp)))

theorem lastMax_eq_none_iff {xs : List α} : lastMax key xs = none ↔ xs = [] := by
  obtain ⟨rfl, hnone⟩ | ⟨a, front, back, hsome, hmax⟩ := foldl_keepLast key xs
  · exact iff_of_true rfl rfl
  · refine iff_of_false ?_ ?_
    · rw [lastMax, hsome]
      exact Option.some_ne_none a
    · rw [hmax.eq_append]
      simp

theorem lastMax_eq_some_iff {xs : List α} {a : α} :
    lastMax key xs = some a ↔ ∃ front back, IsLastMax key xs a front back := by
  constructor
  · intro h
    obtain ⟨rfl, hnone⟩ | ⟨b, front, back, hsome, hmax⟩ := foldl_keepLast key xs
    · cases h
    · rw [lastMax, hsome] at h
      cases h
      exact ⟨front, back, hmax⟩
  · rintro ⟨front, back, ha⟩
    obtain ⟨rfl, -⟩ | ⟨b, front', back', hsome, hb⟩ := foldl_keepLast key xs
    · exact absurd ha.eq_append (by simp)
    · rw [lastMax, hsome, ha.unique hb]
      rfl

end LemolaOs
