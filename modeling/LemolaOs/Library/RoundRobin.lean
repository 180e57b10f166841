import Mathlib.Data.List.Nodup
import Mathlib.Tactic

/-!
# A queue served in turns

In every turn the first member of the queue is served; it goes to the back of the
queue if it stays and is gone if it does not. Who stays in which turn is an
arbitrary function of the turn, so it may depend on anything that happened before.

As long as nobody is served twice in between, the members of the queue are served
in the order in which they stand (`head?_turns_add`). From this follow that a
member is gone only after a turn in which it did not stay (`mem_turns_iff`) and
that between two turns of one member every other one has exactly one
(`existsUnique_turn_between`).
-/

namespace LemolaOs

universe u

variable {α : Type u}

/-- One turn. -/
def turn (stays : α → Bool) : List α → List α
  | [] => []
  | a :: rest => if stays a then rest ++ [a] else rest

/-- The queue after `n` turns. -/
def turns (stays : Nat → α → Bool) (queue : List α) : Nat → List α
  | 0 => queue
  | n + 1 => turn (stays n) (turns stays queue n)

variable {stays : Nat → α → Bool} {queue : List α}

/-- The front of the queue has its turns first, whoever stays. -/
theorem turns_append {n : Nat} {front rest : List α} (h : turns stays queue n = front ++ rest) :
    ∃ back, turns stays queue (n + front.length) = rest ++ back := by
  induction front generalizing n rest with
  | nil => exact ⟨[], by simpa using h⟩
  | cons a front ih =>
      have hturn : turns stays queue (n + 1) =
          front ++ (rest ++ if stays n a then [a] else []) := by
        simp only [turns, h, List.cons_append, turn]
        split <;> simp
      obtain ⟨back, hback⟩ := ih hturn
      refine ⟨(if stays n a then [a] else []) ++ back, ?_⟩
      rw [List.length_cons, Nat.add_comm front.length, ← Nat.add_assoc, hback, List.append_assoc]

/-- The member at position `k` is served `k` turns later. -/
theorem head?_turns_add {n k : Nat} (hk : k < (turns stays queue n).length) :
    (turns stays queue (n + k)).head? = (turns stays queue n)[k]? := by
  obtain ⟨back, hback⟩ := turns_append
    (List.take_append_drop k (turns stays queue n)).symm
  rw [List.length_take_of_le (Nat.le_of_lt hk)] at hback
  rw [hback, List.head?_append, List.head?_drop, List.getElem?_eq_getElem hk]
  rfl

theorem nodup_turns (hnodup : queue.Nodup) (n : Nat) : (turns stays queue n).Nodup := by
  induction n with
  | zero => exact hnodup
  | succ n ih =>
      rw [turns]
      cases hqueue : turns stays queue n with
      | nil => exact .nil
      | cons a rest =>
          rw [hqueue, List.nodup_cons] at ih
          rw [turn]
          split
          · rw [← List.nodup_reverse]
            simpa using ih
          · exact ih.2

/-- One turn takes out the one that is served and does not stay. -/
theorem mem_turns_succ (hnodup : queue.Nodup) {n : Nat} {a : α} :
    a ∈ turns stays queue (n + 1) ↔ a ∈ turns stays queue n ∧
      ((turns stays queue n).head? = some a → stays n a) := by
  have hn : (turns stays queue n).Nodup := nodup_turns hnodup n
  rw [turns]
  cases hqueue : turns stays queue n with
  | nil => simp [turn]
  | cons b rest =>
      rw [hqueue, List.nodup_cons] at hn
      by_cases hab : b = a
      · subst hab
        by_cases hstays : stays n b <;> simp [turn, hstays, hn.1]
      · have hba : a ≠ b := fun heq => hab heq.symm
        by_cases hstays : stays n b <;> simp [turn, hstays, hab, hba]

/-- Exactly those are in the queue that have stayed in every turn they had. -/
theorem mem_turns_iff (hnodup : queue.Nodup) {n : Nat} {a : α} :
    a ∈ turns stays queue n ↔ a ∈ queue ∧
      ∀ i < n, (turns stays queue i).head? = some a → stays i a := by
  induction n with
  | zero => simp [turns]
  | succ n ih =>
      rw [mem_turns_succ hnodup, ih]
      constructor
      · rintro ⟨⟨hmem, hbefore⟩, hnow⟩
        refine ⟨hmem, fun i hi => ?_⟩
        rcases Nat.lt_succ_iff_lt_or_eq.mp hi with hlt | rfl
        · exact hbefore i hlt
        · exact hnow
      · rintro ⟨hmem, hall⟩
        exact ⟨⟨hmem, fun i hi => hall i (Nat.lt_succ_of_lt hi)⟩, hall n (Nat.lt_succ_self n)⟩

/-- Who is served again has stayed. -/
theorem stays_of_served_again (hnodup : queue.Nodup) {i j : Nat} {a : α} (hij : i < j)
    (hi : (turns stays queue i).head? = some a) (hj : (turns stays queue j).head? = some a) :
    stays i a = true :=
  ((mem_turns_iff hnodup).mp (List.mem_of_head? hj)).2 i hij hi

/-- Everyone in the queue is served. -/
theorem exists_turn {n : Nat} {a : α} (h : a ∈ turns stays queue n) :
    ∃ j, n ≤ j ∧ (turns stays queue j).head? = some a := by
  obtain ⟨k, hk, heq⟩ := List.mem_iff_getElem.mp h
  refine ⟨n + k, Nat.le_add_right n k, ?_⟩
  rw [head?_turns_add hk, List.getElem?_eq_getElem hk, heq]

/-- After a turn of `a` in which it stays, the others follow in their order, and
then it is the turn of `a` again. -/
theorem turns_after {i : Nat} {a : α} {rest : List α} (hqueue : turns stays queue i = a :: rest)
    (hstays : stays i a = true) {k : Nat} (hk : k ≤ rest.length) :
    (turns stays queue (i + 1 + k)).head? = (rest ++ [a])[k]? := by
  have hnext : turns stays queue (i + 1) = rest ++ [a] := by
    rw [turns, hqueue, turn, if_pos hstays]
  rw [head?_turns_add (by rw [hnext, List.length_append, List.length_singleton]; omega), hnext]

/-- Between two consecutive turns of `a` everyone else in the queue has exactly one. -/
theorem existsUnique_turn_between (hnodup : queue.Nodup) {i j : Nat} {a b : α} (hij : i < j)
    (hi : (turns stays queue i).head? = some a) (hj : (turns stays queue j).head? = some a)
    (hnone : ∀ k, i < k → k < j → (turns stays queue k).head? ≠ some a)
    (hb : b ∈ turns stays queue i) (hne : b ≠ a) :
    ∃! k, i < k ∧ k < j ∧ (turns stays queue k).head? = some b := by
  obtain ⟨rest, hqueue⟩ := List.head?_eq_some_iff.mp hi
  have hstays := stays_of_served_again hnodup hij hi hj
  have hafter := fun k hk => turns_after (k := k) hqueue hstays hk
  have hi_nodup : (turns stays queue i).Nodup := nodup_turns hnodup i
  rw [hqueue, List.nodup_cons] at hi_nodup
  -- the next turn of `a` comes after one turn of each of the others
  have hjeq : j = i + 1 + rest.length := by
    have hback : (turns stays queue (i + 1 + rest.length)).head? = some a := by
      rw [hafter _ (Nat.le_refl _), List.getElem?_concat_length]
    rcases Nat.lt_trichotomy j (i + 1 + rest.length) with hlt | heq | hgt
    · have hmid := hafter (j - (i + 1)) (by omega)
      rw [Nat.add_sub_cancel' hij, hj, List.getElem?_append_left (by omega)] at hmid
      exact absurd (List.mem_of_getElem? hmid.symm) hi_nodup.1
    · exact heq
    · exact absurd hback (hnone _ (by omega) hgt)
  have hmid : ∀ k, k < rest.length → (turns stays queue (i + 1 + k)).head? = rest[k]? := by
    intro k hk
    rw [hafter k (Nat.le_of_lt hk), List.getElem?_append_left hk]
  have hbrest : b ∈ rest := by
    rw [hqueue] at hb
    exact (List.mem_cons.mp hb).resolve_left hne
  obtain ⟨p, hp, hpb⟩ := List.mem_iff_getElem.mp hbrest
  have hserved : rest[p]? = some b := by rw [List.getElem?_eq_getElem hp, hpb]
  refine ⟨i + 1 + p, ⟨by omega, by omega, (hmid p hp).trans hserved⟩, ?_⟩
  rintro k ⟨hik, hkj, hk⟩
  have hkp := hmid (k - (i + 1)) (by omega)
  rw [Nat.add_sub_cancel' hik, hk] at hkp
  have hindex : k - (i + 1) = p :=
    (List.getElem?_inj (by omega) hi_nodup.2).mp (hkp.symm.trans hserved.symm)
  omega

end LemolaOs
