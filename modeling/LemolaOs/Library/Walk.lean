import Mathlib.Data.Fintype.Card
import Mathlib.Data.List.Flatten
import Mathlib.Order.WellFounded
import Mathlib.Tactic

/-!
# Recursive walks without a visited set

At each node a walk finds a list of parts: items, which it lists, and further nodes,
which it walks before it goes on. Nothing remembers the nodes already walked, so the
depth of the recursion is bounded by `fuel`, and `none` says that the bound was too
small.

A walk returns exactly from the accessible nodes, which on a finite type are those
from which no cycle can be reached. What it lists are the items at the reachable
nodes. An item is listed once if every node is met in at most one place.
-/

namespace LemolaOs

open Relation

/-- What a walk finds at a node. -/
inductive Part (ν α : Type) where
  | node (c : ν)
  | item (x : α)
  deriving DecidableEq

variable {ν α : Type} {parts : ν → List (Part ν α)} {b c : ν} {x : α} {xs : List α} {n : Nat}

/-- The listings of the parts, one after another. -/
def listParts (walk : ν → Option (List α)) : List (Part ν α) → Option (List α)
  | [] => some []
  | .node c :: ps => do
      let xs ← walk c
      let ys ← listParts walk ps
      some (xs ++ ys)
  | .item x :: ps => do
      let ys ← listParts walk ps
      some (x :: ys)

def walk (parts : ν → List (Part ν α)) : Nat → ν → Option (List α)
  | 0, _ => none
  | fuel + 1, b => listParts (walk parts fuel) (parts b)

/-- The walk goes on from `b` to `c`. -/
def Edge (parts : ν → List (Part ν α)) (b c : ν) : Prop := .node c ∈ parts b

section Parts

variable {f g : ν → Option (List α)} {ps qs : List (Part ν α)}

theorem listParts_node_eq_some {c : ν} :
    listParts f (.node c :: ps) = some xs ↔
      ∃ ys zs, f c = some ys ∧ listParts f ps = some zs ∧ xs = ys ++ zs := by
  simp only [listParts, Option.bind_eq_bind, Option.bind_eq_some_iff, Option.some.injEq]
  exact ⟨fun ⟨ys, hys, zs, hzs, h⟩ => ⟨ys, zs, hys, hzs, h.symm⟩,
    fun ⟨ys, zs, hys, hzs, h⟩ => ⟨ys, hys, zs, hzs, h.symm⟩⟩

theorem listParts_item_eq_some {x : α} :
    listParts f (.item x :: ps) = some xs ↔
      ∃ zs, listParts f ps = some zs ∧ xs = x :: zs := by
  simp only [listParts, Option.bind_eq_bind, Option.bind_eq_some_iff, Option.some.injEq]
  exact ⟨fun ⟨zs, hzs, h⟩ => ⟨zs, hzs, h.symm⟩, fun ⟨zs, hzs, h⟩ => ⟨zs, hzs, h.symm⟩⟩

/-- The parts before and after. -/
theorem listParts_append :
    listParts f (ps ++ qs) = (do
      let xs ← listParts f ps
      let ys ← listParts f qs
      some (xs ++ ys)) := by
  induction ps with
  | nil => simp [listParts]
  | cons p ps ih =>
      cases p with
      | node c =>
          simp only [List.cons_append, listParts, ih]
          cases f c with
          | none => rfl
          | some xs =>
              cases listParts f ps with
              | none => rfl
              | some ys =>
                  cases listParts f qs with
                  | none => rfl
                  | some zs => simp
      | item x =>
          simp only [List.cons_append, listParts, ih]
          cases listParts f ps with
          | none => rfl
          | some ys =>
              cases listParts f qs with
              | none => rfl
              | some zs => simp

/-- A loop whose rounds append listings. -/
theorem foldlM_listParts {β : Type} {step : List α → β → Option (List α)} {p : β → List (Part ν α)}
    (hstep : ∀ xs i, step xs i = (listParts f (p i)).map (xs ++ ·)) (l : List β) (xs : List α) :
    l.foldlM step xs = (listParts f (l.flatMap p)).map (xs ++ ·) := by
  induction l generalizing xs with
  | nil => simp [listParts]
  | cons i l ih =>
      rw [List.foldlM_cons, List.flatMap_cons, listParts_append, hstep]
      cases listParts f (p i) with
      | none => rfl
      | some ys =>
          simp only [Option.map_some, Option.bind_eq_bind, Option.bind_some, ih]
          cases listParts f (l.flatMap p) with
          | none => rfl
          | some zs => simp

theorem listParts_mono (h : ∀ c xs, f c = some xs → g c = some xs) :
    ∀ {ps : List (Part ν α)} {xs : List α},
      listParts f ps = some xs → listParts g ps = some xs := by
  intro ps
  induction ps with
  | nil => exact fun hxs => hxs
  | cons p ps ih =>
      intro xs hxs
      cases p with
      | node c =>
          obtain ⟨ys, zs, hys, hzs, rfl⟩ := listParts_node_eq_some.mp hxs
          exact listParts_node_eq_some.mpr ⟨ys, zs, h c ys hys, ih hzs, rfl⟩
      | item x =>
          obtain ⟨zs, hzs, rfl⟩ := listParts_item_eq_some.mp hxs
          exact listParts_item_eq_some.mpr ⟨zs, ih hzs, rfl⟩

/-- A listing of the parts needs a listing of each node among them. -/
theorem exists_of_listParts (hxs : listParts f ps = some xs) (hc : .node c ∈ ps) :
    ∃ ys, f c = some ys := by
  induction ps generalizing xs with
  | nil => exact absurd hc List.not_mem_nil
  | cons p ps ih =>
      cases p with
      | node d =>
          obtain ⟨ys, zs, hys, hzs, rfl⟩ := listParts_node_eq_some.mp hxs
          obtain hcd | hc := List.mem_cons.mp hc
          · cases hcd
            exact ⟨ys, hys⟩
          · exact ih hzs hc
      | item y =>
          obtain ⟨zs, hzs, rfl⟩ := listParts_item_eq_some.mp hxs
          obtain hcd | hc := List.mem_cons.mp hc
          · cases hcd
          · exact ih hzs hc

/-- A listing of the parts consists of the items and of what the listings of the nodes have. -/
theorem mem_listParts (hxs : listParts f ps = some xs) :
    x ∈ xs ↔ .item x ∈ ps ∨ ∃ c ys, .node c ∈ ps ∧ f c = some ys ∧ x ∈ ys := by
  induction ps generalizing xs with
  | nil =>
      cases hxs
      simp
  | cons p ps ih =>
      cases p with
      | node d =>
          obtain ⟨ys, zs, hys, hzs, rfl⟩ := listParts_node_eq_some.mp hxs
          rw [List.mem_append, ih hzs]
          constructor
          · rintro (hx | hx | ⟨c, ws, hc, hws, hx⟩)
            · exact .inr ⟨d, ys, List.mem_cons_self, hys, hx⟩
            · exact .inl (List.mem_cons_of_mem _ hx)
            · exact .inr ⟨c, ws, List.mem_cons_of_mem _ hc, hws, hx⟩
          · rintro (hx | ⟨c, ws, hc, hws, hx⟩)
            · exact .inr (.inl (by simpa using hx))
            · obtain hcd | hc := List.mem_cons.mp hc
              · cases hcd
                cases hys.symm.trans hws
                exact .inl hx
              · exact .inr (.inr ⟨c, ws, hc, hws, hx⟩)
      | item y =>
          obtain ⟨zs, hzs, rfl⟩ := listParts_item_eq_some.mp hxs
          rw [List.mem_cons, ih hzs]
          simp [or_assoc]

/-- Listings of different parts that share nothing. -/
theorem nodup_listParts (hxs : listParts f ps = some xs) (hps : ps.Nodup)
    (hnode : ∀ c ys, .node c ∈ ps → f c = some ys → ys.Nodup)
    (hnodes : ∀ c d ys zs, .node c ∈ ps → .node d ∈ ps → c ≠ d → f c = some ys → f d = some zs →
      ys.Disjoint zs)
    (hitem : ∀ x c ys, .item x ∈ ps → .node c ∈ ps → f c = some ys → x ∉ ys) : xs.Nodup := by
  induction ps generalizing xs with
  | nil =>
      cases hxs
      exact List.nodup_nil
  | cons p ps ih =>
      obtain ⟨hp, hps⟩ := List.nodup_cons.mp hps
      have hrest {zs : List α} (hzs : listParts f ps = some zs) : zs.Nodup :=
        ih hzs hps (fun c ys hc => hnode c ys (List.mem_cons_of_mem p hc))
          (fun c d ys zs hc hd =>
            hnodes c d ys zs (List.mem_cons_of_mem p hc) (List.mem_cons_of_mem p hd))
          (fun x c ys hx hc => hitem x c ys (List.mem_cons_of_mem p hx) (List.mem_cons_of_mem p hc))
      cases p with
      | node d =>
          obtain ⟨ys, zs, hys, hzs, rfl⟩ := listParts_node_eq_some.mp hxs
          refine (hnode d ys List.mem_cons_self hys).append (hrest hzs) ?_
          intro x hx hx'
          obtain hx' | ⟨c, ws, hc, hws, hx'⟩ := (mem_listParts hzs).mp hx'
          · exact hitem x d ys (List.mem_cons_of_mem _ hx') List.mem_cons_self hys hx
          · refine hnodes d c ys ws List.mem_cons_self (List.mem_cons_of_mem _ hc) ?_ hys hws hx hx'
            rintro rfl
            exact hp hc
      | item y =>
          obtain ⟨zs, hzs, rfl⟩ := listParts_item_eq_some.mp hxs
          refine List.nodup_cons.mpr ⟨fun hy => ?_, hrest hzs⟩
          obtain hy | ⟨c, ws, hc, hws, hy⟩ := (mem_listParts hzs).mp hy
          · exact hp hy
          · exact hitem y c ws List.mem_cons_self (List.mem_cons_of_mem _ hc) hws hy

end Parts

/-- More fuel does not change a listing. -/
theorem walk_mono {m : Nat} (hnm : n ≤ m) (h : walk parts n b = some xs) :
    walk parts m b = some xs := by
  induction n generalizing m b xs with
  | zero => cases h
  | succ n ih =>
      obtain ⟨m, rfl⟩ : ∃ k, m = k + 1 := ⟨m - 1, by omega⟩
      exact listParts_mono (fun c ys hys => ih (by omega) hys) h

/-- One depth is enough for all the parts. -/
theorem exists_listParts {ps : List (Part ν α)}
    (h : ∀ c, .node c ∈ ps → ∃ fuel xs, walk parts fuel c = some xs) :
    ∃ fuel xs, listParts (walk parts fuel) ps = some xs := by
  induction ps with
  | nil => exact ⟨0, [], rfl⟩
  | cons p ps ih =>
      obtain ⟨fuel, zs, hzs⟩ := ih fun c hc => h c (List.mem_cons_of_mem p hc)
      cases p with
      | node c =>
          obtain ⟨fuel', ys, hys⟩ := h c List.mem_cons_self
          refine ⟨max fuel fuel', ys ++ zs, listParts_node_eq_some.mpr ⟨ys, zs, ?_, ?_, rfl⟩⟩
          · exact walk_mono (Nat.le_max_right _ _) hys
          · exact listParts_mono (fun d ws => walk_mono (Nat.le_max_left _ _)) hzs
      | item x => exact ⟨fuel, x :: zs, listParts_item_eq_some.mpr ⟨zs, hzs, rfl⟩⟩

/-- A walk returns from every accessible node. -/
theorem exists_walk_of_acc (h : Acc (fun c b => Edge parts b c) b) :
    ∃ fuel xs, walk parts fuel b = some xs := by
  induction h with
  | intro b _ ih =>
      obtain ⟨fuel, xs, hxs⟩ := exists_listParts fun c hc => ih c hc
      exact ⟨fuel + 1, xs, hxs⟩

/-- A node from which a walk returns is accessible. -/
theorem acc_of_walk (h : walk parts n b = some xs) : Acc (fun c b => Edge parts b c) b := by
  induction n generalizing b xs with
  | zero => cases h
  | succ n ih =>
      constructor
      intro c hc
      obtain ⟨ys, hys⟩ := exists_of_listParts h hc
      exact ih hys

section Cycles

variable {r : ν → ν → Prop}

theorem acc_of_reachable (hb : Acc (fun c b => r b c) b) (hbc : ReflTransGen r b c) :
    Acc (fun c b => r b c) c := by
  induction hbc with
  | refl => exact hb
  | tail _ hstep ih => exact ih.inv hstep

theorem no_cycle_of_acc (hb : Acc (fun c b => r b c) b) : ¬ TransGen r b b := by
  induction hb with
  | intro b _ ih =>
      intro hbb
      obtain ⟨c, hbc, hcb⟩ := TransGen.head'_iff.mp hbb
      exact ih c hbc (TransGen.tail' hcb hbc)

/-- On a finite type, the accessible nodes are those from which no cycle can be reached. -/
theorem acc_iff_no_cycle [Finite ν] :
    Acc (fun c b => r b c) b ↔ ∀ c, ReflTransGen r b c → ¬ TransGen r c c := by
  refine ⟨fun hb c hbc => no_cycle_of_acc (acc_of_reachable hb hbc), fun hno => ?_⟩
  by_contra hacc
  -- an infinite path meets some node twice
  obtain ⟨f, rfl, hf⟩ := not_acc_iff_exists_descending_chain.mp hacc
  obtain ⟨i, j, hne, hij⟩ := Finite.exists_ne_map_eq_of_infinite f
  have hpath (i k : Nat) : ReflTransGen r (f i) (f (i + k)) := by
    induction k with
    | zero => exact .refl
    | succ k ih => exact ih.tail (hf (i + k))
  have hcycle {i j : Nat} (hlt : i < j) (heq : f i = f j) : False := by
    obtain ⟨k, rfl⟩ := Nat.exists_eq_add_of_lt hlt
    refine hno (f i) (by simpa using hpath 0 i) ?_
    have hlast := TransGen.tail' (hpath i k) (hf (i + k))
    rwa [← heq] at hlast
  obtain hlt | hlt := Nat.lt_or_gt_of_ne hne
  · exact hcycle hlt hij
  · exact hcycle hlt hij.symm

/-- Where every node has one parent, two children of a node share no descendants. -/
theorem not_reachable_of_siblings {c' d : ν} (hone : ∀ a b c, r a c → r b c → a = b)
    (hb : Acc (fun c b => r b c) b) (hc : r b c) (hc' : r b c') (hne : c ≠ c')
    (hcd : ReflTransGen r c d) : ¬ ReflTransGen r c' d := by
  intro hc'd
  -- the paths up from `d` agree, so one child is above the other
  have hup : ReflTransGen r c c' ∨ ReflTransGen r c' c := by
    have htotal := ReflTransGen.total_of_right_unique (r := Function.swap r)
      (fun a b c hb hc => hone _ _ _ hb hc) hcd.swap hc'd.swap
    exact htotal.symm.imp (fun h => h.swap) fun h => h.swap
  have hcycle {c c' : ν} (hc : r b c) (hc' : r b c') (hne : c ≠ c') (h : ReflTransGen r c c') :
      False := by
    obtain heq | ⟨a, hca, hac'⟩ := h.cases_tail
    · exact hne heq.symm
    · obtain rfl := hone _ _ _ hac' hc'
      exact no_cycle_of_acc hb (TransGen.head' hc hca)
  exact hup.elim (hcycle hc hc' hne) (hcycle hc' hc hne.symm)

end Cycles

/-- The items at the reachable nodes. -/
theorem mem_walk (h : walk parts n b = some xs) :
    x ∈ xs ↔ ∃ c, ReflTransGen (Edge parts) b c ∧ .item x ∈ parts c := by
  induction n generalizing b xs with
  | zero => cases h
  | succ n ih =>
      rw [mem_listParts h]
      constructor
      · rintro (hx | ⟨c, ys, hc, hys, hx⟩)
        · exact ⟨b, .refl, hx⟩
        · obtain ⟨d, hcd, hx⟩ := (ih hys).mp hx
          exact ⟨d, .head hc hcd, hx⟩
      · rintro ⟨d, hbd, hx⟩
        obtain rfl | ⟨c, hc, hcd⟩ := hbd.cases_head
        · exact .inl hx
        · obtain ⟨ys, hys⟩ := exists_of_listParts h hc
          exact .inr ⟨c, ys, hc, hys, (ih hys).mpr ⟨d, hcd, hx⟩⟩

/-- Nothing is listed twice if every part is met in one place. -/
theorem nodup_walk (hparts : ∀ b, (parts b).Nodup)
    (hnode : ∀ a b c, Edge parts a c → Edge parts b c → a = b)
    (hitem : ∀ a b x, .item x ∈ parts a → .item x ∈ parts b → a = b)
    (h : walk parts n b = some xs) : xs.Nodup := by
  induction n generalizing b xs with
  | zero => cases h
  | succ n ih =>
      have hacc : Acc (fun c b => Edge parts b c) b := acc_of_walk h
      apply nodup_listParts h (hparts b)
      · exact fun c ys _ hys => ih hys
      · intro c d ys zs hc hd hne hys hzs x hx hx'
        obtain ⟨e, hce, hx⟩ := (mem_walk hys).mp hx
        obtain ⟨e', hde, hx'⟩ := (mem_walk hzs).mp hx'
        obtain rfl := hitem _ _ _ hx hx'
        exact not_reachable_of_siblings hnode hacc hc hd hne hce hde
      · intro x c ys hx hc hys hx'
        obtain ⟨e, hce, hx'⟩ := (mem_walk hys).mp hx'
        obtain rfl := hitem _ _ _ hx hx'
        exact no_cycle_of_acc hacc (TransGen.head' hc hce)

end LemolaOs
