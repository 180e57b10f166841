import Mathlib.Tactic

/-!
# The lines of a text

`splitInclusive` cuts a list behind every separator and keeps the separators.
`lines` cuts a text so and takes the line endings off: `\n` or `\r\n`. The last
line need not have one, and an ending at the end of the text does not begin
another line. `List.splitOn` does count the empty line behind it.

A text is taken apart at a newline by `lines_append`.
-/

namespace LemolaOs

universe u

section splitInclusive

variable {α : Type u} [DecidableEq α] {sep : α}

/-- Cut behind every separator. -/
def splitInclusive (sep : α) : List α → List (List α)
  | [] => []
  | x :: xs =>
    if x = sep then [x] :: splitInclusive sep xs
    else
      match splitInclusive sep xs with
      | [] => [[x]]
      | piece :: pieces => (x :: piece) :: pieces

theorem splitInclusive_ne_nil {xs : List α} (hne : xs ≠ []) : splitInclusive sep xs ≠ [] := by
  cases xs with
  | nil => exact absurd rfl hne
  | cons x xs =>
      rw [splitInclusive]
      split
      · exact List.cons_ne_nil _ _
      · split <;> exact List.cons_ne_nil _ _

theorem splitInclusive_of_not_mem {xs : List α} (hne : xs ≠ []) (h : sep ∉ xs) :
    splitInclusive sep xs = [xs] := by
  induction xs with
  | nil => exact absurd rfl hne
  | cons x xs ih =>
      simp only [List.mem_cons, not_or] at h
      rw [splitInclusive, if_neg (Ne.symm h.1)]
      cases xs with
      | nil => rfl
      | cons y ys => rw [ih (by simp) h.2]

/-- A separator ends its piece whatever follows. -/
theorem splitInclusive_append (xs ys : List α) :
    splitInclusive sep (xs ++ sep :: ys) =
      splitInclusive sep (xs ++ [sep]) ++ splitInclusive sep ys := by
  induction xs with
  | nil => simp [splitInclusive]
  | cons x xs ih =>
      rw [List.cons_append, List.cons_append, splitInclusive, splitInclusive, ih]
      by_cases hx : x = sep
      · rw [if_pos hx, if_pos hx, List.cons_append]
      · rw [if_neg hx, if_neg hx]
        cases hpieces : splitInclusive sep (xs ++ [sep]) with
        | nil => exact absurd hpieces (splitInclusive_ne_nil (by simp))
        | cons piece pieces => rfl

theorem splitInclusive_terminated {xs : List α} (h : sep ∉ xs) :
    splitInclusive sep (xs ++ [sep]) = [xs ++ [sep]] := by
  induction xs with
  | nil => simp [splitInclusive]
  | cons x xs ih =>
      simp only [List.mem_cons, not_or] at h
      rw [List.cons_append, splitInclusive, if_neg (Ne.symm h.1), ih h.2]

end splitInclusive

section lines

/-- Take off a last element, if it is this one. -/
def stripSuffix {α : Type u} [DecidableEq α] (x : α) (xs : List α) : Option (List α) :=
  if xs.getLast? = some x then some xs.dropLast else none

/-- Take off the line ending. Without a newline, a `\r` at the end belongs to the line. -/
def chomp (line : List Char) : List Char :=
  match stripSuffix '\n' line with
  | none => line
  | some line =>
    match stripSuffix '\r' line with
    | none => line
    | some line => line

/-- The lines of a text. -/
def lines (s : List Char) : List (List Char) := (splitInclusive '\n' s).map chomp

variable {a b s : List Char}

theorem chomp_of_not_mem (h : '\n' ∉ s) : chomp s = s := by
  have hlast : s.getLast? ≠ some '\n' := fun hlast => h (List.mem_of_getLast? hlast)
  rw [chomp, stripSuffix, if_neg hlast]

theorem chomp_terminated (h : '\r' ∉ a) : chomp (a ++ ['\n']) = a := by
  have hlast : a.getLast? ≠ some '\r' := fun hlast => h (List.mem_of_getLast? hlast)
  have hstrip : stripSuffix '\n' (a ++ ['\n']) = some a := by simp [stripSuffix]
  rw [chomp, hstrip]
  simp only
  rw [stripSuffix, if_neg hlast]

/-- A newline ends its line whatever follows. -/
theorem lines_append (a b : List Char) :
    lines (a ++ '\n' :: b) = lines (a ++ ['\n']) ++ lines b := by
  rw [lines, splitInclusive_append, List.map_append]
  rfl

theorem lines_ne_nil (h : s ≠ []) : lines s ≠ [] := by
  rw [lines, Ne, List.map_eq_nil_iff]
  exact splitInclusive_ne_nil h

theorem lines_of_not_mem (hne : s ≠ []) (h : '\n' ∉ s) : lines s = [s] := by
  rw [lines, splitInclusive_of_not_mem hne h, List.map_singleton, chomp_of_not_mem h]

theorem lines_terminated (hnl : '\n' ∉ a) (hcr : '\r' ∉ a) : lines (a ++ ['\n']) = [a] := by
  rw [lines, splitInclusive_terminated hnl, List.map_singleton, chomp_terminated hcr]

/-- Lines with newlines between them, of which the last is not empty. -/
theorem lines_intercalate {ls : List (List Char)} (hls : ∀ l ∈ ls, '\n' ∉ l ∧ '\r' ∉ l)
    (hlast : ls.getLast? ≠ some []) : lines (['\n'].intercalate ls) = ls := by
  induction ls with
  | nil => rfl
  | cons l ls ih =>
      obtain ⟨hnl, hcr⟩ := hls l List.mem_cons_self
      cases ls with
      | nil =>
          have hne : l ≠ [] := fun hl => hlast (by rw [hl]; rfl)
          rw [List.intercalate_singleton, lines_of_not_mem hne hnl]
      | cons next ls =>
          have hrest : (next :: ls).getLast? ≠ some [] := by
            rwa [List.getLast?_cons_cons] at hlast
          rw [List.intercalate_cons_cons, List.append_assoc, List.singleton_append, lines_append,
            lines_terminated hnl hcr, ih (fun l hl => hls l (List.mem_cons_of_mem _ hl)) hrest,
            List.singleton_append]

/-- Induction on a text by its newlines: none, one at the end, or one with text behind it. -/
@[elab_as_elim]
theorem newline_induction {P : List Char → Prop} (plain : ∀ a, '\n' ∉ a → P a)
    (terminated : ∀ a, '\n' ∉ a → P (a ++ ['\n']))
    (more : ∀ a b, '\n' ∉ a → b ≠ [] → P b → P (a ++ '\n' :: b)) (s : List Char) : P s := by
  induction hn : s.length using Nat.strong_induction_on generalizing s with
  | _ n ih =>
      by_cases hmem : '\n' ∈ s
      · obtain ⟨a, b, rfl, ha⟩ := List.eq_append_cons_of_mem hmem
        cases b with
        | nil => exact terminated a ha
        | cons c b =>
            refine more a (c :: b) ha (List.cons_ne_nil c b) (ih _ ?_ _ rfl)
            simp only [← hn, List.length_append, List.length_cons]
            omega
      · exact plain s hmem

end lines

section terminated

/-- Finished lines, each with its newline. -/
def terminated (ls : List (List Char)) : List Char := ls.flatMap (· ++ ['\n'])

@[simp] theorem terminated_nil : terminated [] = [] := rfl

theorem terminated_append (ls ls' : List (List Char)) :
    terminated (ls ++ ls') = terminated ls ++ terminated ls' := List.flatMap_append

theorem terminated_singleton (l : List Char) : terminated [l] = l ++ ['\n'] := by
  simp [terminated]

/-- Splitting gives the finished lines and the line begun. -/
theorem splitOn_terminated {ls : List (List Char)} {l : List Char} (hls : ∀ l ∈ ls, '\n' ∉ l)
    (hl : '\n' ∉ l) : (terminated ls ++ l).splitOn '\n' = ls ++ [l] := by
  induction ls with
  | nil => exact List.splitOn_eq_singleton hl
  | cons first ls ih =>
      have hfirst := hls first List.mem_cons_self
      have hrest := ih fun l hl => hls l (List.mem_cons_of_mem first hl)
      rw [terminated, List.flatMap_cons, List.append_assoc, List.append_assoc,
        List.singleton_append, List.splitOn_append_cons_self_of_not_mem hfirst, ← terminated,
        hrest, List.cons_append]

end terminated

end LemolaOs
