import Mathlib.Tactic

/-!
# Computations that emit a sequence of effects and may stop early

An `Emit ω ε` is what an observer sees of a computation: the effects it carried
out, in order, and the error that ended it, if any. Effects that happened before
an error stay. `andThen` runs the second computation only after a first one that
returned, and `forEach` is a loop over a list.

For safety, an effect of a loop is an effect of one of its rounds
(`mem_forEach`). For completeness, a loop none of whose rounds stops carries out
all of their effects (`forEach_effects`).
-/

namespace LemolaOs

universe u v w

/-- The effects carried out, and the error that ended the computation. -/
structure Emit (ω : Type u) (ε : Type v) where
  effects : List ω
  ended : Option ε

namespace Emit

variable {ω : Type u} {ε : Type v} {α : Type w}

def done : Emit ω ε := ⟨[], none⟩

def stop (e : ε) : Emit ω ε := ⟨[], some e⟩

def emit (effects : List ω) : Emit ω ε := ⟨effects, none⟩

/-- A computation goes on only while no error has ended it. -/
def andThen (a b : Emit ω ε) : Emit ω ε :=
  match a.ended with
  | none => ⟨a.effects ++ b.effects, b.ended⟩
  | some _ => a

/-- Use a fallible value, or stop with its error. -/
def need (x : Except ε α) (k : α → Emit ω ε) : Emit ω ε :=
  match x with
  | .ok a => k a
  | .error e => stop e

/-- `for x in xs { f(x) }`. -/
def forEach (xs : List α) (f : α → Emit ω ε) : Emit ω ε :=
  xs.foldr (fun x rest => (f x).andThen rest) done

@[simp] theorem done_effects : (done : Emit ω ε).effects = [] := rfl

@[simp] theorem done_ended : (done : Emit ω ε).ended = none := rfl

@[simp] theorem stop_effects (e : ε) : (stop e : Emit ω ε).effects = [] := rfl

@[simp] theorem stop_ended (e : ε) : (stop e : Emit ω ε).ended = some e := rfl

@[simp] theorem emit_effects (l : List ω) : (emit l : Emit ω ε).effects = l := rfl

@[simp] theorem emit_ended (l : List ω) : (emit l : Emit ω ε).ended = none := rfl

@[simp] theorem need_ok (a : α) (k : α → Emit ω ε) : need (.ok a : Except ε α) k = k a := rfl

@[simp] theorem need_error (e : ε) (k : α → Emit ω ε) :
    need (.error e : Except ε α) k = stop e := rfl

@[simp] theorem forEach_nil (f : α → Emit ω ε) : forEach [] f = done := rfl

@[simp] theorem forEach_cons (x : α) (xs : List α) (f : α → Emit ω ε) :
    forEach (x :: xs) f = (f x).andThen (forEach xs f) := rfl

theorem mem_andThen {a b : Emit ω ε} {o : ω} :
    o ∈ (a.andThen b).effects ↔ o ∈ a.effects ∨ a.ended = none ∧ o ∈ b.effects := by
  unfold andThen
  split <;> simp_all

theorem andThen_ended_eq_none {a b : Emit ω ε} :
    (a.andThen b).ended = none ↔ a.ended = none ∧ b.ended = none := by
  unfold andThen
  split <;> simp_all

/-- An effect of a computation that used a value shows that the value was there. -/
theorem mem_need {x : Except ε α} {k : α → Emit ω ε} {o : ω} :
    o ∈ (need x k).effects ↔ ∃ a, x = .ok a ∧ o ∈ (k a).effects := by
  cases x <;> simp

theorem need_ended_eq_none {x : Except ε α} {k : α → Emit ω ε} :
    (need x k).ended = none ↔ ∃ a, x = .ok a ∧ (k a).ended = none := by
  cases x <;> simp

/-- Every effect of a loop is an effect of one of its rounds. -/
theorem mem_forEach {xs : List α} {f : α → Emit ω ε} {o : ω}
    (h : o ∈ (forEach xs f).effects) : ∃ x ∈ xs, o ∈ (f x).effects := by
  induction xs with
  | nil => simp at h
  | cons x xs ih =>
      rcases mem_andThen.mp h with h | ⟨_, h⟩
      · exact ⟨x, List.mem_cons_self, h⟩
      · obtain ⟨y, hy, h⟩ := ih h
        exact ⟨y, List.mem_cons_of_mem x hy, h⟩

theorem forEach_ended_eq_none {xs : List α} {f : α → Emit ω ε} :
    (forEach xs f).ended = none ↔ ∀ x ∈ xs, (f x).ended = none := by
  induction xs with
  | nil => simp
  | cons x xs ih => simp [andThen_ended_eq_none, ih]

/-- A loop none of whose rounds stops carries out the effects of all of them. -/
theorem forEach_effects {xs : List α} {f : α → Emit ω ε}
    (h : ∀ x ∈ xs, (f x).ended = none) :
    (forEach xs f).effects = xs.flatMap fun x => (f x).effects := by
  induction xs with
  | nil => rfl
  | cons x xs ih =>
      simp only [List.forall_mem_cons] at h
      simp [andThen, h.1, ih h.2]

/-- Rounds may be replaced by rounds that do the same. -/
theorem forEach_congr {xs : List α} {f f' : α → Emit ω ε} (h : ∀ x ∈ xs, f x = f' x) :
    forEach xs f = forEach xs f' := by
  induction xs with
  | nil => rfl
  | cons x xs ih =>
      simp only [List.forall_mem_cons] at h
      rw [forEach_cons, forEach_cons, h.1, ih h.2]

theorem emit_andThen_emit (first second : List ω) :
    (emit first : Emit ω ε).andThen (emit second) = emit (first ++ second) := rfl

/-- A loop that only emits. -/
theorem forEach_emit (xs : List α) (f : α → List ω) :
    (forEach xs fun x => emit (f x) : Emit ω ε) = emit (xs.flatMap f) := by
  induction xs with
  | nil => rfl
  | cons x xs ih => rw [forEach_cons, ih, emit_andThen_emit, List.flatMap_cons]

theorem need_ended_eq_some {x : Except ε α} {k : α → Emit ω ε} {e : ε} :
    (need x k).ended = some e ↔ x = .error e ∨ ∃ a, x = .ok a ∧ (k a).ended = some e := by
  cases x <;> simp

theorem mem_forEach_iff {xs : List α} {f : α → Emit ω ε} {o : ω}
    (h : ∀ x ∈ xs, (f x).ended = none) :
    o ∈ (forEach xs f).effects ↔ ∃ x ∈ xs, o ∈ (f x).effects := by
  rw [forEach_effects h, List.mem_flatMap]

/-- What ends a loop ends one of its rounds. -/
theorem exists_of_forEach_ended {xs : List α} {f : α → Emit ω ε} {e : ε}
    (h : (forEach xs f).ended = some e) : ∃ x ∈ xs, (f x).ended = some e := by
  induction xs with
  | nil => simp at h
  | cons x xs ih =>
      rw [forEach_cons, andThen] at h
      cases hx : (f x).ended with
      | some e' =>
          simp only [hx] at h
          exact ⟨x, List.mem_cons_self, hx.trans h⟩
      | none =>
          simp only [hx] at h
          obtain ⟨y, hy, hend⟩ := ih h
          exact ⟨y, List.mem_cons_of_mem x hy, hend⟩

/-- An effect of a loop, with the rounds before it all completed. -/
theorem mem_forEach_split {xs : List α} {f : α → Emit ω ε} {o : ω} :
    o ∈ (forEach xs f).effects ↔ ∃ pre x post, xs = pre ++ x :: post ∧
      (∀ y ∈ pre, (f y).ended = none) ∧ o ∈ (f x).effects := by
  induction xs with
  | nil => simp
  | cons x xs ih =>
      simp only [forEach_cons, mem_andThen, ih]
      constructor
      · rintro (h | ⟨hx, pre, y, post, rfl, hpre, h⟩)
        · exact ⟨[], x, xs, rfl, by simp, h⟩
        · exact ⟨x :: pre, y, post, rfl, by simpa using ⟨hx, hpre⟩, h⟩
      · rintro ⟨pre, y, post, heq, hpre, h⟩
        cases pre with
        | nil =>
            simp only [List.nil_append, List.cons.injEq] at heq
            obtain ⟨rfl, rfl⟩ := heq
            exact .inl h
        | cons p pre =>
            simp only [List.cons_append, List.cons.injEq] at heq
            obtain ⟨rfl, rfl⟩ := heq
            simp only [List.forall_mem_cons] at hpre
            exact .inr ⟨hpre.1, pre, y, post, rfl, hpre.2, h⟩

end Emit

end LemolaOs
