import LemolaOs.Library.Resumption

/-!
# Code that asks more questions

Code that asks questions of one type is also code that asks questions of a larger
type (`relabel`). In the other direction some of the questions are answered at once,
in the state in which they are asked, and the rest is passed on (`answer`). A
protocol carries over in both directions.
-/

namespace LemolaOs

variable {σ π π' ρ ε α β : Type}

namespace Resumption

/-- A handler with its questions under the names that `g` gives them. -/
def relabel (g : π → π') : Resumption σ π ρ ε α → Resumption σ π' ρ ε α
  | .done a s => .done a s
  | .fail e s => .fail e s
  | .wait q s k => .wait (g q) s fun r s' => (k r s').relabel g

/-- A question `q` with `f q = .inr r` is answered by `r` without any wait. -/
def answer (f : π' → π ⊕ ρ) : Resumption σ π' ρ ε α → Resumption σ π ρ ε α
  | .done a s => .done a s
  | .fail e s => .fail e s
  | .wait q s k =>
      match f q with
      | .inl q' => .wait q' s fun r s' => (k r s').answer f
      | .inr r => (k r s).answer f

theorem relabel_bind (g : π → π') (x : Resumption σ π ρ ε α)
    (f : α → σ → Resumption σ π ρ ε β) :
    (x.bind f).relabel g = (x.relabel g).bind fun a s => (f a s).relabel g := by
  induction x with
  | done a s => rfl
  | fail e s => rfl
  | wait q s k ih =>
      simp only [bind, relabel]
      congr 1
      funext r s'
      exact ih r s'

theorem answer_bind (g : π' → π ⊕ ρ) (x : Resumption σ π' ρ ε α)
    (f : α → σ → Resumption σ π' ρ ε β) :
    (x.bind f).answer g = (x.answer g).bind fun a s => (f a s).answer g := by
  induction x with
  | done a s => rfl
  | fail e s => rfl
  | wait q s k ih =>
      simp only [bind, answer]
      cases g q with
      | inl q' =>
          simp only [bind]
          congr 1
          funext r s'
          exact ih r s'
      | inr r => exact ih r s

/-- Questions that are passed on under their old name. -/
theorem answer_relabel {g : π → π'} {f : π' → π ⊕ ρ} (h : ∀ q, f (g q) = .inl q)
    (x : Resumption σ π ρ ε α) : (x.relabel g).answer f = x := by
  induction x with
  | done a s => rfl
  | fail e s => rfl
  | wait q s k ih =>
      simp only [relabel, answer, h]
      congr 1
      funext r s'
      exact ih r s'

end Resumption

/-- A protocol, seen by code whose questions are renamed. -/
def Protocol.comap (c : Protocol σ π' ρ ε) (g : π → π') : Protocol σ π ρ ε where
  waiting q := c.waiting (g q)
  resumed q := c.resumed (g q)
  failing := c.failing

namespace Resumption

variable {c : Protocol σ π' ρ ε} {post : α → σ → Prop}

theorem relabel_meets {g : π → π'} {x : Resumption σ π ρ ε α} :
    (x.relabel g).Meets c post ↔ x.Meets (c.comap g) post := by
  induction x with
  | done a s => exact Iff.rfl
  | fail e s => exact Iff.rfl
  | wait q s k ih =>
      simp only [relabel, meets_wait]
      exact and_congr_right fun _ => forall₂_congr fun r s' => imp_congr_right fun _ => ih r s'

/-- Answers at once are among those that the protocol provides for. -/
theorem Meets.answer {c' : Protocol σ π ρ ε} {f : π' → π ⊕ ρ} {x : Resumption σ π' ρ ε α}
    (h : x.Meets c post) (hfailing : ∀ e, c.failing e → c'.failing e)
    (hwaiting : ∀ q q' s, f q = .inl q' → c.waiting q s → c'.waiting q' s)
    (hresumed : ∀ q q' s r t, f q = .inl q' → c'.resumed q' s r t → c.resumed q s r t)
    (hanswer : ∀ q r s, f q = .inr r → c.resumed q s r s) : (x.answer f).Meets c' post := by
  induction x with
  | done a s => exact h
  | fail e s => exact hfailing e h
  | wait q s k ih =>
      rw [Resumption.answer]
      cases hq : f q with
      | inl q' =>
          refine ⟨hwaiting q q' s hq h.1, ?_⟩
          intro r t hr
          exact ih r t (h.2 r t (hresumed q q' s r t hq hr))
      | inr r => exact ih r s (h.2 r s (hanswer q r s hq))

end Resumption

namespace Code

def relabel (g : π → π') (x : Code σ π ρ ε α) : Code σ π' ρ ε α := fun s => (x s).relabel g

def answer (f : π' → π ⊕ ρ) (x : Code σ π' ρ ε α) : Code σ π ρ ε α := fun s => (x s).answer f

section Answer

variable (f : π' → π ⊕ ρ)

@[simp] theorem answer_pure (a : α) : (pure a : Code σ π' ρ ε α).answer f = pure a := rfl

@[simp] theorem answer_get : (get : Code σ π' ρ ε σ).answer f = get := rfl

@[simp] theorem answer_modify (g : σ → σ) :
    (modify g : Code σ π' ρ ε Unit).answer f = modify g := rfl

@[simp] theorem answer_bind (x : Code σ π' ρ ε α) (g : α → Code σ π' ρ ε β) :
    (x >>= g).answer f = x.answer f >>= fun a => (g a).answer f :=
  funext fun s => Resumption.answer_bind f (x s) fun a t => g a t

@[simp] theorem answer_ite (p : Prop) [Decidable p] (x y : Code σ π' ρ ε α) :
    (if p then x else y).answer f = if p then x.answer f else y.answer f := by
  split <;> rfl

theorem answer_relabel {f : π' → π ⊕ ρ} {g : π → π'} (h : ∀ q, f (g q) = .inl q)
    (x : Code σ π ρ ε α) : (x.relabel g).answer f = x :=
  funext fun s => Resumption.answer_relabel h (x s)

/-- A question that is answered at once does not interrupt. -/
theorem answer_await_bind {f : π' → π ⊕ ρ} {q : π'} {r : ρ} (h : f q = .inr r)
    (x : ρ → Code σ π' ρ ε α) : (await q >>= x).answer f = (x r).answer f := by
  funext s
  simp only [answer, bind_apply, await, Resumption.bind, Resumption.answer, h]

end Answer

end Code

end LemolaOs
