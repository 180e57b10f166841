import LemolaOs.Library.Transition

/-!
# Handlers that wait, and a scheduler that runs them

An asynchronous handler works on a state of type `σ` without interruption until
it returns, fails, or waits: it then asks a question of type `π` and is resumed
with an answer of type `ρ` in a state that others may have changed.

`Resumption.Meets` is a postcondition in the presence of such interruptions. A
`Protocol` says what a handler guarantees whenever it waits, what it may rely on
when it is resumed, and which failures are admissible. The rules follow the
sequencing of handlers, and `Scheduler.reachable_ok` lifts them to all runs of a
scheduler that starts handlers one after another.
-/

namespace LemolaOs

/-- What becomes of a handler: it returns, fails, or waits for the answer to `q`. -/
inductive Resumption (σ π ρ ε α : Type) where
  | done (a : α) (s : σ)
  | fail (e : ε) (s : σ)
  | wait (q : π) (s : σ) (k : ρ → σ → Resumption σ π ρ ε α)

variable {σ π ρ ε α β : Type}

namespace Resumption

def bind : Resumption σ π ρ ε α → (α → σ → Resumption σ π ρ ε β) → Resumption σ π ρ ε β
  | .done a s, f => f a s
  | .fail e s, _ => .fail e s
  | .wait q s k, f => .wait q s fun r s' => (k r s').bind f

@[simp] theorem bind_done (a : α) (s : σ) (f : α → σ → Resumption σ π ρ ε β) :
    (done a s).bind f = f a s := rfl

@[simp] theorem bind_fail (e : ε) (s : σ) (f : α → σ → Resumption σ π ρ ε β) :
    (fail e s).bind f = fail e s := rfl

end Resumption

/-- A handler, as a function of the state in which it starts. -/
def Code (σ π ρ ε α : Type) : Type := σ → Resumption σ π ρ ε α

namespace Code

instance : Monad (Code σ π ρ ε) where
  pure a s := .done a s
  bind x f s := (x s).bind fun a s => f a s

def get : Code σ π ρ ε σ := fun s => .done s s

def modify (f : σ → σ) : Code σ π ρ ε Unit := fun s => .done () (f s)

def fail (e : ε) : Code σ π ρ ε α := fun s => .fail e s

/-- Wait for the answer to `q`. -/
def await (q : π) : Code σ π ρ ε ρ := fun s => .wait q s fun r s => .done r s

variable {s : σ}

@[simp] theorem pure_apply (a : α) : (pure a : Code σ π ρ ε α) s = .done a s := rfl

@[simp] theorem bind_apply (x : Code σ π ρ ε α) (f : α → Code σ π ρ ε β) :
    (x >>= f) s = (x s).bind fun a s => f a s := rfl

@[simp] theorem get_apply : (get : Code σ π ρ ε σ) s = .done s s := rfl

@[simp] theorem modify_apply (f : σ → σ) : (modify f : Code σ π ρ ε Unit) s = .done () (f s) := rfl

@[simp] theorem fail_apply (e : ε) : (fail e : Code σ π ρ ε α) s = .fail e s := rfl

theorem ite_apply (c : Prop) [Decidable c] (x y : Code σ π ρ ε α) :
    (if c then x else y) s = if c then x s else y s := by
  split <;> rfl

end Code

/-- What a handler guarantees when it waits, what it relies on when it is resumed, and
the failures that are admissible. -/
structure Protocol (σ π ρ ε : Type) where
  waiting : π → σ → Prop
  resumed : π → σ → ρ → σ → Prop
  failing : ε → Prop

namespace Resumption

variable {c : Protocol σ π ρ ε} {post : α → σ → Prop}

/-- The handler keeps to the protocol and, if it returns, does so with `post`. -/
def Meets (c : Protocol σ π ρ ε) (post : α → σ → Prop) : Resumption σ π ρ ε α → Prop
  | .done a s => post a s
  | .fail e _ => c.failing e
  | .wait q s k => c.waiting q s ∧ ∀ r s', c.resumed q s r s' → Meets c post (k r s')

@[simp] theorem meets_done {a : α} {s : σ} :
    (done a s : Resumption σ π ρ ε α).Meets c post ↔ post a s := Iff.rfl

@[simp] theorem meets_wait {q : π} {s : σ} {k : ρ → σ → Resumption σ π ρ ε α} :
    (wait q s k).Meets c post ↔
      c.waiting q s ∧ ∀ r s', c.resumed q s r s' → (k r s').Meets c post := Iff.rfl

/-- Consequence. -/
theorem Meets.mono {post' : α → σ → Prop} {x : Resumption σ π ρ ε α} (h : x.Meets c post)
    (himp : ∀ a s, post a s → post' a s) : x.Meets c post' := by
  induction x with
  | done a s => exact himp a s h
  | fail e s => exact h
  | wait q s k ih => exact ⟨h.1, fun r s' hr => ih r s' (h.2 r s' hr)⟩

/-- A protocol that asks for less. -/
theorem Meets.relax {c' : Protocol σ π ρ ε} {x : Resumption σ π ρ ε α} (h : x.Meets c post)
    (hwaiting : ∀ q s, c.waiting q s → c'.waiting q s)
    (hresumed : ∀ q s r s', c'.resumed q s r s' → c.resumed q s r s')
    (hfailing : ∀ e, c.failing e → c'.failing e) : x.Meets c' post := by
  induction x with
  | done a s => exact h
  | fail e s => exact hfailing e h
  | wait q s k ih =>
      refine ⟨hwaiting q s h.1, ?_⟩
      intro r s' hr
      exact ih r s' (h.2 r s' (hresumed q s r s' hr))

/-- Sequencing. -/
theorem meets_bind {post' : β → σ → Prop} {x : Resumption σ π ρ ε α}
    {f : α → σ → Resumption σ π ρ ε β} :
    (x.bind f).Meets c post' ↔ x.Meets c fun a s => (f a s).Meets c post' := by
  induction x with
  | done a s => exact Iff.rfl
  | fail e s => exact Iff.rfl
  | wait q s k ih =>
      simp only [Resumption.bind, meets_wait]
      exact and_congr_right fun _ => forall₂_congr fun r s' => imp_congr_right fun _ => ih r s'

end Resumption

namespace Code

variable {c : Protocol σ π ρ ε} {s : σ}

/-- Sequencing, for code. -/
theorem bind_meets {x : Code σ π ρ ε α} {f : α → Code σ π ρ ε β} {post : β → σ → Prop}
    (h : (x s).Meets c fun a t => (f a t).Meets c post) : ((x >>= f) s).Meets c post :=
  Resumption.meets_bind.mpr h

theorem get_bind_meets {f : σ → Code σ π ρ ε α} {post : α → σ → Prop}
    (h : (f s s).Meets c post) : ((get >>= f) s).Meets c post := h

theorem ite_meets {p : Prop} [Decidable p] {x y : Code σ π ρ ε α} {post : α → σ → Prop}
    (hx : p → (x s).Meets c post) (hy : ¬ p → (y s).Meets c post) :
    ((if p then x else y) s).Meets c post := by
  split
  next h => exact hx h
  next h => exact hy h

end Code

section History

variable {γ : Type}

/-- Carry a history variable along. It does not change while the handler runs or waits. -/
def Resumption.withHistory (g : γ) : Resumption σ π ρ ε α → Resumption (σ × γ) π ρ ε α
  | .done a s => .done a (s, g)
  | .fail e s => .fail e (s, g)
  | .wait q s k => .wait q (s, g) fun r s' => (k r s'.1).withHistory g

def Code.withHistory (x : Code σ π ρ ε α) : Code (σ × γ) π ρ ε α :=
  fun s => (x s.1).withHistory s.2

/-- A protocol for one value of the history. -/
def Protocol.at (c : Protocol (σ × γ) π ρ ε) (g : γ) : Protocol σ π ρ ε where
  waiting q s := c.waiting q (s, g)
  resumed q s r t := c.resumed q (s, g) r (t, g)
  failing := c.failing

theorem Resumption.withHistory_meets {c : Protocol (σ × γ) π ρ ε} {g : γ}
    {post : α → σ × γ → Prop} (hc : ∀ q s r t, c.resumed q s r t → t.2 = s.2)
    {x : Resumption σ π ρ ε α} (h : x.Meets (c.at g) fun a s => post a (s, g)) :
    (x.withHistory g).Meets c post := by
  induction x with
  | done a s => exact h
  | fail e s => exact h
  | wait q s k ih =>
      refine ⟨h.1, ?_⟩
      rintro r ⟨t, g'⟩ hresumed
      obtain rfl : g' = g := hc _ _ _ _ hresumed
      exact ih r t (h.2 r t hresumed)

/-- `y` is `x` with a history that is `g` when it returns. The history does not change while
it waits. -/
inductive Resumption.Extends (g : γ) :
    Resumption (σ × γ) π ρ ε α → Resumption σ π ρ ε α → Prop where
  | done (a : α) (s : σ) : Extends g (.done a (s, g)) (.done a s)
  | fail (e : ε) (s : σ) (g' : γ) : Extends g (.fail e (s, g')) (.fail e s)
  | wait (q : π) (s : σ) (g' : γ) {k : ρ → σ × γ → Resumption (σ × γ) π ρ ε α}
      {k' : ρ → σ → Resumption σ π ρ ε α} (h : ∀ r t, Extends g (k r (t, g')) (k' r t)) :
      Extends g (.wait q (s, g') k) (.wait q s k')

namespace Resumption.Extends

variable {g g' : γ} {y : Resumption (σ × γ) π ρ ε α} {x : Resumption σ π ρ ε α}

theorem withHistory (x : Resumption σ π ρ ε α) (g : γ) : (x.withHistory g).Extends g x := by
  induction x with
  | done a s => exact .done a s
  | fail e s => exact .fail e s g
  | wait q s k ih => exact .wait q s g fun r t => ih r t

/-- Sequencing. -/
theorem bind {f : α → σ × γ → Resumption (σ × γ) π ρ ε β} {f' : α → σ → Resumption σ π ρ ε β}
    (h : y.Extends g x) (hf : ∀ a t, (f a (t, g)).Extends g' (f' a t)) :
    (y.bind f).Extends g' (x.bind f') := by
  induction h with
  | done a s => exact hf a s
  | fail e s g'' => exact .fail e s g''
  | wait q s g'' _ ih => exact .wait q s g'' ih

/-- A step of the history alone. -/
theorem update (h : y.Extends g x) (f : γ → γ) :
    (y.bind fun a t => .done a (t.1, f t.2)).Extends (f g) x := by
  induction h with
  | done a s => exact .done a s
  | fail e s g' => exact .fail e s g'
  | wait q s g' _ ih => exact .wait q s g' ih

/-- What holds of code that does not wait holds of the code with the history. -/
theorem meets {c : Protocol (σ × γ) π ρ ε} {c' : Protocol σ π ρ ε} {post : α → σ → Prop}
    (h : y.Extends g x) (hx : x.Meets c' post) (hwaiting : ∀ q s, ¬ c'.waiting q s)
    (hfailing : ∀ e, c'.failing e → c.failing e) :
    y.Meets c fun a t => t.2 = g ∧ post a t.1 := by
  cases h with
  | done a s => exact ⟨rfl, hx⟩
  | fail e s g' => exact hfailing e hx
  | wait q s g' _ => exact absurd hx.1 (hwaiting q s)

end Resumption.Extends

end History

/-- The scheduler's task: none, one that waits, or one that has failed. -/
inductive Task (σ π ρ ε : Type) where
  | idle
  | waiting (q : π) (k : ρ → σ → Resumption σ π ρ ε Unit)
  | failed (e : ε)

structure Scheduled (σ π ρ ε : Type) where
  state : σ
  task : Task σ π ρ ε

/-- Suspend a handler that waits. -/
def Resumption.schedule : Resumption σ π ρ ε Unit → Scheduled σ π ρ ε
  | .done _ s => ⟨s, .idle⟩
  | .fail e s => ⟨s, .failed e⟩
  | .wait q s k => ⟨s, .waiting q k⟩

/-- The failure of the task. -/
def Scheduled.failure (x : Scheduled σ π ρ ε) : Option ε :=
  match x.task with
  | .failed e => some e
  | _ => none

theorem Scheduled.not_failed {x : Scheduled σ π ρ ε} (h : x.failure = none) (e : ε) :
    x.task ≠ .failed e := by
  intro he
  rw [Scheduled.failure, he] at h
  cases h

theorem Scheduled.task_of_failure {x : Scheduled σ π ρ ε} {e : ε} (h : x.failure = some e) :
    x.task = .failed e := by
  obtain ⟨s, task⟩ := x
  cases task with
  | failed e' => rw [← Option.some.inj h]
  | idle => cases h
  | waiting q k => cases h

/-- A scheduler runs one handler at a time. While a handler waits its question is polled;
the environment moves at any time. -/
structure Scheduler (σ π ρ ε ι : Type) where
  start : ι → Code σ π ρ ε Unit
  poll : π → σ → Option ρ × σ
  env : σ → σ → Prop

namespace Scheduler

variable {ι : Type}

inductive Label (ι : Type) where
  | start (i : ι)
  | poll
  | env

inductive Step (S : Scheduler σ π ρ ε ι) :
    Scheduled σ π ρ ε → Label ι → Scheduled σ π ρ ε → Prop where
  | start {s : σ} (i : ι) : Step S ⟨s, .idle⟩ (.start i) (S.start i s).schedule
  | ready {s s' : σ} {q : π} {k : ρ → σ → Resumption σ π ρ ε Unit} {r : ρ}
      (h : S.poll q s = (some r, s')) :
      Step S ⟨s, .waiting q k⟩ .poll (k r s').schedule
  | pending {s s' : σ} {q : π} {k : ρ → σ → Resumption σ π ρ ε Unit}
      (h : S.poll q s = (none, s')) :
      Step S ⟨s, .waiting q k⟩ .poll ⟨s', .waiting q k⟩
  | env {s s' : σ} {task : Task σ π ρ ε} (h : S.env s s') : Step S ⟨s, task⟩ .env ⟨s', task⟩

def system (S : Scheduler σ π ρ ε ι) (init : σ → Prop) :
    System (Scheduled σ π ρ ε) (Label ι) where
  init s := init s.state ∧ s.task = .idle
  step := S.Step

/-- Start a handler, if none is running. -/
def started (S : Scheduler σ π ρ ε ι) (i : ι) (x : Scheduled σ π ρ ε) : Scheduled σ π ρ ε :=
  match x.task with
  | .idle => (S.start i x.state).schedule
  | _ => x

/-- Poll the handler, if it waits. -/
def polled (S : Scheduler σ π ρ ε ι) (x : Scheduled σ π ρ ε) : Scheduled σ π ρ ε :=
  match x.task with
  | .waiting q k =>
      match S.poll q x.state with
      | (some r, s) => (k r s).schedule
      | (none, s) => ⟨s, .waiting q k⟩
  | _ => x

section Runs

variable {S : Scheduler σ π ρ ε ι} {init : σ → Prop} {ok : Scheduled σ π ρ ε → Label ι → Prop}
  {x : Scheduled σ π ρ ε} {t : σ}

theorem reachable_started (i : ι) (hx : (S.system init).Reachable x) :
    (S.system init).Reachable (S.started i x) := by
  obtain ⟨s, task⟩ := x
  cases task with
  | idle => exact hx.step (.start i)
  | waiting q k => exact hx
  | failed e => exact hx

theorem reachable_polled (hx : (S.system init).Reachable x) :
    (S.system init).Reachable (S.polled x) := by
  obtain ⟨s, task⟩ := x
  cases task with
  | idle => exact hx
  | failed e => exact hx
  | waiting q k =>
      simp only [polled]
      split
      next h => exact hx.step (.ready h)
      next h => exact hx.step (.pending h)

theorem reachable_env (hx : (S.system init).Reachable x) (h : S.env x.state t) :
    (S.system init).Reachable ⟨t, x.task⟩ :=
  hx.step (.env h)

theorem guard_reachable_started {i : ι} (hx : ((S.system init).guard ok).Reachable x)
    (h : ok x (.start i)) :
    ((S.system init).guard ok).Reachable (S.started i x) := by
  obtain ⟨s, task⟩ := x
  cases task with
  | idle => exact hx.step ⟨h, .start i⟩
  | waiting q k => exact hx
  | failed e => exact hx

theorem guard_reachable_polled (hx : ((S.system init).guard ok).Reachable x) (h : ok x .poll) :
    ((S.system init).guard ok).Reachable (S.polled x) := by
  obtain ⟨s, task⟩ := x
  cases task with
  | idle => exact hx
  | failed e => exact hx
  | waiting q k =>
      simp only [polled]
      split
      next hpoll => exact hx.step ⟨h, .ready hpoll⟩
      next hpoll => exact hx.step ⟨h, .pending hpoll⟩

theorem guard_reachable_env (hx : ((S.system init).guard ok).Reachable x) (hok : ok x .env)
    (h : S.env x.state t) :
    ((S.system init).guard ok).Reachable ⟨t, x.task⟩ :=
  hx.step ⟨hok, .env h⟩

end Runs

/-- Between handlers the invariant holds; a handler that waits has met its part of the
protocol and will, when resumed accordingly, leave the invariant. -/
def Ok (c : Protocol σ π ρ ε) (inv : σ → Prop) (s : Scheduled σ π ρ ε) : Prop :=
  match s.task with
  | .idle => inv s.state
  | .failed e => c.failing e
  | .waiting q k => c.waiting q s.state ∧
      ∀ r s', c.resumed q s.state r s' → (k r s').Meets c fun _ s => inv s

/-- What holds between handlers and whenever one waits holds in every state without a
failure. -/
theorem Ok.observed {c : Protocol σ π ρ ε} {inv I : σ → Prop} {x : Scheduled σ π ρ ε}
    (hx : Ok c inv x) (hobserved : ∀ e, x.task ≠ .failed e) (hinv : ∀ s, inv s → I s)
    (hwaiting : ∀ q s, c.waiting q s → I s) : I x.state := by
  obtain ⟨s, task⟩ := x
  cases task with
  | idle => exact hinv s hx
  | failed e => exact absurd rfl (hobserved e)
  | waiting q k => exact hwaiting q s hx.1

theorem ok_schedule {c : Protocol σ π ρ ε} {inv : σ → Prop} {x : Resumption σ π ρ ε Unit}
    (h : x.Meets c fun _ s => inv s) : Ok c inv x.schedule := by
  cases x with
  | done a s => exact h
  | fail e s => exact h
  | wait q s k => exact h

/-- The moves of a scheduler respect a protocol: the environment and polls without an
answer keep what a waiting handler relies on, and an answer is as promised. -/
structure Respects (S : Scheduler σ π ρ ε ι) (c : Protocol σ π ρ ε) (inv : σ → Prop) : Prop where
  env_inv : ∀ {s s'}, inv s → S.env s s' → inv s'
  env_waiting : ∀ {q s s'}, c.waiting q s → S.env s s' → c.waiting q s'
  env_resumed : ∀ {q s s' r t}, c.waiting q s → S.env s s' → c.resumed q s' r t → c.resumed q s r t
  poll_waiting : ∀ {q s s'}, c.waiting q s → S.poll q s = (none, s') → c.waiting q s'
  poll_resumed : ∀ {q s s' r t}, c.waiting q s → S.poll q s = (none, s') → c.resumed q s' r t →
    c.resumed q s r t
  poll_ready : ∀ {q s s' r}, c.waiting q s → S.poll q s = (some r, s') → c.resumed q s r s'

/-- The moves that `ok` admits respect a protocol. -/
structure RespectsWhen (S : Scheduler σ π ρ ε ι) (c : Protocol σ π ρ ε)
    (ok : Scheduled σ π ρ ε → Label ι → Prop) : Prop where
  env_waiting : ∀ {q s s'}, c.waiting q s → S.env s s' → c.waiting q s'
  env_resumed : ∀ {q s s' r t}, c.waiting q s → S.env s s' → c.resumed q s' r t → c.resumed q s r t
  poll_waiting : ∀ {q s s'}, c.waiting q s → S.poll q s = (none, s') → c.waiting q s'
  poll_resumed : ∀ {q s s' r t}, c.waiting q s → S.poll q s = (none, s') → c.resumed q s' r t →
    c.resumed q s r t
  poll_ready : ∀ {q s s' r k}, ok ⟨s, .waiting q k⟩ .poll → c.waiting q s →
    S.poll q s = (some r, s') → c.resumed q s r s'

/-- If the environment and the polls move along `same`, then a protocol respects them whose
handlers rely on `same` only and wait for what is stable under it. -/
theorem respects_of_same {S : Scheduler σ π ρ ε ι} {c : Protocol σ π ρ ε} {inv : σ → Prop}
    (same : σ → σ → Prop) (htrans : ∀ {s t u}, same s t → same t u → same s u)
    (henv : ∀ {s t}, S.env s t → same s t)
    (hpoll : ∀ {q s answer t}, S.poll q s = (answer, t) → same s t)
    (hresumed : ∀ {q s r t}, c.resumed q s r t ↔ same s t)
    (hinv : ∀ {s t}, inv s → same s t → inv t)
    (hwaiting : ∀ {q s t}, c.waiting q s → same s t → c.waiting q t) : S.Respects c inv where
  env_inv h hmove := hinv h (henv hmove)
  env_waiting h hmove := hwaiting h (henv hmove)
  env_resumed _ hmove hback := hresumed.mpr (htrans (henv hmove) (hresumed.mp hback))
  poll_waiting h hpending := hwaiting h (hpoll hpending)
  poll_resumed _ hpending hback := hresumed.mpr (htrans (hpoll hpending) (hresumed.mp hback))
  poll_ready _ hready := hresumed.mpr (hpoll hready)

theorem Respects.when {S : Scheduler σ π ρ ε ι} {c : Protocol σ π ρ ε} {inv : σ → Prop}
    (respects : S.Respects c inv) (ok : Scheduled σ π ρ ε → Label ι → Prop) :
    S.RespectsWhen c ok :=
  ⟨respects.env_waiting, respects.env_resumed, respects.poll_waiting, respects.poll_resumed,
    fun _ => respects.poll_ready⟩

/-- A handler that was started in the state `s`, up to the moment when it returns or fails. -/
inductive Handling (S : Scheduler σ π ρ ε ι) (ok : Scheduled σ π ρ ε → Label ι → Prop) (i : ι)
    (s : σ) : Scheduled σ π ρ ε → Prop where
  | start (h : ok ⟨s, .idle⟩ (.start i)) : Handling S ok i s (S.start i s).schedule
  | step {t : σ} {q : π} {k : ρ → σ → Resumption σ π ρ ε Unit} {l : Label ι}
      {y : Scheduled σ π ρ ε} (hx : Handling S ok i s ⟨t, .waiting q k⟩)
      (h : ok ⟨t, .waiting q k⟩ l) (hstep : S.Step ⟨t, .waiting q k⟩ l y) : Handling S ok i s y

section Invariance

variable {S : Scheduler σ π ρ ε ι} {c : Protocol σ π ρ ε} {inv init : σ → Prop}
  {ok : Scheduled σ π ρ ε → Label ι → Prop}

theorem Handling.admissible {i : ι} {s : σ} {y : Scheduled σ π ρ ε} (h : S.Handling ok i s y) :
    ok ⟨s, .idle⟩ (.start i) := by
  induction h with
  | start h => exact h
  | step _ _ _ ih => exact ih

/-- A handler that waits goes on as it promised. -/
theorem Ok.step {s : σ} {q : π} {k : ρ → σ → Resumption σ π ρ ε Unit} {l : Label ι}
    {y : Scheduled σ π ρ ε} (respects : S.RespectsWhen c ok) (hs : Ok c inv ⟨s, .waiting q k⟩)
    (hok : ok ⟨s, .waiting q k⟩ l) (hstep : S.Step ⟨s, .waiting q k⟩ l y) : Ok c inv y := by
  obtain ⟨hwaiting, hresumed⟩ := hs
  cases hstep with
  | ready h => exact ok_schedule (hresumed _ _ (respects.poll_ready hok hwaiting h))
  | pending h =>
      refine ⟨respects.poll_waiting hwaiting h, ?_⟩
      intro r t hr
      exact hresumed r t (respects.poll_resumed hwaiting h hr)
  | env h =>
      refine ⟨respects.env_waiting hwaiting h, ?_⟩
      intro r t hr
      exact hresumed r t (respects.env_resumed hwaiting h hr)

/-- What a handler was started for holds when it returns. -/
theorem Handling.returns {i : ι} {s : σ} {y : Scheduled σ π ρ ε} (respects : S.RespectsWhen c ok)
    (hstart : (S.start i s).Meets c fun _ t => inv t) (hy : S.Handling ok i s y) : Ok c inv y := by
  induction hy with
  | start _ => exact ok_schedule hstart
  | step _ hok hstep ih => exact ih.step respects hok hstep

/-- If every admissible start of a handler meets the protocol, so does every state of
every run whose moves are admissible. -/
theorem reachable_ok_when (respects : S.RespectsWhen c ok)
    (henv : ∀ s s', inv s → S.env s s' → inv s') (hinit : ∀ s, init s → inv s)
    (hstart : ∀ s i, inv s → ok ⟨s, .idle⟩ (.start i) → (S.start i s).Meets c fun _ s => inv s)
    {x : Scheduled σ π ρ ε} (hx : ((S.system init).guard ok).Reachable x) : Ok c inv x := by
  apply hx.invariant
  · rintro ⟨s, task⟩ ⟨hs, rfl⟩
    exact hinit s hs
  · rintro ⟨s, task⟩ l y _ hs ⟨hok, hstep⟩
    cases task with
    | waiting q k => exact Ok.step respects hs hok hstep
    | idle =>
        cases hstep with
        | start i => exact ok_schedule (hstart s i hs hok)
        | env h => exact henv s _ hs h
    | failed e =>
        cases hstep with
        | env h => exact hs

theorem reachable_ok (respects : S.Respects c inv) (hinit : ∀ s, init s → inv s)
    (hstart : ∀ s i, inv s → ok ⟨s, .idle⟩ (.start i) → (S.start i s).Meets c fun _ s => inv s)
    {s : Scheduled σ π ρ ε} (hs : ((S.system init).guard ok).Reachable s) : Ok c inv s :=
  reachable_ok_when (respects.when ok) (fun _ _ => respects.env_inv) hinit hstart hs

end Invariance

end Scheduler

end LemolaOs
