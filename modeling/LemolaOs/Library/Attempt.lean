import Mathlib.Tactic

/-!
# Computations that fail part of the way

An `Attempt` works on a state and returns, fails or panics. It fails the way the `?` of Rust
does: what it has done to the state until then stays done. After a panic there is no state.

`Meets` says what holds of each of the three ends. The rules for it follow the program
(`meets_bind`, `meets_get_bind`), and `Meets.mono` weakens what is asked.

`Keeps R` and `Atomic R` compare the state at the end with the state at the beginning: the
one for every end, the other for a failure only. An attempt is atomic if everything that
may fail comes before everything that breaks `R` (`Keeps.atomic_bind`).
-/

namespace LemolaOs

/-- A computation on a state that returns, fails or panics. -/
def Attempt (π ε σ α : Type) : Type := σ → Except π (Except ε α × σ)

/-- What is asked of the three ends. -/
structure Attempt.Post (π ε σ α : Type) where
  returned : α → σ → Prop
  failed : ε → σ → Prop
  panicked : π → Prop

namespace Attempt

variable {π ε σ α β : Type}

instance : Monad (Attempt π ε σ) where
  pure a s := .ok (.ok a, s)
  bind x f s :=
    match x s with
    | .error p => .error p
    | .ok (.error e, t) => .ok (.error e, t)
    | .ok (.ok a, t) => f a t

/-- Read the state. -/
def get : Attempt π ε σ σ := fun s => .ok (.ok s, s)

/-- Change the state. -/
def modify (f : σ → σ) : Attempt π ε σ Unit := fun s => .ok (.ok (), f s)

/-- Return an error. -/
def fail (e : ε) : Attempt π ε σ α := fun s => .ok (.error e, s)

/-- A computation that does not use the state, and may panic. -/
def lift (x : Except π α) : Attempt π ε σ α := fun s => x.map fun a => (.ok a, s)

/-- The second part goes on where the first has returned. -/
theorem bind_of_ok {x : Attempt π ε σ α} {f : α → Attempt π ε σ β} {s t : σ} {a : α}
    (h : x s = .ok (.ok a, t)) : (x >>= f) s = f a t := by
  simp only [bind, h]

theorem bind_of_error {x : Attempt π ε σ α} {f : α → Attempt π ε σ β} {s t : σ} {e : ε}
    (h : x s = .ok (.error e, t)) : (x >>= f) s = .ok (.error e, t) := by
  simp only [bind, h]

theorem bind_of_panic {x : Attempt π ε σ α} {f : α → Attempt π ε σ β} {s : σ} {p : π}
    (h : x s = .error p) : (x >>= f) s = .error p := by
  simp only [bind, h]

/-- What holds when the computation ends, wherever it ends. -/
def Meets (x : Attempt π ε σ α) (s : σ) (post : Post π ε σ α) : Prop :=
  match x s with
  | .error p => post.panicked p
  | .ok (.error e, t) => post.failed e t
  | .ok (.ok a, t) => post.returned a t

variable {x : Attempt π ε σ α} {f : α → Attempt π ε σ β} {s t : σ} {e : ε} {p : π}

section Meets

variable {post post' : Post π ε σ α}

@[simp] theorem meets_pure {a : α} : (pure a : Attempt π ε σ α).Meets s post ↔ post.returned a s :=
  Iff.rfl

@[simp] theorem meets_get {post : Post π ε σ σ} :
    (get : Attempt π ε σ σ).Meets s post ↔ post.returned s s := Iff.rfl

@[simp] theorem meets_modify {g : σ → σ} {post : Post π ε σ Unit} :
    (modify g : Attempt π ε σ Unit).Meets s post ↔ post.returned () (g s) := Iff.rfl

@[simp] theorem meets_fail : (fail e : Attempt π ε σ α).Meets s post ↔ post.failed e s := Iff.rfl

@[simp] theorem meets_lift_ok {a : α} :
    (lift (.ok a) : Attempt π ε σ α).Meets s post ↔ post.returned a s := Iff.rfl

@[simp] theorem meets_lift_error :
    (lift (.error p) : Attempt π ε σ α).Meets s post ↔ post.panicked p := Iff.rfl

/-- The second part is to do the rest. -/
@[simp] theorem meets_bind {post : Post π ε σ β} :
    (x >>= f).Meets s post ↔
      x.Meets s ⟨fun a t => (f a).Meets t post, post.failed, post.panicked⟩ := by
  cases hx : x s with
  | error p => simp only [Meets, bind, hx]
  | ok result =>
      obtain ⟨e | a, t⟩ := result
      · simp only [Meets, bind, hx]
      · simp only [Meets, bind, hx]

theorem meets_get_bind {f : σ → Attempt π ε σ β} {post : Post π ε σ β} :
    (get >>= f).Meets s post ↔ (f s).Meets s post := meets_bind

theorem Meets.mono (h : x.Meets s post) (hreturned : ∀ a t, post.returned a t → post'.returned a t)
    (hfailed : ∀ e t, post.failed e t → post'.failed e t)
    (hpanicked : ∀ p, post.panicked p → post'.panicked p) : x.Meets s post' := by
  rw [Meets] at h ⊢
  split at h
  · exact hpanicked _ h
  · exact hfailed _ _ h
  · exact hreturned _ _ h

/-- A loop over indices keeps what its rounds keep. -/
theorem meets_forM_range' {g : Nat → Attempt π ε σ Unit} {inv : Nat → σ → Prop}
    {failed : ε → σ → Prop} {panicked : π → Prop} {k n : Nat}
    (hround : ∀ i s, i < k + n → inv i s →
      (g i).Meets s ⟨fun _ t => inv (i + 1) t, failed, panicked⟩) (h : inv k s) :
    ((List.range' k n).forM g).Meets s ⟨fun _ t => inv (k + n) t, failed, panicked⟩ := by
  induction n generalizing k s with
  | zero => exact h
  | succ n ih =>
      rw [List.range'_succ]
      refine meets_bind.mpr ((hround k s (by omega) h).mono (fun _ t ht => ?_) (fun _ _ => id)
        fun _ => id)
      have hrest := ih (fun i s hi => hround i s (by omega)) ht
      rwa [Nat.add_right_comm] at hrest

theorem Meets.returned {a : α} (h : x.Meets s post) (hx : x s = .ok (.ok a, t)) :
    post.returned a t := by
  rw [Meets, hx] at h
  exact h

theorem Meets.failed (h : x.Meets s post) (hx : x s = .ok (.error e, t)) : post.failed e t := by
  rw [Meets, hx] at h
  exact h

theorem Meets.panicked (h : x.Meets s post) (hx : x s = .error p) : post.panicked p := by
  rw [Meets, hx] at h
  exact h

end Meets

section Relation

variable {R : σ → σ → Prop}

/-- The state at the end is in relation to that at the beginning. -/
def Keeps (R : σ → σ → Prop) (x : Attempt π ε σ α) : Prop :=
  ∀ s, x.Meets s ⟨fun _ t => R s t, fun _ t => R s t, fun _ => True⟩

/-- The state at a failure is in relation to that at the beginning. -/
def Atomic (R : σ → σ → Prop) (x : Attempt π ε σ α) : Prop :=
  ∀ s, x.Meets s ⟨fun _ _ => True, fun _ t => R s t, fun _ => True⟩

/-- Nothing is done from this state. -/
theorem meets_of_idle [Std.Refl R] {a : α} (h : x s = .ok (.ok a, s)) :
    x.Meets s ⟨fun _ t => R s t, fun _ t => R s t, fun _ => True⟩ := by
  rw [Meets, h]
  exact Std.Refl.refl s

theorem Keeps.atomic (h : Keeps R x) : Atomic R x :=
  fun s => (h s).mono (fun _ _ _ => trivial) (fun _ _ hR => hR) fun _ _ => trivial

theorem keeps_get [Std.Refl R] : Keeps R (get : Attempt π ε σ σ) := fun s => Std.Refl.refl s

theorem keeps_pure [Std.Refl R] (a : α) : Keeps R (pure a : Attempt π ε σ α) :=
  fun s => Std.Refl.refl s

theorem keeps_fail [Std.Refl R] (e : ε) : Keeps R (fail e : Attempt π ε σ α) :=
  fun s => Std.Refl.refl s

theorem keeps_lift [Std.Refl R] (y : Except π α) : Keeps R (lift y : Attempt π ε σ α) := by
  intro s
  cases y with
  | error p => trivial
  | ok a => exact Std.Refl.refl s

theorem keeps_modify {g : σ → σ} (h : ∀ s, R s (g s)) : Keeps R (modify g : Attempt π ε σ Unit) := h

/-- A change of the state cannot fail. -/
theorem atomic_modify (g : σ → σ) : Atomic R (modify g : Attempt π ε σ Unit) := fun _ => trivial

/-- What does not need the state cannot fail. -/
theorem atomic_lift (y : Except π α) : Atomic R (lift y : Attempt π ε σ α) := by
  intro s
  cases y <;> trivial

theorem Keeps.bind [IsTrans σ R] (hx : Keeps R x) (hf : ∀ a, Keeps R (f a)) :
    Keeps R (x >>= f) := by
  intro s
  refine meets_bind.mpr ((hx s).mono (fun a t hst => ?_) (fun _ _ hR => hR) fun _ _ => trivial)
  exact (hf a t).mono (fun _ _ => trans_of R hst) (fun _ _ => trans_of R hst) fun _ _ => trivial

theorem keeps_forM_range' [Std.Refl R] [IsTrans σ R] {g : Nat → Attempt π ε σ Unit} {k n : Nat}
    (hg : ∀ i, Keeps R (g i)) : Keeps R ((List.range' k n).forM g) := by
  intro s
  let inv : Nat → σ → Prop := fun _ t => R s t
  refine meets_forM_range' (fun i t _ hst => ?_) (show inv k s from Std.Refl.refl s)
  exact (hg i t).mono (fun _ _ => trans_of R hst) (fun _ _ => trans_of R hst) fun _ _ => trivial

/-- What may fail comes first. -/
theorem Keeps.atomic_bind [IsTrans σ R] (hx : Keeps R x) (hf : ∀ a, Atomic R (f a)) :
    Atomic R (x >>= f) := by
  intro s
  refine meets_bind.mpr ((hx s).mono (fun a t hst => ?_) (fun _ _ hR => hR) fun _ _ => trivial)
  exact (hf a t).mono (fun _ _ => id) (fun _ _ => trans_of R hst) fun _ _ => trivial

/-- What goes on from a state in relation to the first. -/
theorem Keeps.bind_meets {post : Post π ε σ β} (hx : Keeps R x)
    (hf : ∀ a t, R s t → (f a).Meets t post) (hfailed : ∀ e t, R s t → post.failed e t)
    (hpanicked : ∀ p, post.panicked p) : (x >>= f).Meets s post :=
  meets_bind.mpr ((hx s).mono hf hfailed fun p _ => hpanicked p)

theorem Atomic.rel (h : Atomic R x) (hx : x s = .ok (.error e, t)) : R s t := (h s).failed hx

end Relation

end Attempt

end LemolaOs
