import LemolaOs.KernelLib.Clipping
import LemolaOs.Library.Transition

/-!
# The layer stack over every sequence of calls

`LayerManager` keeps the drawing order and the layers themselves in two
containers. `LayerManager.calls` are all sequences of its operations, with any id
in any call and with layers made elsewhere (the counter behind `Layer::new` is
shared). A `LayerId` cannot be made up: it comes from `Layer::new` or is
`LayerId::uninitialized()`, which is what `Held` says of the calls.

With ids that exist the stack never holds an id twice. That it holds only ids of
layers needs more: `set_to_top` puts its id on the stack without looking it up,
unlike the operations that move a layer.
-/

namespace LemolaOs.Graphics.LayerManager

/-- The calls that change a layer manager or the counter it takes its ids from. -/
inductive Op where
  | newLayer (window : Window)
  | setToTop (id : LayerId)
  | hide (id : LayerId)
  | moveLayer (id : LayerId) (newPosition : Position)
  | moveRelative (id : LayerId) (xDiff yDiff : Int)
  | layerMut (id : LayerId) (change : Layer → Layer)
  /-- `Layer::new` outside this layer manager. -/
  | otherLayer

/-- One call; a panic ends the run. -/
def call (m : LayerManager) : Op → Rust LayerManager
  | .newLayer window => do return (← m.newLayer window).2
  | .setToTop id => .ok (m.setToTop id)
  | .hide id => .ok (m.hide id)
  | .moveLayer id newPosition => .ok (m.moveLayer id newPosition)
  | .moveRelative id xDiff yDiff => m.moveRelative id xDiff yDiff
  | .layerMut id change => .ok (m.layerMut id change)
  | .otherLayer =>
    if m.latestUnusedId < uninitialized then .ok { m with latestUnusedId := m.latestUnusedId + 1 }
    else .error .assertion

/-- Every sequence of calls on a new layer manager, made when some ids were already
taken. -/
def calls : System LayerManager Op where
  init m := ∃ writer taken, m = { LayerManager.new writer with latestUnusedId := taken }
  step m op m' := m.call op = .ok m'

/-- The id put on top is one that exists: it was handed out, or it is the
uninitialised one. -/
def Held (m : LayerManager) : Op → Prop
  | .setToTop id => id < m.latestUnusedId ∨ id = uninitialized
  | _ => True

/-- The id put on top is that of a layer. -/
def Present (m : LayerManager) : Op → Prop
  | .setToTop id => (m.layers id).isSome
  | _ => True

/-- The ids in the two containers. -/
structure StackInv (m : LayerManager) : Prop where
  nodup : m.layerStack.Nodup
  stacked : ∀ id ∈ m.layerStack, id < m.latestUnusedId ∨ id = uninitialized
  keys : ∀ id, (m.layers id).isSome → id < m.latestUnusedId

/-- Changing a layer in place changes no id. -/
theorem isSome_update {layers : LayerId → Option Layer} {id : LayerId} {layer : Layer}
    (h : layers id = some layer) (layer' : Layer) (i : LayerId) :
    (Function.update layers id (some layer') i).isSome = (layers i).isSome := by
  by_cases hi : i = id
  · subst hi
    rw [Function.update_self, h]
    rfl
  · rw [Function.update_of_ne hi]

/-- The operations that look an id up leave the stack, the counter and the set of
layers as they are. -/
structure SameIds (m m' : LayerManager) : Prop where
  layerStack : m'.layerStack = m.layerStack
  latestUnusedId : m'.latestUnusedId = m.latestUnusedId
  isSome : ∀ id, (m'.layers id).isSome = (m.layers id).isSome

theorem sameIds_layerMut (m : LayerManager) (id : LayerId) (change : Layer → Layer) :
    SameIds m (m.layerMut id change) := by
  unfold layerMut
  split
  · exact ⟨rfl, rfl, fun _ => rfl⟩
  · rename_i layer hlayer
    exact ⟨rfl, rfl, isSome_update hlayer _⟩

theorem sameIds_moveLayer (m : LayerManager) (id : LayerId) (newPosition : Position) :
    SameIds m (m.moveLayer id newPosition) := by
  unfold moveLayer
  split
  · exact ⟨rfl, rfl, fun _ => rfl⟩
  · rename_i layer hlayer
    exact ⟨rfl, rfl, isSome_update hlayer _⟩

theorem sameIds_moveRelative {m m' : LayerManager} {id : LayerId} {xDiff yDiff : Int}
    (h : m.moveRelative id xDiff yDiff = .ok m') : SameIds m m' := by
  unfold moveRelative at h
  split at h
  · cases h
    exact ⟨rfl, rfl, fun _ => rfl⟩
  · rename_i layer hlayer
    simp only [Rust.bind_eq_ok, pure, Except.pure, Except.ok.injEq] at h
    obtain ⟨window, _, rfl⟩ := h
    exact ⟨rfl, rfl, isSome_update hlayer _⟩

/-- What a call can do to the ids. -/
theorem call_cases {m m' : LayerManager} {op : Op} (h : m.call op = .ok m') :
    (∃ window, op = .newLayer window ∧ m.latestUnusedId < uninitialized ∧
      m' = { m with
        layerStack := m.latestUnusedId :: m.layerStack
        layers := Function.update m.layers m.latestUnusedId (some ⟨m.latestUnusedId, window⟩)
        latestUnusedId := m.latestUnusedId + 1 }) ∨
    (∃ id, op = .setToTop id ∧ m' = m.setToTop id) ∨
    (∃ id, op = .hide id ∧ m' = m.hide id) ∨
    SameIds m m' ∨
    m' = { m with latestUnusedId := m.latestUnusedId + 1 } := by
  cases op with
  | newLayer window =>
      simp only [call, newLayer] at h
      split at h
      · rename_i hid
        cases h
        exact .inl ⟨window, rfl, hid, rfl⟩
      · cases h
  | setToTop id =>
      cases h
      exact .inr (.inl ⟨id, rfl, rfl⟩)
  | hide id =>
      cases h
      exact .inr (.inr (.inl ⟨id, rfl, rfl⟩))
  | moveLayer id newPosition =>
      cases h
      exact .inr (.inr (.inr (.inl (sameIds_moveLayer m id newPosition))))
  | moveRelative id xDiff yDiff =>
      exact .inr (.inr (.inr (.inl (sameIds_moveRelative h))))
  | layerMut id change =>
      cases h
      exact .inr (.inr (.inr (.inl (sameIds_layerMut m id change))))
  | otherLayer =>
      simp only [call] at h
      split at h
      · cases h
        exact .inr (.inr (.inr (.inr rfl)))
      · cases h

theorem StackInv.fresh_not_mem {m : LayerManager} (inv : m.StackInv)
    (hid : m.latestUnusedId < uninitialized) : m.latestUnusedId ∉ m.layerStack := by
  intro hmem
  rcases inv.stacked _ hmem with hlt | heq
  · exact absurd hlt (Nat.lt_irrefl _)
  · exact absurd hid (heq ▸ Nat.lt_irrefl _)

theorem StackInv.call {m m' : LayerManager} {op : Op} (inv : m.StackInv) (held : m.Held op)
    (h : m.call op = .ok m') : m'.StackInv := by
  obtain ⟨window, rfl, hid, rfl⟩ | ⟨id, rfl, rfl⟩ | ⟨id, rfl, rfl⟩ | hsame | rfl := call_cases h
  · refine ⟨List.nodup_cons.mpr ⟨inv.fresh_not_mem hid, inv.nodup⟩, ?_, ?_⟩
    · intro id hmem
      rcases List.mem_cons.mp hmem with rfl | hmem
      · exact .inl (Nat.lt_succ_self _)
      · exact (inv.stacked id hmem).imp_left Nat.lt_succ_of_lt
    · intro id hsome
      by_cases hne : id = m.latestUnusedId
      · subst hne
        exact Nat.lt_succ_self _
      · dsimp only at hsome
        rw [Function.update_of_ne hne] at hsome
        exact Nat.lt_succ_of_lt (inv.keys id hsome)
  · -- the id is taken out of the stack before it is put on top
    refine ⟨?_, ?_, inv.keys⟩
    · simp only [setToTop, hide]
      rw [List.nodup_append]
      refine ⟨inv.nodup.erase id, List.nodup_singleton id, ?_⟩
      rintro i hi j hj rfl
      rw [List.mem_singleton] at hj
      subst hj
      exact inv.nodup.not_mem_erase hi
    · intro i hmem
      rcases List.mem_append.mp hmem with hmem | hmem
      · exact inv.stacked i (List.mem_of_mem_erase hmem)
      · rw [List.mem_singleton] at hmem
        subst hmem
        exact held
  · exact ⟨inv.nodup.erase id, fun i hmem => inv.stacked i (List.mem_of_mem_erase hmem), inv.keys⟩
  · refine ⟨hsame.layerStack ▸ inv.nodup, ?_, ?_⟩
    · rw [hsame.layerStack, hsame.latestUnusedId]
      exact inv.stacked
    · intro id hsome
      rw [hsame.isSome] at hsome
      rw [hsame.latestUnusedId]
      exact inv.keys id hsome
  · exact ⟨inv.nodup, fun id hmem => (inv.stacked id hmem).imp_left Nat.lt_succ_of_lt,
      fun id hsome => Nat.lt_succ_of_lt (inv.keys id hsome)⟩

theorem StackInv.new (writer : PixcelWriter) (taken : LayerId) :
    StackInv { LayerManager.new writer with latestUnusedId := taken } where
  nodup := .nil
  stacked := by simp [LayerManager.new]
  keys := by simp [LayerManager.new]

/-- With ids that exist the invariant holds in every state. -/
theorem StackInv.of_reachable {m : LayerManager} (hm : (calls.guard Held).Reachable m) :
    m.StackInv := by
  refine hm.invariant ?_ ?_
  · rintro m ⟨writer, taken, rfl⟩
    exact .new writer taken
  · intro m op m' _ inv h
    exact inv.call h.1 h.2

/-- A layer's id was handed out. -/
theorem StackInv.held_of_present {m : LayerManager} {op : Op} (inv : m.StackInv)
    (h : m.Present op) : m.Held op := by
  cases op with
  | setToTop id => exact .inl (inv.keys id h)
  | _ => trivial

/-- The panics a window's flush can end in. -/
inductive WindowPanic : Panic → Prop where
  | overflow : WindowPanic .overflow
  | outOfRange : WindowPanic .outOfRange
  | copy : WindowPanic (.message "copy_from_slice: source slice length does not match")

theorem WindowPanic.of_need {α : Type} {x : Rust α} {k : α → Draw} {e : Panic}
    (hx : ∀ e, x = .error e → WindowPanic e) (hk : ∀ a e, (k a).ended = some e → WindowPanic e)
    (h : (Emit.need x k).ended = some e) : WindowPanic e := by
  rcases Emit.need_ended_eq_some.mp h with herr | ⟨a, _, hend⟩
  · exact hx e herr
  · exact hk a e hend

theorem WindowPanic.of_bind {α β : Type} {x : Rust α} {f : α → Rust β} {e : Panic}
    (hx : ∀ e, x = .error e → WindowPanic e) (hf : ∀ a e, f a = .error e → WindowPanic e)
    (h : (x >>= f) = .error e) : WindowPanic e := by
  cases x with
  | error e' =>
      cases h
      exact hx _ rfl
  | ok a => exact hf a e h

theorem WindowPanic.of_usizeAdd {a b : Nat} {e : Panic} (h : usizeAdd a b = .error e) :
    WindowPanic e := by
  unfold usizeAdd at h
  split at h <;> cases h
  exact .overflow

theorem WindowPanic.of_usizeSub {a b : Nat} {e : Panic} (h : usizeSub a b = .error e) :
    WindowPanic e := by
  unfold usizeSub at h
  split at h <;> cases h
  exact .overflow

theorem WindowPanic.of_usizeMul {a b : Nat} {e : Panic} (h : usizeMul a b = .error e) :
    WindowPanic e := by
  unfold usizeMul at h
  split at h <;> cases h
  exact .overflow

theorem WindowPanic.of_byteIndex {stride x y : Nat} {e : Panic}
    (h : Window.byteIndex stride x y = .error e) : WindowPanic e :=
  .of_bind (fun _ => .of_usizeMul) (fun _ _ => .of_bind (fun _ => .of_usizeAdd)
    fun _ _ => .of_usizeMul) h

theorem WindowPanic.of_height {w : Window} {e : Panic} (h : w.height = .error e) :
    WindowPanic e := by
  unfold Window.height at h
  split at h <;> cases h
  exact .outOfRange

theorem WindowPanic.of_pixelAt {w : Window} {x y : Nat} {e : Panic}
    (h : w.pixelAt x y = .error e) : WindowPanic e := by
  unfold Window.pixelAt at h
  split at h <;> cases h
  exact .outOfRange

theorem WindowPanic.of_bufferSlice {w : Window} {lo hi : Nat} {e : Panic}
    (h : w.bufferSlice lo hi = .error e) : WindowPanic e := by
  unfold Window.bufferSlice at h
  split at h <;> cases h
  exact .outOfRange

theorem WindowPanic.of_write {g : PixcelWriter} {x y : Nat} {color : Color} {e : Panic}
    (h : (g.write x y color).ended = some e) : WindowPanic e := by
  refine .of_need ?_ (fun offset e => .of_need (fun _ => .of_usizeMul) fun _ _ h => ?_) h
  · exact fun _ => .of_bind (fun _ => .of_usizeMul) fun _ _ => .of_usizeAdd
  · simp at h

theorem WindowPanic.of_flushPixelRow {w : Window} {g : PixcelWriter} {transparentColor : Color}
    {y : Nat} {e : Panic} (h : (w.flushPixelRow g transparentColor y).ended = some e) :
    WindowPanic e := by
  refine .of_need (fun _ => .of_usizeAdd) (fun xEnd e h => ?_) h
  obtain ⟨x, _, hround⟩ := Emit.exists_of_forEach_ended h
  refine .of_need (fun _ => .of_pixelAt) (fun color e h => ?_) hround
  split at h
  · simp at h
  · exact .of_write h

theorem WindowPanic.of_flushRow {w : Window} {g : PixcelWriter} {xStart xEnd y : Nat} {e : Panic}
    (h : (w.flushRow g xStart xEnd y).ended = some e) : WindowPanic e := by
  refine .of_need (fun _ => .of_byteIndex) (fun offset e h => ?_) h
  refine .of_need (fun _ => .of_bind (fun _ => .of_usizeSub) fun _ _ => .of_usizeMul)
    (fun width e h => ?_) h
  refine .of_need (fun _ => .of_byteIndex) (fun lo e h => ?_) h
  refine .of_need (fun _ => .of_bind (fun _ => .of_usizeSub) fun _ _ => .of_byteIndex)
    (fun hi e h => ?_) h
  refine .of_need (fun _ => .of_bufferSlice) (fun row e h => ?_) h
  split at h
  · simp at h
  · cases h
    exact .copy

theorem WindowPanic.of_flush {w : Window} {g : PixcelWriter} {e : Panic}
    (h : (w.flush g).ended = some e) : WindowPanic e := by
  refine .of_need (fun _ => .of_bind (fun _ => .of_height) fun _ _ => .of_usizeAdd)
    (fun yEnd e h => ?_) h
  dsimp only at h
  split at h
  · obtain ⟨y, _, hround⟩ := Emit.exists_of_forEach_ended h
    exact .of_flushPixelRow hround
  · refine .of_need (fun _ => .of_usizeAdd) (fun xEnd e h => ?_) h
    obtain ⟨y, _, hround⟩ := Emit.exists_of_forEach_ended h
    exact .of_flushRow hround

/-- The two containers agree: no id twice in the stack, and only ids of layers. -/
structure InStep (m : LayerManager) : Prop where
  nodup : m.layerStack.Nodup
  present : ∀ id ∈ m.layerStack, (m.layers id).isSome
  /-- `flush` does not come to an id that it cannot unwrap. -/
  noUnwrap : m.flush.ended ≠ some (.message "called `Option::unwrap()` on a `None` value")

/-- A flush ends in the panic of `unwrap` only at an id without a layer. -/
theorem noUnwrap_of_present {m : LayerManager}
    (present : ∀ id ∈ m.layerStack, (m.layers id).isSome) :
    m.flush.ended ≠ some (.message "called `Option::unwrap()` on a `None` value") := by
  intro hend
  obtain ⟨id, hmem, hround⟩ := Emit.exists_of_forEach_ended hend
  obtain ⟨layer, hlayer⟩ := Option.isSome_iff_exists.mp (present id hmem)
  simp only [flushLayer, hlayer] at hround
  generalize hpanic : Panic.message "called `Option::unwrap()` on a `None` value" = e at hround
  cases WindowPanic.of_flush hround with
  | overflow => cases hpanic
  | outOfRange => cases hpanic
  | copy => exact absurd hpanic (by decide)

/-- An operation on ids of layers leaves only ids of layers in the stack. -/
theorem present_call {m m' : LayerManager} {op : Op}
    (present : ∀ id ∈ m.layerStack, (m.layers id).isSome) (ok : m.Present op)
    (h : m.call op = .ok m') : ∀ id ∈ m'.layerStack, (m'.layers id).isSome := by
  obtain ⟨window, rfl, _, rfl⟩ | ⟨id, rfl, rfl⟩ | ⟨id, rfl, rfl⟩ | hsame | rfl := call_cases h
  · intro id hmem
    by_cases hid : id = m.latestUnusedId
    · subst hid
      simp
    · rcases List.mem_cons.mp hmem with heq | hmem
      · exact absurd heq hid
      · dsimp only
        rw [Function.update_of_ne hid]
        exact present id hmem
  · intro i hmem
    rcases List.mem_append.mp hmem with hmem | hmem
    · exact present i (List.mem_of_mem_erase hmem)
    · rw [List.mem_singleton] at hmem
      subst hmem
      exact ok
  · exact fun i hmem => present i (List.mem_of_mem_erase hmem)
  · intro id hmem
    rw [hsame.layerStack] at hmem
    rw [hsame.isSome]
    exact present id hmem
  · exact present

/-- In every sequence of calls in which `set_to_top` gets only ids of layers, hidden
or not, and every other operation any id at all, the stack and the layers are in
step after every call, and no flush panics on its `unwrap`. -/
theorem reachable_inStep (m : LayerManager) (hm : (calls.guard Present).Reachable m) :
    m.InStep := by
  have hboth : m.StackInv ∧ ∀ id ∈ m.layerStack, (m.layers id).isSome := by
    refine hm.invariant
      (I := fun m => m.StackInv ∧ ∀ id ∈ m.layerStack, (m.layers id).isSome) ?_ ?_
    · rintro m ⟨writer, taken, rfl⟩
      exact ⟨.new writer taken, by simp [LayerManager.new]⟩
    · rintro m op m' _ ⟨inv, present⟩ ⟨ok, h⟩
      exact ⟨inv.call (inv.held_of_present ok) h, present_call present ok h⟩
  exact ⟨hboth.1.nodup, hboth.2, noUnwrap_of_present hboth.2⟩

/-- A screen of 4 by 4 pixels without a layer. -/
def emptyScreen : LayerManager := LayerManager.new ⟨4, 4, 4, .rgb⟩

theorem reachable_inStep_hide_setToTop :
    ∃ window m, Window.new 1 1 .rgb none ⟨0, 0⟩ = .ok window ∧
      emptyScreen.call (.newLayer window) = .ok m ∧ ((m.hide 0).setToTop 0).InStep := by
  obtain ⟨window, hwindow⟩ : ∃ window, Window.new 1 1 .rgb none ⟨0, 0⟩ = .ok window := ⟨_, rfl⟩
  obtain ⟨m, hm⟩ : ∃ m, emptyScreen.call (.newLayer window) = .ok m := ⟨_, rfl⟩
  have hsome : ((m.hide 0).layers 0).isSome := by
    cases hm
    rfl
  have hlayer : (calls.guard Present).step emptyScreen (.newLayer window) m := ⟨trivial, hm⟩
  have hhide : (calls.guard Present).step m (.hide 0) (m.hide 0) := ⟨trivial, rfl⟩
  have htop : (calls.guard Present).step (m.hide 0) (.setToTop 0) ((m.hide 0).setToTop 0) :=
    ⟨hsome, rfl⟩
  exact ⟨window, m, hwindow, hm,
    reachable_inStep _ (.step (.step (.step (.init ⟨⟨4, 4, 4, .rgb⟩, 0, rfl⟩) hlayer) hhide) htop)⟩

/-- Raising the uninitialised id, which a handler holds before its layer is made,
puts it on the stack, and the next flush panics. -/
theorem setToTop_uninitialized_not_inStep :
    calls.Reachable (emptyScreen.setToTop uninitialized) ∧
      ¬ (emptyScreen.setToTop uninitialized).InStep := by
  refine ⟨.step (.init ⟨⟨4, 4, 4, .rgb⟩, 0, rfl⟩)
    (show calls.step _ (.setToTop uninitialized) _ from rfl), fun h => ?_⟩
  exact h.noUnwrap rfl

end LemolaOs.Graphics.LayerManager
