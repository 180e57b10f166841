import LemolaOs.KernelLib.Compositing
import LemolaOs.KernelLib.Render

/-!
# Drawing on a window

A window takes the calls of `write` one by one. As long as they lie in the window it takes
all of them, and it then shows what the calls leave on a picture that keeps what is written to
it: the last colour at every pixel.
-/

namespace LemolaOs.Graphics.Window

/-- The drawing functions of `RendererMut`, with `Window::write` for the calls. -/
def paint (w : Window) (strokes : Strokes) : Rust Window := do
  let w ← strokes.effects.foldlM (fun w stroke => w.write stroke.1.1 stroke.1.2 stroke.2) w
  match strokes.ended with
  | none => return w
  | some e => throw e

/-- The colours of the window, and black outside. -/
def picture (w : Window) (pixel : Nat × Nat) : Color :=
  match w.pixelAt pixel.1 pixel.2 with
  | .ok color => color
  | .error _ => .black

/-- What drawing on a window leaves as it is. -/
structure SameFrame (w w' : Window) : Prop where
  width : w'.width = w.width
  rows : w'.rows = w.rows
  position : w'.position = w.position
  transparentColor : w'.transparentColor = w.transparentColor

variable {w w' : Window} {x y : Nat} {c : Color} {strokes : Strokes}

theorem SameFrame.refl (w : Window) : w.SameFrame w := ⟨rfl, rfl, rfl, rfl⟩

theorem SameFrame.trans {w'' : Window} (h : w.SameFrame w') (h' : w'.SameFrame w'') :
    w.SameFrame w'' :=
  ⟨h'.width.trans h.width, h'.rows.trans h.rows, h'.position.trans h.position,
    h'.transparentColor.trans h.transparentColor⟩

/-- A write inside the window returns. -/
theorem exists_write (hx : x < w.width) (hy : y < w.rows) (c : Color) :
    ∃ w', w.write x y c = .ok w' := by
  obtain ⟨old, hold⟩ := exists_pixelAt hx hy
  have hlen := row_le_buffer (Nat.succ_le_of_lt hx) hy
  have hfits := w.buffer_fits
  have hindex : byteIndex w.width x y = .ok ((x + y * w.width) * 4) :=
    byteIndex_eq_ok.mpr ⟨by omega, rfl⟩
  have hadd : usizeAdd ((x + y * w.width) * 4) 4 = .ok ((x + y * w.width) * 4 + 4) :=
    usizeAdd_eq_ok.mpr ⟨by omega, rfl⟩
  rw [write, hold, Rust.ok_bind, hindex, Rust.ok_bind, hadd, Rust.ok_bind, dif_pos (by omega)]
  exact ⟨_, rfl⟩

theorem sameFrame_write (h : w.write x y c = .ok w') : w.SameFrame w' := by
  obtain ⟨-, htransparent, -, hwidth, -⟩ := write_spec h
  simp only [write, Rust.bind_eq_ok] at h
  obtain ⟨_, -, _, -, _, -, h⟩ := h
  split at h
  · cases h
    exact ⟨hwidth, rfl, rfl, htransparent⟩
  · cases h

theorem picture_write (h : w.write x y c = .ok w') :
    w'.picture = Function.update w.picture (x, y) c := by
  obtain ⟨-, -, -, -, hpixel, -⟩ := write_spec h
  funext ⟨i, j⟩
  rw [picture, hpixel]
  by_cases hij : i = x ∧ j = y
  · obtain ⟨rfl, rfl⟩ := hij
    rw [if_pos ⟨rfl, rfl⟩, Function.update_self]
  · have hne : (i, j) ≠ (x, y) := fun heq => hij (by simpa using heq)
    rw [if_neg hij, Function.update_of_ne hne, picture]

/-- A drawing inside the window returns, and the window shows it. -/
theorem paint_spec (hended : strokes.ended = none)
    (hinside : ∀ px py c, ((px, py), c) ∈ strokes.effects → px < w.width ∧ py < w.rows) :
    ∃ w', w.paint strokes = .ok w' ∧ w.SameFrame w' ∧
      w'.picture = applyWrites w.picture strokes.effects := by
  obtain ⟨effects, ended⟩ := strokes
  cases hended
  dsimp only at hinside
  simp only [paint]
  induction effects generalizing w with
  | nil => exact ⟨w, rfl, .refl w, rfl⟩
  | cons stroke effects ih =>
      obtain ⟨⟨px, py⟩, c⟩ := stroke
      obtain ⟨hx, hy⟩ := hinside px py c List.mem_cons_self
      obtain ⟨w₁, hwrite⟩ := exists_write hx hy c
      have hframe := sameFrame_write hwrite
      obtain ⟨w₂, hpaint, hframe₂, hpicture⟩ := @ih w₁ fun px py c hc => by
        rw [hframe.width, hframe.rows]
        exact hinside px py c (List.mem_cons_of_mem _ hc)
      refine ⟨w₂, ?_, hframe.trans hframe₂, ?_⟩
      · rw [List.foldlM_cons, hwrite, Rust.ok_bind]
        exact hpaint
      · rw [hpicture, picture_write hwrite, applyWrites_cons]

/-- What an opaque window shows at a position of the screen. -/
theorem colorAt_eq_picture (hsolid : w.transparentColor = none) (hx : w.position.x ≤ x)
    (hy : w.position.y ≤ y) (hwidth : x < w.position.x + w.width)
    (hrows : y < w.position.y + w.rows) :
    w.colorAt x y = some (w.picture (x - w.position.x, y - w.position.y)) := by
  obtain ⟨color, hcolor⟩ := @exists_pixelAt w (x - w.position.x) (y - w.position.y) (by omega)
    (by omega)
  rw [picture, hcolor, colorAt_eq_some]
  exact ⟨hx, hy, hcolor, by rw [hsolid]; exact nofun⟩

/-- What any window shows at a position of the screen. -/
theorem colorAt_eq_filter (hx : w.position.x ≤ x) (hy : w.position.y ≤ y)
    (hwidth : x < w.position.x + w.width) (hrows : y < w.position.y + w.rows) :
    w.colorAt x y = (some (w.picture (x - w.position.x, y - w.position.y))).filter
      fun color => w.transparentColor ≠ some color := by
  obtain ⟨color, hcolor⟩ := @exists_pixelAt w (x - w.position.x) (y - w.position.y) (by omega)
    (by omega)
  rw [colorAt, if_pos ⟨hx, hy⟩, picture, hcolor, pixelAt_eq_ok.mp hcolor]

theorem colorAt_eq_none_of_outside (h : ¬ ((w.position.x ≤ x ∧ x < w.position.x + w.width) ∧
    w.position.y ≤ y ∧ y < w.position.y + w.rows)) : w.colorAt x y = none := by
  rw [← Option.not_isSome_iff_eq_none, Option.isSome_iff_exists]
  rintro ⟨color, hcolor⟩
  obtain ⟨hx, hy, hpixel, -⟩ := colorAt_eq_some.mp hcolor
  have hlt := lt_of_pixelAt hpixel
  exact h ⟨⟨hx, by omega⟩, hy, by omega⟩

/-- The calls of `write` keep the format, and the history of the window goes on. -/
theorem renderingHandler_writes {strokes : List ((Nat × Nat) × Color)}
    (h : strokes.foldlM (fun w stroke => w.write stroke.1.1 stroke.1.2 stroke.2) w = .ok w') :
    w'.renderingHandler = w.renderingHandler ∧ (w.Drawn → w'.Drawn) := by
  induction strokes generalizing w with
  | nil =>
      cases h
      exact ⟨rfl, id⟩
  | cons stroke strokes ih =>
      rw [List.foldlM_cons] at h
      obtain ⟨w₁, hwrite, hrest⟩ := Rust.bind_eq_ok.mp h
      obtain ⟨hhandler, hdrawn⟩ := ih hrest
      exact ⟨hhandler.trans (write_spec hwrite).2.2.1, fun hw => hdrawn (hw.write hwrite)⟩

theorem renderingHandler_paint (h : w.paint strokes = .ok w') :
    w'.renderingHandler = w.renderingHandler ∧ (w.Drawn → w'.Drawn) := by
  obtain ⟨painted, hpainted, h⟩ := Rust.bind_eq_ok.mp h
  split at h
  · cases h
    exact renderingHandler_writes hpainted
  · cases h

end LemolaOs.Graphics.Window

namespace LemolaOs.Graphics.LayerManager

/-- `layer_mut(id).unwrap()` and a drawing on the layer. -/
def paintLayer (m : LayerManager) (id : LayerId) (strokes : Strokes) : Rust LayerManager :=
  match m.layer id with
  | none => .error (.message "called `Option::unwrap()` on a `None` value")
  | some layer => do
    let window ← layer.window.paint strokes
    return m.layerMut id fun layer => { layer with window := window }

variable {m : LayerManager} {id : LayerId} {layer : Layer} {w : Window}

theorem moveRelative_eq {xDiff yDiff : Int} (hlayer : m.layers id = some layer)
    (hmove : layer.window.moveRelative xDiff yDiff = .ok w) :
    m.moveRelative id xDiff yDiff = .ok { m with
      layers := Function.update m.layers id (some { layer with window := w }) } := by
  rw [moveRelative, hlayer]
  dsimp only
  rw [hmove]
  rfl

theorem paintLayer_eq {strokes : Strokes} (hlayer : m.layers id = some layer)
    (hpaint : layer.window.paint strokes = .ok w) :
    m.paintLayer id strokes = .ok { m with
      layers := Function.update m.layers id (some { layer with window := w }) } := by
  rw [paintLayer, LayerManager.layer, hlayer]
  dsimp only
  rw [hpaint, Rust.ok_bind, layerMut, hlayer]
  rfl

end LemolaOs.Graphics.LayerManager
