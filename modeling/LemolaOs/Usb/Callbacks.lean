import LemolaOs.KernelLib.Console.Text
import LemolaOs.KernelLib.Shapes
import LemolaOs.Usb.Descriptor

/-!
# What the class drivers call back

`kernel/src/usb/class_driver/callbacks.rs` but for `_mouse`, which is modelled where its clicks
go. The layer of the mouse cursor is made once, and every report of the keyboard is typed on the
console, key by key; a space also stops the game of life or lets it run on.

A report is handled while it is read, so a key code beyond the tables panics behind the keys in
front of it. `keyboard_spec` says what a report does, and with `keyboard_returns` the reports that
are survived are exactly those `InTables`.
-/

namespace LemolaOs.Usb.Callbacks

open Graphics Renderer MouseCursor

/-- `init_mouse_cursor_layer`. -/
def initMouseCursorLayer (m : LayerManager) : Rust (LayerId × LayerManager) := do
  let shape := Shape.ofRows MouseCursorPixel.color mouseCursorShape
  let window ← Window.new shape.width shape.height m.writer.pixcelFormat
    (some MouseCursorPixel.backGround.color) ⟨0, 0⟩
  let (id, m) ← m.newLayer window
  let m ← m.moveRelative id 0 0
  let m ← m.paintLayer id (fillShape ⟨0, 0⟩ shape)
  return (id, m)

/-- The window of the cursor at a position. -/
structure CursorWindow (g : PixcelWriter) (position : Position) (w : Window) : Prop where
  drawn : w.Drawn
  format : w.renderingHandler = g.pixcelFormat
  width : w.width = mouseCursorWidth
  rows : w.rows = mouseCursorHeight
  transparentColor : w.transparentColor = some MouseCursorPixel.backGround.color
  position : w.position = position
  picture : ∀ x y (hx : x < mouseCursorWidth) (hy : y < mouseCursorHeight),
    w.picture (x, y) = mouseCursorShape[y][x].color

theorem CursorWindow.moveTo {g : PixcelWriter} {position : Position} {w : Window}
    (h : CursorWindow g position w) (newPosition : Position) :
    CursorWindow g newPosition (w.moveTo newPosition) where
  drawn := h.drawn.moveTo newPosition
  format := h.format
  width := h.width
  rows := h.rows
  transparentColor := h.transparentColor
  position := rfl
  picture := h.picture

/-- A layer manager with one layer. -/
def oneLayer (g : PixcelWriter) (w : Window) : LayerManager where
  writer := g
  layerStack := [0]
  layers := Function.update (fun _ => none) 0 (some ⟨0, w⟩)
  latestUnusedId := 1

theorem moveRelative_zero {w : Window} (h : w.position = ⟨0, 0⟩) : w.moveRelative 0 0 = .ok w := by
  have hstay : Window.moveCoordinate 0 0 = .ok 0 := rfl
  rw [Window.moveRelative, h, hstay, Rust.ok_bind, Rust.ok_bind, ← h]
  rfl

/-- The layer of the cursor is the first layer of the layer manager. -/
theorem initMouseCursorLayer_spec (g : PixcelWriter) :
    ∃ w, CursorWindow g ⟨0, 0⟩ w ∧ initMouseCursorLayer (.new g) = .ok (0, oneLayer g w) := by
  obtain ⟨w₀, hnew⟩ : ∃ w₀, Window.new mouseCursorWidth mouseCursorHeight g.pixcelFormat
      (some MouseCursorPixel.backGround.color) ⟨0, 0⟩ = .ok w₀ := ⟨_, rfl⟩
  have hdrawn : w₀.Drawn := .new hnew
  have hframe : w₀.width = mouseCursorWidth ∧ w₀.rows = mouseCursorHeight ∧
      w₀.transparentColor = some MouseCursorPixel.backGround.color ∧ w₀.position = ⟨0, 0⟩ ∧
      w₀.renderingHandler = g.pixcelFormat := by
    cases hnew
    exact ⟨List.length_replicate, rfl, rfl, rfl, rfl⟩
  obtain ⟨hwidth, hrows, htransparent, hposition, hformat⟩ := hframe
  obtain ⟨w, hpaint, hsame, hpicture⟩ := @paint_fillShape _ _ _ MouseCursorPixel.color
    mouseCursorShape _ hwidth hrows (by decide) (by decide)
  obtain ⟨hhandler, hkeep⟩ := Window.renderingHandler_paint hpaint
  refine ⟨w, ⟨hkeep hdrawn, hhandler.trans hformat, hsame.width.trans hwidth,
    hsame.rows.trans hrows, hsame.transparentColor.trans htransparent,
    hsame.position.trans hposition, hpicture⟩, ?_⟩
  have hlayer : LayerManager.newLayer (.new g) w₀ = .ok (0, oneLayer g w₀) := rfl
  have hlookup : ∀ w, (oneLayer g w).layers 0 = some ⟨0, w⟩ := fun w => by simp [oneLayer]
  have hmove : (oneLayer g w₀).moveRelative 0 0 0 = .ok (oneLayer g w₀) := by
    rw [LayerManager.moveRelative_eq (hlookup w₀) (moveRelative_zero hposition)]
    simp only [oneLayer, Function.update_idem]
  have hdraw : (oneLayer g w₀).paintLayer 0 (fillShape ⟨0, 0⟩
      (.ofRows MouseCursorPixel.color mouseCursorShape)) = .ok (oneLayer g w) := by
    rw [LayerManager.paintLayer_eq (hlookup w₀) hpaint]
    simp only [oneLayer, Function.update_idem]
  simp only [initMouseCursorLayer]
  refine (congrArg (· >>= _) hnew).trans ?_
  rw [Rust.ok_bind, hlayer, Rust.ok_bind, hmove, Rust.ok_bind, hdraw]
  rfl

section Keyboard

open Console

variable {σ : Type} {nRow nColumn : Nat} (dev : AsciiWriter σ)

def bs : Char := '\x08'

def null : Char := '\x00'

/-- `L_SHIFT_BITMASK`. -/
def lShiftBitmask : UInt8 := 0b00000010

/-- `R_SHIFT_BITMASK`. -/
def rShiftBitmask : UInt8 := 0b00100000

/-- `KEYCODE_MAP`, for the boot keyboard interface. -/
def keycodeMap : List Char :=
  [null, null, null, null, 'a', 'b', 'c', 'd', -- 0
   'e', 'f', 'g', 'h', 'i', 'j', 'k', 'l', -- 8
   'm', 'n', 'o', 'p', 'q', 'r', 's', 't', -- 16
   'u', 'v', 'w', 'x', 'y', 'z', '1', '2', -- 24
   '3', '4', '5', '6', '7', '8', '9', '0', -- 32
   '\n', bs, bs, '\t', ' ', '-', '=', '[', -- 40
   ']', '\\', '#', ';', '\x27', '\x60', ',', '.', -- 48
   '/', null, null, null, null, null, null, null, -- 56
   null, null, null, null, null, null, null, null, -- 64
   null, null, null, null, null, null, null, null, -- 72
   null, null, null, null, '/', '*', '-', '+', -- 80
   '\n', '1', '2', '3', '4', '5', '6', '7', -- 88
   '8', '9', '0', '.', '\\', null, null, '=', -- 96
   null, null, null, null, null, null, null, null, -- 104
   null, null, null, null, null, null, null, null, -- 112
   null, null, null, null, null, null, null, null, -- 120
   null, null, null, null, null, null, null, null, -- 128
   null, '\\', null, null, null, null, null, null] -- 136

/-- `KEYCODE_MAP_SHIFTED`. -/
def keycodeMapShifted : List Char :=
  [null, null, null, null, 'A', 'B', 'C', 'D', -- 0
   'E', 'F', 'G', 'H', 'I', 'J', 'K', 'L', -- 8
   'M', 'N', 'O', 'P', 'Q', 'R', 'S', 'T', -- 16
   'U', 'V', 'W', 'X', 'Y', 'Z', '!', '@', -- 24
   '#', '$', '%', '^', '&', '*', '(', ')', -- 32
   '\n', bs, bs, '\t', ' ', '_', '+', '{', -- 40
   '}', '|', '~', ':', '\x22', '~', '<', '>', -- 48
   '?', null, null, null, null, null, null, null, -- 56
   null, null, null, null, null, null, null, null, -- 64
   null, null, null, null, null, null, null, null, -- 72
   null, null, null, null, '/', '*', '-', '+', -- 80
   '\n', '1', '2', '3', '4', '5', '6', '7', -- 88
   '8', '9', '0', '.', '\\', null, null, '=', -- 96
   null, null, null, null, null, null, null, null, -- 104
   null, null, null, null, null, null, null, null, -- 112
   null, null, null, null, null, null, null, null, -- 120
   null, null, null, null, null, null, null, null, -- 128
   null, '|', null, null, null, null, null, null] -- 136

/-- The table that a report is read with. -/
def keycodes (modifiers : UInt8) : List Char :=
  if modifiers &&& (lShiftBitmask ||| rShiftBitmask) ≠ 0 then keycodeMapShifted else keycodeMap

/-- The closure given to `filter_map`. -/
def keycodeChar (modifiers keycode : UInt8) : Rust (Option Char) :=
  if keycode = 0 then .ok none
  else
    match (keycodes modifiers)[keycode.toNat]? with
    | some c => .ok (some c)
    | none => .error .outOfRange

/-- `_print_and_flush`. -/
def printAndFlush (console : Writer σ nRow nColumn) (text : List Char) :
    Rust (Writer σ nRow nColumn) := do
  return (← console.writeStr dev text).flush dev

/-- The closure given to `for_each`, with `RUNNING`. -/
def typeChar (state : Bool × Writer σ nRow nColumn) (c : Char) :
    Rust (Bool × Writer σ nRow nColumn) := do
  let running := if c = ' ' then !state.1 else state.1
  return (running, ← printAndFlush dev state.2 [c])

/-- One byte of a report goes through both closures. -/
def keyRound (modifiers : UInt8) (state : Bool × Writer σ nRow nColumn) (keycode : UInt8) :
    Rust (Bool × Writer σ nRow nColumn) := do
  match ← keycodeChar modifiers keycode with
  | none => return state
  | some c => typeChar dev state c

/-- `_keyboard`. -/
def keyboard (buf : List UInt8) (state : Bool × Writer σ nRow nColumn) :
    Rust (Bool × Writer σ nRow nColumn) := do
  let modifiers ← Usb.index buf 0
  (buf.drop 1).foldlM (keyRound dev modifiers) state

/-- The characters that key codes stand for. -/
def charsOf (modifiers : UInt8) (codes : List UInt8) : List Char :=
  (codes.filter (· ≠ 0)).filterMap fun keycode => (keycodes modifiers)[keycode.toNat]?

/-- The characters that a report types. -/
def typed : List UInt8 → List Char
  | [] => []
  | modifiers :: codes => charsOf modifiers codes

/-- A report with a modifier byte and key codes that the tables have. -/
def InTables : List UInt8 → Prop
  | [] => False
  | _ :: codes => ∀ keycode ∈ codes, keycode.toNat < 144

/-- `RUNNING` after some characters were typed: every space flips it. -/
def runningAfter (running : Bool) (text : List Char) : Bool :=
  xor running (decide (text.count ' ' % 2 = 1))

variable {dev} {modifiers keycode : UInt8} {running : Bool} {text : List Char}
  {console : Writer σ nRow nColumn} {state state' : Bool × Writer σ nRow nColumn}

theorem length_keycodes (modifiers : UInt8) : (keycodes modifiers).length = 144 := by
  rw [keycodes]
  split <;> rfl

theorem runningAfter_append (running : Bool) (first second : List Char) :
    runningAfter running (first ++ second) = runningAfter (runningAfter running first) second := by
  have hparity : ∀ a b : Nat, decide ((a + b) % 2 = 1) = xor (decide (a % 2 = 1))
      (decide (b % 2 = 1)) := by
    intro a b
    rw [Bool.eq_iff_iff, Bool.xor_iff_ne, ne_eq, decide_eq_decide, decide_eq_true_iff]
    omega
  rw [runningAfter, runningAfter, runningAfter, List.count_append, hparity, Bool.xor_assoc]

theorem charsOf_cons (modifiers keycode : UInt8) (codes : List UInt8) :
    charsOf modifiers (keycode :: codes) =
      charsOf modifiers [keycode] ++ charsOf modifiers codes := by
  rw [charsOf, charsOf, charsOf, ← List.filterMap_append, ← List.filter_append]
  rfl

/-- A byte of a report that the tables have. -/
theorem keycodeChar_eq (modifiers : UInt8) (h : keycode.toNat < 144) :
    keycodeChar modifiers keycode = .ok (charsOf modifiers [keycode]).head? ∧
      (charsOf modifiers [keycode]).length ≤ 1 := by
  have hlt : keycode.toNat < (keycodes modifiers).length := by rwa [length_keycodes]
  rw [keycodeChar, charsOf]
  by_cases hzero : keycode = 0
  · simp [hzero]
  · simp [hzero, List.getElem?_eq_getElem hlt]

theorem keycodeChar_returns {c : Option Char} (h : keycodeChar modifiers keycode = .ok c) :
    keycode.toNat < 144 := by
  rw [keycodeChar] at h
  split at h
  next hzero =>
    rw [hzero]
    decide
  next =>
    split at h
    next hget =>
      rw [← length_keycodes modifiers]
      exact (List.getElem?_eq_some_iff.mp hget).1
    next => cases h

/-- What a byte of a report does. -/
theorem keyRound_spec (dev : AsciiWriter σ) (modifiers : UInt8) (running : Bool)
    (hrow : 0 < nRow) (hcol : 0 < nColumn) (hholds : console.Holds text) (h : keycode.toNat < 144) :
    ∃ console', keyRound dev modifiers (running, console) keycode =
        .ok (runningAfter running (charsOf modifiers [keycode]), console') ∧
      console'.Holds (text ++ charsOf modifiers [keycode]) := by
  obtain ⟨hchar, hlength⟩ := keycodeChar_eq modifiers h
  rw [keyRound, hchar, Rust.ok_bind]
  match hchars : charsOf modifiers [keycode] with
  | [] =>
      refine ⟨console, ?_, by rwa [List.append_nil]⟩
      simp [runningAfter, pure, Except.pure]
  | [c] =>
      obtain ⟨printed, hprint, hprinted⟩ := hholds.exists_putString (d := dev) hrow hcol [c]
      refine ⟨printed.flush dev, ?_, hprinted.flush⟩
      have hflip : (if c = ' ' then !running else running) = runningAfter running [c] := by
        rw [runningAfter, List.count_singleton]
        by_cases hc : c = ' ' <;> simp [hc]
      simp only [List.head?_cons, typeChar, printAndFlush, Writer.writeStr, hprint, Rust.ok_bind,
        hflip]
      rfl
  | _ :: _ :: _ => simp [hchars] at hlength

theorem keyRounds_spec (dev : AsciiWriter σ) (modifiers : UInt8) (running : Bool)
    (hrow : 0 < nRow) (hcol : 0 < nColumn) (hholds : console.Holds text) {codes : List UInt8}
    (h : ∀ keycode ∈ codes, keycode.toNat < 144) :
    ∃ console', codes.foldlM (keyRound dev modifiers) (running, console) =
        .ok (runningAfter running (charsOf modifiers codes), console') ∧
      console'.Holds (text ++ charsOf modifiers codes) := by
  induction codes generalizing running console text with
  | nil =>
      refine ⟨console, ?_, by rwa [charsOf, List.filter_nil, List.filterMap_nil, List.append_nil]⟩
      simp [charsOf, runningAfter, pure, Except.pure]
  | cons keycode codes ih =>
      simp only [List.forall_mem_cons] at h
      obtain ⟨console₁, hround, hholds₁⟩ := keyRound_spec dev modifiers running hrow hcol hholds h.1
      obtain ⟨console₂, hrounds, hholds₂⟩ := ih (runningAfter running (charsOf modifiers [keycode]))
        hholds₁ h.2
      rw [charsOf_cons, runningAfter_append, ← List.append_assoc]
      refine ⟨console₂, ?_, hholds₂⟩
      rw [List.foldlM_cons, hround, Rust.ok_bind, hrounds]

theorem keyRounds_returns {codes : List UInt8}
    (h : codes.foldlM (keyRound dev modifiers) state = .ok state') :
    ∀ keycode ∈ codes, keycode.toNat < 144 := by
  induction codes generalizing state with
  | nil => exact fun _ hmem => absurd hmem List.not_mem_nil
  | cons keycode codes ih =>
      rw [List.foldlM_cons] at h
      obtain ⟨state₁, hround, hrest⟩ := Rust.bind_eq_ok.mp h
      obtain ⟨c, hchar, -⟩ := Rust.bind_eq_ok.mp hround
      exact List.forall_mem_cons.mpr ⟨keycodeChar_returns hchar, ih hrest⟩

/-- A report in the tables is typed behind the text that is on the console, and every space of it
flips `RUNNING`. -/
theorem keyboard_spec (dev : AsciiWriter σ) (running : Bool) (hrow : 0 < nRow) (hcol : 0 < nColumn)
    (hholds : console.Holds text) {buf : List UInt8} (h : InTables buf) :
    ∃ console', keyboard dev buf (running, console) =
        .ok (runningAfter running (typed buf), console') ∧
      console'.Holds (text ++ typed buf) := by
  cases buf with
  | nil => exact absurd h id
  | cons modifiers codes => exact keyRounds_spec dev modifiers running hrow hcol hholds h

theorem keyboard_returns {buf : List UInt8} (h : keyboard dev buf state = .ok state') :
    InTables buf := by
  cases buf with
  | nil => cases h
  | cons modifiers codes => exact keyRounds_returns h

end Keyboard

end LemolaOs.Usb.Callbacks
