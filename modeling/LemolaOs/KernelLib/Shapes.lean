import LemolaOs.KernelLib.Painting

/-!
# Shapes

`kernel-lib/src/shapes.rs` and `fill_shape` of `kernel-lib/src/render.rs`. A shape is a table of
pixels, one row after another, and the shape of the mouse cursor is decoded from strings when the
kernel is compiled.

`decode_eq` is the decoder as a table of characters, and `paint_fillShape` what drawing a shape
on a window of the same size leaves there: the shape, pixel by pixel, whatever was there before.
-/

namespace LemolaOs.Graphics

/-- The trait `Shape`. -/
structure Shape where
  width : Nat
  height : Nat
  getPixel : (x y : Nat) → Rust Color

/-- `self[y][x]`. -/
def pixelOfRows {α : Type} {W H : Nat} (rows : Vector (Vector α W) H) (x y : Nat) : Option α :=
  rows[y]?.bind fun row => row[x]?

/-- `impl Shape for [[T; W]; H]`, with the conversion of `T` into a colour. -/
def Shape.ofRows {α : Type} {W H : Nat} (color : α → Color) (rows : Vector (Vector α W) H) :
    Shape where
  width := W
  height := H
  getPixel x y :=
    match pixelOfRows rows x y with
    | some pixel => .ok (color pixel)
    | none => .error .outOfRange

namespace Renderer

/-- One call of `write`. -/
def shapePixel (pos : Vector2D) (shape : Shape) (x y : Nat) : Strokes :=
  .need (usizeAdd pos.x x) fun px =>
    .need (usizeAdd pos.y y) fun py =>
      .need (shape.getPixel x y) fun color => .emit [((px, py), color)]

def fillShape (pos : Vector2D) (shape : Shape) : Strokes :=
  .forEach (.range shape.height) fun y =>
    .forEach (.range shape.width) fun x => shapePixel pos shape x y

end Renderer

namespace MouseCursor

inductive MouseCursorPixel where
  | backGround
  | frame
  | cursor
  deriving DecidableEq, Repr

/-- `impl From<MouseCursorPixel> for Color`. -/
def MouseCursorPixel.color : MouseCursorPixel → Color
  | .backGround => ⟨173, 216, 230⟩ -- light blue
  | .frame => ⟨0, 0, 0⟩ -- black
  | .cursor => ⟨255, 255, 255⟩ -- white

/-- `to`. -/
def pixelOfChar (c : Char) : Rust MouseCursorPixel :=
  match c with
  | ' ' => .ok .backGround
  | '@' => .ok .frame
  | '.' => .ok .cursor
  | _ => .error (.message "Unexpected")

/-- One round of the loop in `decode`. -/
def decodeRound (strings : List Char) (buf : List MouseCursorPixel) (idx : Nat) :
    Rust (List MouseCursorPixel) :=
  match strings[idx]? with
  | none => .error .outOfRange
  | some c => do
    let pixel ← pixelOfChar c
    if idx < buf.length then return buf.set idx pixel else throw .outOfRange

/-- `decode::<LEN>`, on ASCII. The loop asks whether it is done behind a round, so there is a
first one for `LEN = 0` too, and its index is out of range. -/
def decode (len : Nat) (strings : List Char) : Rust (List MouseCursorPixel) :=
  (List.range (max len 1)).foldlM (decodeRound strings) (.replicate len .backGround)

def mouseCursorWidth : Nat := 15

def mouseCursorHeight : Nat := 24

/-- `arraify!`. Strings of a wrong number or of a wrong length do not compile. -/
def arraify (W H : Nat) (strings : List String) :
    Option (Vector (Vector MouseCursorPixel W) H) :=
  match strings.mapM fun s => decode s.length s.toList with
  | .error _ => none
  | .ok rows =>
    if hrows : rows.length = H ∧ ∀ row ∈ rows, row.length = W then
      some ⟨(rows.attach.map fun row => (⟨row.1.toArray, by simpa using hrows.2 row.1 row.2⟩ :
        Vector MouseCursorPixel W)).toArray, by simpa using hrows.1⟩
    else none

/-- The strings of `MOUSE_CURSOR_SHAPE`. -/
def mouseCursorStrings : List String :=
  ["@              ",
   "@@             ",
   "@.@            ",
   "@..@           ",
   "@...@          ",
   "@....@         ",
   "@.....@        ",
   "@......@       ",
   "@.......@      ",
   "@........@     ",
   "@.........@    ",
   "@..........@   ",
   "@...........@  ",
   "@............@ ",
   "@......@@@@@@@@",
   "@......@       ",
   "@....@@.@      ",
   "@...@ @.@      ",
   "@..@   @.@     ",
   "@.@    @.@     ",
   "@@      @.@    ",
   "@       @.@    ",
   "         @.@   ",
   "         @@@   "]

/-- `MOUSE_CURSOR_SHAPE`. -/
def mouseCursorShape : Vector (Vector MouseCursorPixel mouseCursorWidth) mouseCursorHeight :=
  (arraify mouseCursorWidth mouseCursorHeight mouseCursorStrings).get (by decide +kernel)

end MouseCursor

section Shapes

variable {α : Type} {W H : Nat} {color : α → Color} {rows : Vector (Vector α W) H}
  {pos : Vector2D} {x y px py : Nat} {c : Color}

theorem pixelOfRows_eq_some (hx : x < W) (hy : y < H) :
    pixelOfRows rows x y = some rows[y][x] := by
  rw [pixelOfRows, Vector.getElem?_eq_getElem hy, Option.bind_some, Vector.getElem?_eq_getElem hx]

theorem lt_of_pixelOfRows {pixel : α} (h : pixelOfRows rows x y = some pixel) : x < W ∧ y < H := by
  obtain ⟨row, hrow, hpixel⟩ := Option.bind_eq_some_iff.mp h
  obtain ⟨hy, rfl⟩ := Vector.getElem?_eq_some_iff.mp hrow
  obtain ⟨hx, -⟩ := Vector.getElem?_eq_some_iff.mp hpixel
  exact ⟨hx, hy⟩

/-- What `fill_shape` writes. -/
def shapeWrites (color : α → Color) (rows : Vector (Vector α W) H) (pos : Vector2D) :
    List ((Nat × Nat) × Color) :=
  (List.range H).flatMap fun y => (List.range W).flatMap fun x =>
    (pixelOfRows rows x y).toList.map fun pixel => ((pos.x + x, pos.y + y), color pixel)

theorem mem_shapeWrites : ((px, py), c) ∈ shapeWrites color rows pos ↔
    ∃ x y pixel, pixelOfRows rows x y = some pixel ∧ px = pos.x + x ∧ py = pos.y + y ∧
      c = color pixel := by
  simp only [shapeWrites, List.mem_flatMap, List.mem_range, List.mem_map, Option.mem_toList,
    Prod.mk.injEq]
  constructor
  · rintro ⟨y, -, x, -, pixel, hpixel, ⟨rfl, rfl⟩, rfl⟩
    exact ⟨x, y, pixel, hpixel, rfl, rfl, rfl⟩
  · rintro ⟨x, y, pixel, hpixel, rfl, rfl, rfl⟩
    obtain ⟨hx, hy⟩ := lt_of_pixelOfRows hpixel
    exact ⟨y, hy, x, hx, pixel, hpixel, ⟨rfl, rfl⟩, rfl⟩

theorem fillShape_eq (hx : pos.x + W ≤ usizeSize) (hy : pos.y + H ≤ usizeSize) :
    Renderer.fillShape pos (.ofRows color rows) = .emit (shapeWrites color rows pos) := by
  rw [Renderer.fillShape, shapeWrites, ← Emit.forEach_emit]
  refine Emit.forEach_congr fun y hymem => ?_
  rw [← Emit.forEach_emit]
  refine Emit.forEach_congr fun x hxmem => ?_
  have hy' : y < H := List.mem_range.mp hymem
  have hx' : x < W := List.mem_range.mp hxmem
  rw [Renderer.shapePixel, Renderer.usizeAdd_of_lt (by omega), Renderer.usizeAdd_of_lt (by omega)]
  simp only [Emit.need_ok, Shape.ofRows, pixelOfRows_eq_some hx' hy']
  rfl

/-- A window of the size of the shape shows the shape, whatever was on it before. -/
theorem paint_fillShape {w : Window} (hwidth : w.width = W) (hrows : w.rows = H)
    (hW : W ≤ usizeSize) (hH : H ≤ usizeSize) :
    ∃ w', w.paint (Renderer.fillShape ⟨0, 0⟩ (.ofRows color rows)) = .ok w' ∧ w.SameFrame w' ∧
      ∀ x y (hx : x < W) (hy : y < H), w'.picture (x, y) = color rows[y][x] := by
  have hwrites : Renderer.fillShape ⟨0, 0⟩ (.ofRows color rows) =
      .emit (shapeWrites color rows ⟨0, 0⟩) :=
    fillShape_eq (by dsimp only; omega) (by dsimp only; omega)
  obtain ⟨w', hpaint, hframe, hpicture⟩ := @Window.paint_spec w
    (Renderer.fillShape ⟨0, 0⟩ (.ofRows color rows)) (by rw [hwrites]; rfl) fun px py c hc => by
      rw [hwrites] at hc
      obtain ⟨x, y, pixel, hpixel, rfl, rfl, -⟩ := mem_shapeWrites.mp hc
      obtain ⟨hx, hy⟩ := lt_of_pixelOfRows hpixel
      dsimp only
      omega
  refine ⟨w', hpaint, hframe, fun x y hx hy => ?_⟩
  rw [hpicture, hwrites]
  refine applyWrites_of_mem (mem_shapeWrites.mpr
    ⟨x, y, rows[y][x], pixelOfRows_eq_some hx hy, by simp, by simp, rfl⟩) fun c hc => ?_
  obtain ⟨x', y', pixel, hpixel, hx', hy', rfl⟩ := mem_shapeWrites.mp hc
  obtain rfl : x = x' := by simpa using hx'
  obtain rfl : y = y' := by simpa using hy'
  rw [pixelOfRows_eq_some hx hy, Option.some_inj] at hpixel
  rw [hpixel]

end Shapes

namespace MouseCursor

variable {strings : List Char} {buf pixels : List MouseCursorPixel} {len idx : Nat}

theorem decodeRound_eq_ok (h : decodeRound strings buf idx = .ok pixels) :
    ∃ c pixel, strings[idx]? = some c ∧ pixelOfChar c = .ok pixel ∧ idx < buf.length ∧
      pixels = buf.set idx pixel := by
  rw [decodeRound] at h
  split at h
  · cases h
  next c hc =>
    obtain ⟨pixel, hpixel, h⟩ := Rust.bind_eq_ok.mp h
    split at h
    next hlt =>
      cases h
      exact ⟨c, pixel, hc, hpixel, hlt, rfl⟩
    next => cases h

/-- After `n` rounds the first `n` pixels are decoded. -/
theorem decodeRounds_spec (n : Nat)
    (h : (List.range n).foldlM (decodeRound strings) buf = .ok pixels) :
    pixels.length = buf.length ∧ ∀ i < n, ∃ c pixel, strings[i]? = some c ∧
      pixelOfChar c = .ok pixel ∧ pixels[i]? = some pixel := by
  induction n generalizing pixels with
  | zero =>
      cases h
      exact ⟨rfl, fun i hi => absurd hi (Nat.not_lt_zero i)⟩
  | succ n ih =>
      rw [List.range_succ, List.foldlM_append] at h
      obtain ⟨decoded, hdecoded, h⟩ := Rust.bind_eq_ok.mp h
      rw [List.foldlM_cons] at h
      obtain ⟨next, hround, h⟩ := Rust.bind_eq_ok.mp h
      cases h
      obtain ⟨hlength, hprefix⟩ := ih hdecoded
      obtain ⟨c, pixel, hc, hpixel, hlt, rfl⟩ := decodeRound_eq_ok hround
      refine ⟨by rw [List.length_set, hlength], fun i hi => ?_⟩
      by_cases heq : n = i
      · subst heq
        exact ⟨c, pixel, hc, hpixel, List.getElem?_set_self hlt⟩
      · obtain ⟨c', pixel', hc', hpixel', hget⟩ := hprefix i (by omega)
        exact ⟨c', pixel', hc', hpixel', by rwa [List.getElem?_set_ne heq]⟩

/-- The decoder turns every character into its pixel. -/
theorem decode_spec (h : decode len strings = .ok pixels) :
    pixels.length = len ∧ ∀ i < len, ∃ c pixel, strings[i]? = some c ∧
      pixelOfChar c = .ok pixel ∧ pixels[i]? = some pixel := by
  obtain ⟨hlength, hpixels⟩ := decodeRounds_spec _ h
  exact ⟨by rw [hlength, List.length_replicate], fun i hi => hpixels i (by omega)⟩

/-- The character in column `x` of string `y`. -/
def charAt (strings : List String) (x y : Nat) : Option Char :=
  strings[y]?.bind fun s => s.toList[x]?

theorem arraify_spec {W H : Nat} {strings : List String}
    {rows : Vector (Vector MouseCursorPixel W) H} (h : arraify W H strings = some rows) {x y : Nat}
    (hx : x < W) (hy : y < H) :
    ∃ c, charAt strings x y = some c ∧ pixelOfChar c = .ok rows[y][x] := by
  unfold arraify at h
  split at h
  · cases h
  next decoded hdecoded =>
    split at h
    next hrows =>
      cases h
      have hlen : y < decoded.length := hrows.1 ▸ hy
      have hrow := Rust.forall₂_of_mapM hdecoded
      have hstrings : y < strings.length := hrow.length_eq ▸ hlen
      obtain ⟨-, hpixels⟩ := decode_spec (hrow.get hstrings hlen)
      have hlength : decoded[y].length = W := hrows.2 _ (List.getElem_mem hlen)
      obtain ⟨c, pixel, hc, hpixel, hget⟩ := hpixels x (by
        rw [← (decode_spec (hrow.get hstrings hlen)).1]
        exact hlength ▸ hx)
      refine ⟨c, ?_, ?_⟩
      · rw [charAt, List.getElem?_eq_getElem hstrings, Option.bind_some]
        exact hc
      · obtain ⟨_, rfl⟩ := List.getElem?_eq_some_iff.mp hget
        rw [hpixel]
        simp
    next => cases h

/-- The cursor has the pixels of its strings. -/
theorem mouseCursorShape_spec {x y : Nat} (hx : x < mouseCursorWidth) (hy : y < mouseCursorHeight) :
    ∃ c, charAt mouseCursorStrings x y = some c ∧ pixelOfChar c = .ok mouseCursorShape[y][x] :=
  arraify_spec (Option.some_get _).symm hx hy

end MouseCursor

end LemolaOs.Graphics
