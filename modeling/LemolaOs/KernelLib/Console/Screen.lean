import LemolaOs.KernelLib.Console.Writer
import LemolaOs.Library.Writes
import Mathlib.Data.Nat.Bitwise

/-!
# What a console shows on the screen

`write_ascii` draws a character of the console as the 8 by 16 pixels of its glyph, and
`flush` draws every cell of the buffer. The font is a table of 256 glyphs that the
macro `gen_font!` makes; a character beyond the table is not drawn at all, and what
was on the screen stays.

`flush_pixel` says what each pixel is after a flush. `showsBuffer_iff` draws the
conclusion: the screen shows the buffer and nothing else exactly if every character
of the buffer has a glyph.
-/

namespace LemolaOs.Console

/-- `[u8; 16]`, a row of eight pixels each. -/
abbrev Glyph := Vector UInt8 16

/-- `FONT`. -/
abbrev Font := Vector Glyph 256

/-- The trait `PixcelWritable`: what one `write` call does. -/
structure PixcelWritable (σ : Type) where
  write : σ → (x y : Nat) → Color → σ

/-- `font & (1 << (7 - dx)) != 0`. -/
def bitIsSet (row : UInt8) (dx : Nat) : Bool := row &&& (1 <<< UInt8.ofNat (7 - dx)) != 0

/-- `AsciiWriter::write_ascii`. -/
def writeAscii {σ : Type} (font : Font) (dev : PixcelWritable σ) (screen : σ) (x y : Nat) (c : Char)
    (bgColor fgColor : Color) : σ :=
  match font[c.toNat]? with
  | none => screen
  | some glyph =>
    glyph.toList.zipIdx.foldl (fun screen (row, dy) =>
      (List.range 8).foldl (fun screen dx =>
        if bitIsSet row dx then dev.write screen (x + dx) (y + dy) fgColor
        else dev.write screen (x + dx) (y + dy) bgColor) screen) screen

/-- The colour of every pixel. -/
abbrev Screen := Nat × Nat → Color

/-- Writing a pixel. -/
def pixels : PixcelWritable Screen := ⟨fun screen x y color => Function.update screen (x, y) color⟩

/-- Drawing characters on a screen of pixels. -/
def onScreen (font : Font) : AsciiWriter Screen := ⟨writeAscii font pixels⟩

/-- The leftmost pixel of a row is its highest bit. -/
theorem bitIsSet_eq_testBit (row : UInt8) {dx : Nat} (hdx : dx < 8) :
    bitIsSet row dx = row.toNat.testBit (7 - dx) := by
  have hmask : ((1 : UInt8) <<< UInt8.ofNat (7 - dx)).toNat = 2 ^ (7 - dx) := by
    have hlt : 2 ^ (7 - dx) < 2 ^ 8 := Nat.pow_lt_pow_right (by decide) (by omega)
    rw [UInt8.toNat_shiftLeft, UInt8.toNat_ofNat', UInt8.toNat_one, Nat.one_shiftLeft,
      Nat.mod_eq_of_lt (by omega : 7 - dx < 2 ^ 8), Nat.mod_eq_of_lt (by omega : 7 - dx < 8),
      Nat.mod_eq_of_lt hlt]
  have hpos : 0 < 2 ^ (7 - dx) := Nat.two_pow_pos _
  rw [Bool.eq_iff_iff, bitIsSet, bne_iff_ne, ne_eq, ← UInt8.toNat_inj, UInt8.toNat_and, hmask,
    Nat.and_two_pow]
  cases row.toNat.testBit (7 - dx) with
  | false => simp
  | true => simp

section writes

variable (bgColor fgColor : Color) (x y : Nat)

/-- The pixels of a glyph in the order in which they are drawn. -/
def glyphWrites (glyph : Glyph) : List ((Nat × Nat) × Color) :=
  glyph.toList.zipIdx.flatMap fun p => (List.range 8).map fun dx =>
    ((x + dx, y + p.2), if bitIsSet p.1 dx then fgColor else bgColor)

/-- The pixels of a character. -/
def asciiWrites (font : Font) (c : Char) : List ((Nat × Nat) × Color) :=
  match font[c.toNat]? with
  | none => []
  | some glyph => glyphWrites bgColor fgColor x y glyph

theorem writeAscii_eq (font : Font) (screen : Screen) (c : Char) :
    writeAscii font pixels screen x y c bgColor fgColor =
      applyWrites screen (asciiWrites bgColor fgColor x y font c) := by
  rw [writeAscii, asciiWrites]
  cases font[c.toNat]? with
  | none => rfl
  | some glyph =>
      dsimp only
      rw [glyphWrites, ← applyWrites_flatMap]
      congr 1
      funext screen ⟨row, dy⟩
      rw [applyWrites, List.foldl_map]
      congr 1
      funext screen dx
      split <;> rfl

variable {bgColor fgColor x y}

theorem mem_glyphWrites {glyph : Glyph} {px py : Nat} {color : Color} :
    ((px, py), color) ∈ glyphWrites bgColor fgColor x y glyph ↔
      ∃ dx < 8, ∃ (dy : Nat) (hdy : dy < 16), px = x + dx ∧ py = y + dy ∧
        color = if glyph[dy].toNat.testBit (7 - dx) then fgColor else bgColor := by
  simp only [glyphWrites, List.mem_flatMap, List.mem_map, List.mem_range, Prod.exists,
    List.mem_zipIdx_iff_getElem?, Prod.mk.injEq]
  constructor
  · rintro ⟨row, dy, hrow, dx, hdx, ⟨rfl, rfl⟩, rfl⟩
    obtain ⟨hdy, rfl⟩ := List.getElem?_eq_some_iff.mp hrow
    rw [Vector.length_toList] at hdy
    refine ⟨dx, hdx, dy, hdy, rfl, rfl, ?_⟩
    rw [bitIsSet_eq_testBit _ hdx, Vector.getElem_toList]
  · rintro ⟨dx, hdx, dy, hdy, rfl, rfl, rfl⟩
    refine ⟨glyph[dy], dy, ?_, dx, hdx, ⟨rfl, rfl⟩, ?_⟩
    · rw [List.getElem?_eq_getElem (by rwa [Vector.length_toList]), Vector.getElem_toList]
    · rw [bitIsSet_eq_testBit _ hdx]

end writes

namespace Writer

variable {nRow nColumn : Nat}

/-- The pixels of the whole buffer in the order in which they are drawn. -/
def flushWrites (font : Font) (w : Writer Screen nRow nColumn) : List ((Nat × Nat) × Color) :=
  (List.finRange nRow).flatMap fun (y : Fin nRow) =>
    (List.finRange nColumn).flatMap fun (x : Fin nColumn) =>
      asciiWrites w.backgroundColor w.foregroundColor (x * 8) (y * 16) font (w.buffer.cell y x)

theorem flush_writer (font : Font) (w : Writer Screen nRow nColumn) :
    (w.flush (onScreen font)).writer = applyWrites w.writer (w.flushWrites font) := by
  rw [flushWrites, ← applyWrites_flatMap]
  simp only [flush]
  congr 1
  funext screen y
  rw [← applyWrites_flatMap]
  congr 1
  funext screen x
  exact writeAscii_eq _ _ _ _ font screen _

/-- A pixel belongs to one cell. -/
theorem mem_flushWrites {font : Font} {w : Writer Screen nRow nColumn} {px py : Nat}
    {color : Color} :
    ((px, py), color) ∈ w.flushWrites font ↔
      ∃ (hy : py / 16 < nRow) (hx : px / 8 < nColumn) (glyph : Glyph),
        font[(w.buffer.cell ⟨py / 16, hy⟩ ⟨px / 8, hx⟩).toNat]? = some glyph ∧
        color = if glyph[py % 16].toNat.testBit (7 - px % 8) then w.foregroundColor
          else w.backgroundColor := by
  simp only [flushWrites, List.mem_flatMap, List.mem_finRange, true_and, asciiWrites]
  constructor
  · rintro ⟨i, j, h⟩
    split at h
    · simp at h
    · rename_i glyph hglyph
      obtain ⟨dx, hdx, dy, hdy, rfl, rfl, rfl⟩ := mem_glyphWrites.mp h
      have hi : (i.val * 16 + dy) / 16 = i.val := by omega
      have hj : (j.val * 8 + dx) / 8 = j.val := by omega
      have hmodi : (i.val * 16 + dy) % 16 = dy := by omega
      have hmodj : (j.val * 8 + dx) % 8 = dx := by omega
      simp only [hi, hj, hmodi, hmodj]
      exact ⟨i.isLt, j.isLt, glyph, hglyph, rfl⟩
  · rintro ⟨hy, hx, glyph, hglyph, rfl⟩
    refine ⟨⟨py / 16, hy⟩, ⟨px / 8, hx⟩, ?_⟩
    rw [hglyph]
    exact mem_glyphWrites.mpr ⟨px % 8, by omega, py % 16, by omega, by dsimp only; omega,
      by dsimp only; omega, rfl⟩

variable {font : Font} {w : Writer Screen nRow nColumn} {px py : Nat}

/-- A pixel of a cell whose character has a glyph. -/
theorem flush_pixel_of_glyph (hy : py / 16 < nRow) (hx : px / 8 < nColumn) {glyph : Glyph}
    (hglyph : font[(w.buffer.cell ⟨py / 16, hy⟩ ⟨px / 8, hx⟩).toNat]? = some glyph) :
    (w.flush (onScreen font)).writer (px, py) =
      if glyph[py % 16].toNat.testBit (7 - px % 8) then w.foregroundColor
      else w.backgroundColor := by
  rw [flush_writer]
  refine applyWrites_of_mem (mem_flushWrites.mpr ⟨hy, hx, glyph, hglyph, rfl⟩) ?_
  intro color hmem
  obtain ⟨_, _, glyph', hglyph', rfl⟩ := mem_flushWrites.mp hmem
  rw [hglyph, Option.some.injEq] at hglyph'
  rw [hglyph']

/-- Every other pixel is left alone. -/
theorem flush_pixel_of_none
    (h : ∀ (hy : py / 16 < nRow) (hx : px / 8 < nColumn),
      font[(w.buffer.cell ⟨py / 16, hy⟩ ⟨px / 8, hx⟩).toNat]? = none) :
    (w.flush (onScreen font)).writer (px, py) = w.writer (px, py) := by
  rw [flush_writer]
  refine applyWrites_of_not_mem fun color hmem => ?_
  obtain ⟨hy, hx, glyph, hglyph, _⟩ := mem_flushWrites.mp hmem
  rw [h hy hx] at hglyph
  cases hglyph

/-- After a flush the text area shows the buffer and nothing else. -/
structure ShowsBuffer (font : Font) (w : Writer Screen nRow nColumn) : Prop where
  /-- A pixel of the text area depends on its cell and the two colours only: a console with
  another screen behind it, and other characters elsewhere, shows the same there. -/
  determined : ∀ (v : Writer Screen nRow nColumn) (px py : Nat) (hx : px < 8 * nColumn)
    (hy : py < 16 * nRow),
    v.buffer.cell ⟨py / 16, Nat.div_lt_of_lt_mul hy⟩ ⟨px / 8, Nat.div_lt_of_lt_mul hx⟩ =
      w.buffer.cell ⟨py / 16, Nat.div_lt_of_lt_mul hy⟩ ⟨px / 8, Nat.div_lt_of_lt_mul hx⟩ →
    v.backgroundColor = w.backgroundColor → v.foregroundColor = w.foregroundColor →
    (v.flush (onScreen font)).writer (px, py) = (w.flush (onScreen font)).writer (px, py)
  glyph : ∀ (px py : Nat) (hx : px < 8 * nColumn) (hy : py < 16 * nRow) (glyph : Glyph),
    font[(w.buffer.cell ⟨py / 16, Nat.div_lt_of_lt_mul hy⟩
      ⟨px / 8, Nat.div_lt_of_lt_mul hx⟩).toNat]? = some glyph →
    (w.flush (onScreen font)).writer (px, py) =
      if glyph[py % 16].toNat.testBit (7 - px % 8) then w.foregroundColor else w.backgroundColor
  /-- No pixel outside the text area is written. -/
  outside : ∀ (screen : Screen) (px py : Nat), ¬ (px < 8 * nColumn ∧ py < 16 * nRow) →
    (({ w with writer := screen } : Writer Screen nRow nColumn).flush (onScreen font)).writer
      (px, py) = screen (px, py)

/-- Where a character is not drawn, whatever was there before is still on the screen. -/
theorem ShowsBuffer.lt (h : w.ShowsBuffer font) (i : Fin nRow) (j : Fin nColumn) :
    (w.buffer.cell i j).toNat < 256 := by
  by_contra hlarge
  have hi : i.val * 16 / 16 = i.val := Nat.mul_div_cancel _ (by decide)
  have hj : j.val * 8 / 8 = j.val := Nat.mul_div_cancel _ (by decide)
  have hkept : ∀ screen : Screen, (({ w with writer := screen } : Writer Screen nRow nColumn).flush
      (onScreen font)).writer (j * 8, i * 16) = screen (j * 8, i * 16) := by
    intro screen
    refine flush_pixel_of_none fun _ _ => ?_
    simp only [hi, hj]
    exact Vector.getElem?_eq_none (Nat.le_of_not_lt hlarge)
  have hsame := fun screen => h.determined { w with writer := screen } (j * 8) (i * 16) (by omega)
    (by omega) rfl rfl rfl
  have hblack := (hkept fun _ => Color.black).symm.trans (hsame _)
  have hwhite := (hkept fun _ => Color.white).symm.trans (hsame _)
  exact absurd (hblack.trans hwhite.symm) (by decide)

/-- The screen shows the buffer if and only if every character of it has a glyph. -/
theorem showsBuffer_iff (font : Font) (w : Writer Screen nRow nColumn) :
    w.ShowsBuffer font ↔ ∀ i j, (w.buffer.cell i j).toNat < 256 := by
  constructor
  · exact fun h => h.lt
  · intro h
    have hdraws : ∀ i j, ∃ glyph, font[(w.buffer.cell i j).toNat]? = some glyph := fun i j =>
      ⟨_, Vector.getElem?_eq_getElem (h i j)⟩
    refine ⟨?_, fun px py hx hy glyph => flush_pixel_of_glyph _ _, ?_⟩
    · intro v px py hx hy hcell hbg hfg
      obtain ⟨glyph, hglyph⟩ := hdraws ⟨py / 16, Nat.div_lt_of_lt_mul hy⟩
        ⟨px / 8, Nat.div_lt_of_lt_mul hx⟩
      rw [flush_pixel_of_glyph _ _ hglyph, flush_pixel_of_glyph _ _ (hcell ▸ hglyph), hbg, hfg]
    · intro screen px py hout
      refine flush_pixel_of_none fun hy hx => ?_
      exact absurd ⟨by omega, by omega⟩ hout

/-- A console of one cell with a character that no font of 256 glyphs has. -/
theorem unicode_not_shown : ¬ ∃ (font : Font) (w : Writer Screen 1 1),
    (new fun _ => Color.green).writeStr (onScreen font) ['\u3042'] = .ok w ∧
      w.ShowsBuffer font := by
  rintro ⟨font, w, hw, hshows⟩
  have hcell : (new fun _ => Color.green : Writer Screen 1 1).writeStr (onScreen font) ['\u3042'] =
      .ok ⟨fun _ => Color.green, ⟨1, 0⟩, Color.black, Color.white, #v[#v['\u3042']]⟩ := rfl
  obtain rfl := Except.ok.inj (hcell.symm.trans hw)
  exact absurd (hshows.lt 0 0) (by decide)

end Writer

end LemolaOs.Console
