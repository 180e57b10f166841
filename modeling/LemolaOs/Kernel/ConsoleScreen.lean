import LemolaOs.Kernel.DesktopScreen
import LemolaOs.Kernel.Serial
import LemolaOs.KernelLib.Console.Screen

/-!
# The console in the frame buffer

The console of the kernel draws on the frame buffer, three bytes for each pixel. What is printed
comes from the log, whose records end in a newline, and from the keyboard, whose characters are
followed by a flush. So the console is never left undrawn, and what is in the frame buffer can be
told from the text alone, to the byte (`prints_shown`).

A write of the `PixcelWriter` may panic, where an offset is not a word. Here the screen of a console
is therefore the bytes, or the panic that has ended the drawing.
-/

namespace LemolaOs.Kernel

open Console Graphics Serial Logger Usb.Callbacks

/-- `PixcelWritable::write`, on the bytes of the frame buffer. -/
def drawPixel (g : PixcelWriter) (screen : Rust (Nat → UInt8)) (x y : Nat) (color : Color) :
    Rust (Nat → UInt8) := do
  let bytes ← screen
  match (g.write x y color).ended with
  | none => return applyWrites bytes (g.write x y color).effects
  | some e => throw e

/-- The `dyn AsciiWriter` that `init_graphics` gives to the console. -/
def onFrameBuffer (font : Font) (g : PixcelWriter) : AsciiWriter (Rust (Nat → UInt8)) :=
  ⟨writeAscii font ⟨drawPixel g⟩⟩

/-- What is printed after `init_graphics`. -/
inductive Print where
  | log (r : Record)
  /-- `print_and_flush!`. -/
  | text (s : List Char)

namespace Print

/-- What goes to the console. -/
def chars : Print → List Char
  | .log r => if upToInfo r.level then r.text else []
  | .text s => s

/-- Something goes to the console. -/
def Visible : Print → Prop
  | .log r => upToInfo r.level = true
  | .text _ => True

def run {σ : Type} {nRow nColumn : Nat} (dev : AsciiWriter σ) (out : Outputs σ nRow nColumn) :
    Print → Rust (Outputs σ nRow nColumn)
  | .log r => Serial.log dev out r
  | .text s =>
      match out.console with
      | none => throw (.message "WRITER NOT INITIALIZED")
      | some console => do return { out with console := some (← printAndFlush dev console s) }

end Print

/-- The text area lies on the screen. -/
structure TextFits (g : PixcelWriter) (nRow nColumn : Nat) : Prop where
  width : 8 * nColumn ≤ g.pixcelsPerScanLine
  height : 16 * nRow ≤ g.verticalResolution

/-- A colour byte of a pixel of the text area. -/
def InText (g : PixcelWriter) (nRow nColumn o : Nat) : Prop :=
  ∃ x y k, x < 8 * nColumn ∧ y < 16 * nRow ∧ k < 3 ∧ o = (y * g.pixcelsPerScanLine + x) * 4 + k

/-- The colour that a pixel of the screen has in a glyph. -/
def glyphColor (glyph : Glyph) (x y : Nat) : Color :=
  if glyph[y % 16].toNat.testBit (7 - x % 8) then .white else .black

/-- The frame buffer shows the characters of the console, white on black, and is otherwise as it
was. -/
structure ShowsText {g : PixcelWriter} {σ : Type} {nRow nColumn : Nat} (font : Font)
    (w : Writer σ nRow nColumn) (before after : FrameBuffer g) : Prop where
  glyph : ∀ (x y : Nat) (hx : x < 8 * nColumn) (hy : y < 16 * nRow) (glyph : Glyph),
    font[(w.buffer.cell ⟨y / 16, Nat.div_lt_of_lt_mul hy⟩
      ⟨x / 8, Nat.div_lt_of_lt_mul hx⟩).toNat]? = some glyph →
    after.rgbAt x y = PixcelWriter.colorBytes g.pixcelFormat (glyphColor glyph x y)
  outside : ∀ o, ¬ InText g nRow nColumn o → after.bytes o = before.bytes o

section Draw

variable {σ : Type} {nRow nColumn : Nat} {font : Font} {g : PixcelWriter} {fb : FrameBuffer g}
  {bytes : Nat → UInt8} {writes : List ((Nat × Nat) × Color)}

/-- `write_ascii` on any device. -/
theorem writeAscii_foldl (font : Font) (dev : PixcelWritable σ) (screen : σ) (x y : Nat) (c : Char)
    (bgColor fgColor : Color) :
    writeAscii font dev screen x y c bgColor fgColor =
      (asciiWrites bgColor fgColor x y font c).foldl
        (fun screen write => dev.write screen write.1.1 write.1.2 write.2) screen := by
  rw [writeAscii, asciiWrites]
  cases font[c.toNat]? with
  | none => rfl
  | some glyph =>
      dsimp only
      rw [glyphWrites, List.foldl_flatMap]
      congr 1
      funext screen row
      rw [List.foldl_map]
      congr 1
      funext screen dx
      split <;> rfl

/-- The console on a screen of pixels. -/
def onPixels (w : Writer σ nRow nColumn) : Writer Screen nRow nColumn where
  writer _ := .black
  position := w.position
  backgroundColor := w.backgroundColor
  foregroundColor := w.foregroundColor
  buffer := w.buffer

/-- A flush on any device draws the pixels that it draws on a screen of pixels. -/
theorem flush_foldl (font : Font) (dev : PixcelWritable σ) (w : Writer σ nRow nColumn) :
    (w.flush ⟨writeAscii font dev⟩).writer = ((onPixels w).flushWrites font).foldl
      (fun screen write => dev.write screen write.1.1 write.1.2 write.2) w.writer := by
  rw [Writer.flushWrites, List.foldl_flatMap]
  simp only [Writer.flush]
  congr 1
  funext screen y
  rw [List.foldl_flatMap]
  congr 1
  funext screen x
  exact writeAscii_foldl font dev screen _ _ _ _ _

/-- The bytes of some pixels. -/
def byteWrites (g : PixcelWriter) (writes : List ((Nat × Nat) × Color)) : List (Nat × UInt8) :=
  writes.flatMap fun write =>
    PixcelWriter.bytesAt ((write.1.2 * g.pixcelsPerScanLine + write.1.1) * 4)
      (PixcelWriter.colorBytes g.pixcelFormat write.2)

/-- Drawing whose offsets are words does not panic. -/
theorem foldl_drawPixel (bytes : Nat → UInt8)
    (h : ∀ x y c, ((x, y), c) ∈ writes → (y * g.pixcelsPerScanLine + x) * 4 < usizeSize) :
    writes.foldl (fun screen write => drawPixel g screen write.1.1 write.1.2 write.2) (.ok bytes) =
      .ok (applyWrites bytes (byteWrites g writes)) := by
  induction writes generalizing bytes with
  | nil => rfl
  | cons write writes ih =>
      obtain ⟨⟨x, y⟩, c⟩ := write
      have hdraw : drawPixel g (.ok bytes) x y c =
          .ok (applyWrites bytes (PixcelWriter.bytesAt ((y * g.pixcelsPerScanLine + x) * 4)
            (PixcelWriter.colorBytes g.pixcelFormat c))) := by
        rw [drawPixel, PixcelWriter.write_eq (h x y c List.mem_cons_self)]
        rfl
      rw [List.foldl_cons, hdraw, ih _ fun x y c hc => h x y c (List.mem_cons_of_mem _ hc)]
      congr 1
      exact (applyWrites_append bytes _ _).symm

theorem mem_byteWrites {o : Nat} {b : UInt8} :
    (o, b) ∈ byteWrites g writes ↔ ∃ x y c, ((x, y), c) ∈ writes ∧
      (o, b) ∈ PixcelWriter.bytesAt ((y * g.pixcelsPerScanLine + x) * 4)
        (PixcelWriter.colorBytes g.pixcelFormat c) := by
  simp only [byteWrites, List.mem_flatMap, Prod.exists]

theorem rgbAt_eq {x y : Nat} {c : Color}
    (h : ∀ k b, (PixcelWriter.colorBytes g.pixcelFormat c)[k]? = some b →
      fb.bytes ((y * g.pixcelsPerScanLine + x) * 4 + k) = b) :
    fb.rgbAt x y = PixcelWriter.colorBytes g.pixcelFormat c := by
  refine List.ext_getElem (by simp [FrameBuffer.rgbAt]) fun k hk hk' => ?_
  rw [← h k _ (List.getElem?_eq_getElem hk')]
  simp [FrameBuffer.rgbAt]

variable (font) in
/-- A flush of a console that is white on black. -/
theorem showsText_flush (fits : TextFits g nRow nColumn) (fb : FrameBuffer g)
    {w : Writer (Rust (Nat → UInt8)) nRow nColumn} (hw : w.writer = .ok bytes)
    (hbg : w.backgroundColor = .black) (hfg : w.foregroundColor = .white) :
    ∃ after : FrameBuffer g, (w.flush (onFrameBuffer font g)).writer = .ok after.bytes ∧
      ShowsText font w { fb with bytes := bytes } after := by
  have hcell {x y : Nat} {c : Color} (h : ((x, y), c) ∈ (onPixels w).flushWrites font) :
      x < 8 * nColumn ∧ y < 16 * nRow ∧ x < g.pixcelsPerScanLine ∧ y < g.verticalResolution := by
    obtain ⟨hy, hx, -⟩ := Writer.mem_flushWrites.mp h
    have hwidth := fits.width
    have hheight := fits.height
    omega
  have hbg' : (onPixels w).backgroundColor = .black := hbg
  have hfg' : (onPixels w).foregroundColor = .white := hfg
  have hdraw := foldl_drawPixel (g := g) bytes fun x y c h =>
    PixcelWriter.offset_lt_usizeSize fb (hcell h).2.2.1 (hcell h).2.2.2
  refine ⟨{ fb with bytes := applyWrites bytes (byteWrites g ((onPixels w).flushWrites font)) },
    ?_, ?_, ?_⟩
  · rw [onFrameBuffer, flush_foldl, hw]
    exact hdraw
  · intro x y hx hy glyph hglyph
    have hwidth := fits.width
    have hmem : ((x, y), glyphColor glyph x y) ∈ (onPixels w).flushWrites font := by
      rw [Writer.mem_flushWrites, hfg', hbg']
      exact ⟨Nat.div_lt_of_lt_mul hy, Nat.div_lt_of_lt_mul hx, glyph, hglyph, rfl⟩
    refine rgbAt_eq fun k b hb => applyWrites_of_mem ?_ ?_
    · exact mem_byteWrites.mpr ⟨x, y, _, hmem, PixcelWriter.mem_bytesAt.mpr ⟨k, hb, rfl⟩⟩
    · intro b' hb'
      obtain ⟨x', y', c, hc, hbyte⟩ := mem_byteWrites.mp hb'
      have hk := (List.getElem?_eq_some_iff.mp hb).1
      rw [PixcelWriter.length_colorBytes] at hk
      obtain ⟨rfl, rfl, hb''⟩ := (PixcelWriter.mem_bytesAt_offset (by omega) (hcell hc).2.2.1
        (by omega) (by simp)).mp hbyte
      -- a pixel is drawn once
      rw [Writer.mem_flushWrites, hfg', hbg'] at hc
      obtain ⟨_, _, glyph', hglyph', rfl⟩ := hc
      obtain rfl : glyph = glyph' := Option.some_inj.mp (hglyph.symm.trans hglyph')
      exact Option.some_inj.mp (hb''.symm.trans hb)
  · intro o hout
    refine applyWrites_of_not_mem fun b hb => hout ?_
    obtain ⟨x, y, c, hc, hbyte⟩ := mem_byteWrites.mp hb
    obtain ⟨k, hk, rfl⟩ := PixcelWriter.mem_bytesAt.mp hbyte
    have hlt := (List.getElem?_eq_some_iff.mp hk).1
    rw [PixcelWriter.length_colorBytes] at hlt
    exact ⟨x, y, k, (hcell hc).1, (hcell hc).2.1, hlt, rfl⟩

end Draw

section Prints

variable {nRow nColumn : Nat} {font : Font} {g : PixcelWriter} {fb : FrameBuffer g}
  {w : Writer (Rust (Nat → UInt8)) nRow nColumn} {text : List Char}

/-- The console is white on black, and has drawn in the text area only. -/
structure Confined (fb : FrameBuffer g) (w : Writer (Rust (Nat → UInt8)) nRow nColumn) : Prop where
  background : w.backgroundColor = .black
  foreground : w.foregroundColor = .white
  writer : ∃ after : FrameBuffer g, w.writer = .ok after.bytes ∧
    ∀ o, ¬ InText g nRow nColumn o → after.bytes o = fb.bytes o

/-- The screen shows what the console holds. -/
def Shown (font : Font) (fb : FrameBuffer g) (w : Writer (Rust (Nat → UInt8)) nRow nColumn) :
    Prop :=
  ∃ after : FrameBuffer g, w.writer = .ok after.bytes ∧ ShowsText font w fb after

variable (font) in
theorem Confined.shown (h : Confined fb w) (fits : TextFits g nRow nColumn) :
    Shown font fb (w.flush (onFrameBuffer font g)) := by
  obtain ⟨before, hwriter, houtside⟩ := h.writer
  obtain ⟨after, hflush, hshows⟩ := showsText_flush font fits fb hwriter h.background
    h.foreground
  exact ⟨after, hflush, hshows.glyph, fun o ho => (hshows.outside o ho).trans (houtside o ho)⟩

theorem kept_confined (font : Font) (fb : FrameBuffer g) (fits : TextFits g nRow nColumn) :
    Writer.Kept (onFrameBuffer font g)
      (Confined fb : Writer (Rust (Nat → UInt8)) nRow nColumn → Prop) where
  flush w h := by
    obtain ⟨after, hflush, hshows⟩ := h.shown font fits
    exact ⟨h.background, h.foreground, after, hflush, hshows.outside⟩
  edit _ _ _ h := ⟨h.background, h.foreground, h.writer⟩

/-- The text of a record ends in a newline. -/
theorem text_terminated (r : Record) : ∃ front, r.text = front ++ ['\n'] := by
  rw [Record.text, DecoratedLog.write, DecoratedLog.run, List.foldl_append, List.foldl_cons,
    List.foldl_nil, writer_writeStr, ← List.nil_append ['\n'],
    body_terminated List.not_mem_nil List.not_mem_nil]
  exact ⟨_, rfl⟩

variable (font) in
/-- What one call prints is shown at once. -/
theorem Print.run_spec (hrow : 0 < nRow) (hcol : 0 < nColumn) (fits : TextFits g nRow nColumn)
    (p : Print) (serial : List UInt8) (hholds : w.Holds text) (hconfined : Confined fb w) :
    ∃ serial' w', p.run (onFrameBuffer font g) ⟨serial, some w⟩ = .ok ⟨serial', some w'⟩ ∧
      w'.Holds (text ++ p.chars) ∧ Confined fb w' ∧
      (p.Visible ∨ Shown font fb w → Shown font fb w') := by
  have hkept := kept_confined font fb fits
  cases p with
  | log r =>
      cases hlevel : upToInfo r.level with
      | true =>
          obtain ⟨w', hput, hholds'⟩ :=
            hholds.exists_putString (d := onFrameBuffer font g) hrow hcol r.text
          obtain ⟨front, htext⟩ := text_terminated r
          obtain ⟨v, hv, rfl⟩ := hkept.putString_newline hconfined (htext ▸ hput)
          refine ⟨serial ++ serialBytes r.text, _, ?_, ?_, hkept.flush v hv,
            fun _ => hv.shown font fits⟩
          · simp only [Print.run, Serial.log, hlevel, if_true, Writer.writeStr, hput, Rust.ok_bind]
            rfl
          · rwa [Print.chars, if_pos hlevel]
      | false =>
          refine ⟨serial ++ serialBytes r.text, w, ?_, ?_, hconfined, fun h => ?_⟩
          · simp only [Print.run, Serial.log, hlevel]
            rfl
          · rwa [Print.chars, if_neg (by rw [hlevel]; exact Bool.false_ne_true), List.append_nil]
          · exact h.resolve_left fun hvisible => Bool.false_ne_true (hlevel.symm.trans hvisible)
  | text s =>
      obtain ⟨w', hput, hholds'⟩ :=
        hholds.exists_putString (d := onFrameBuffer font g) hrow hcol s
      have hw' := hkept.putString hconfined hput
      refine ⟨serial, w'.flush _, ?_, hholds'.flush, hkept.flush w' hw',
        fun _ => hw'.shown font fits⟩
      simp only [Print.run, printAndFlush, Writer.writeStr, hput, Rust.ok_bind]
      rfl

variable (font) in
theorem Print.runs_spec (hrow : 0 < nRow) (hcol : 0 < nColumn) (fits : TextFits g nRow nColumn)
    (prints : List Print) (serial : List UInt8) (hholds : w.Holds text)
    (hconfined : Confined fb w) :
    ∃ serial' w', prints.foldlM (Print.run (onFrameBuffer font g)) ⟨serial, some w⟩ =
        .ok ⟨serial', some w'⟩ ∧
      w'.Holds (text ++ prints.flatMap Print.chars) ∧
      ((∃ p ∈ prints, p.Visible) ∨ Shown font fb w → Shown font fb w') := by
  induction prints generalizing serial w text with
  | nil =>
      refine ⟨serial, w, rfl, by rwa [List.flatMap_nil, List.append_nil], ?_⟩
      rintro (⟨p, hp, -⟩ | h)
      · exact absurd hp List.not_mem_nil
      · exact h
  | cons p prints ih =>
      obtain ⟨serial₁, w₁, hrun, hholds₁, hconfined₁, hshown₁⟩ :=
        p.run_spec font hrow hcol fits serial hholds hconfined
      obtain ⟨serial', w', hruns, hholds', hshown'⟩ := ih serial₁ hholds₁ hconfined₁
      refine ⟨serial', w', ?_, ?_, fun h => hshown' ?_⟩
      · rw [List.foldlM_cons, hrun]
        exact hruns
      · rwa [List.flatMap_cons, ← List.append_assoc]
      · obtain ⟨q, hq, hvisible⟩ | h := h
        · obtain rfl | hq := List.mem_cons.mp hq
          · exact .inr (hshown₁ (.inl hvisible))
          · exact .inl ⟨q, hq, hvisible⟩
        · exact .inr (hshown₁ (.inr h))

/-- From the log and the keyboard to the bytes of the frame buffer: as soon as anything was printed,
every pixel of the text area is as the glyph of its character has it, in the format of the frame
buffer, and no other byte was touched. No write panics. -/
theorem prints_shown (nRow nColumn : Nat) (hrow : 0 < nRow) (hcol : 0 < nColumn) (font : Font)
    {g : PixcelWriter} (fb : FrameBuffer g) (fits : TextFits g nRow nColumn) (prints : List Print)
    (hvisible : ∃ p ∈ prints, p.Visible) :
    ∃ (serial : List UInt8) (console : Writer (Rust (Nat → UInt8)) nRow nColumn)
        (after : FrameBuffer g),
      prints.foldlM (Print.run (onFrameBuffer font g))
          (Outputs.initGraphics ⟨[], none⟩ (.ok fb.bytes)) = .ok ⟨serial, some console⟩ ∧
      console.writer = .ok after.bytes ∧
      console.Holds (prints.flatMap Print.chars) ∧ ShowsText font console fb after := by
  obtain ⟨serial, console, hruns, hholds, hshown⟩ := Print.runs_spec font hrow hcol fits
    prints [] (.new (.ok fb.bytes)) ⟨rfl, rfl, fb, rfl, fun _ _ => rfl⟩
  obtain ⟨after, hwriter, hshows⟩ := hshown (.inl hvisible)
  exact ⟨serial, console, after, hruns, hwriter, hholds, hshows⟩

/-- A letter on a screen of 800 by 600 pixels, with a font of vertical bars. -/
theorem prints_shown_letter :
    ∃ (serial : List UInt8) (console : Writer (Rust (Nat → UInt8)) 25 80)
        (after : FrameBuffer svga),
      [Print.log ⟨.debug, ["tick".toList], none, none⟩, .text ['A']].foldlM
          (Print.run (onFrameBuffer (.replicate 256 (.replicate 16 0x80)) svga))
          (Outputs.initGraphics ⟨[], none⟩ (.ok svgaBuffer.bytes)) = .ok ⟨serial, some console⟩ ∧
      console.writer = .ok after.bytes ∧ console.Holds ['A'] ∧
      ShowsText (.replicate 256 (.replicate 16 0x80)) console svgaBuffer after :=
  prints_shown 25 80 (by decide) (by decide) _ svgaBuffer ⟨by decide, by decide⟩ _
    ⟨.text ['A'], by simp, trivial⟩

end Prints

end LemolaOs.Kernel
