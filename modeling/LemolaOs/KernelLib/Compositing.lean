import LemolaOs.KernelLib.LayerStack
import LemolaOs.Library.Writes

/-!
# What the screen shows after a flush

The window keeps its picture twice: `pixels`, a colour per pixel, and `buffer`, the
rendered bytes that the row-copy path copies. `Window.Drawn` are the windows that
`Window::new`, `Window::write` and the two moves produce; on these the colour bytes
of an opaque window's buffer are those of its pixels (`Drawn.mirrored`).

`LayerManager.topColor` says what a screen position should show: the colour of the
last layer of the stack that has a non-transparent pixel there. `Composites` is the
statement that the frame buffer shows exactly that after a flush.
-/

namespace LemolaOs.Graphics

/-- The memory behind `frame_buffer_base()`, by offset. The geometry is held in
words, and the whole frame buffer is one object of the address space. -/
structure FrameBuffer (g : PixcelWriter) where
  bytes : Nat → UInt8
  scanLine_lt : g.pixcelsPerScanLine < usizeSize
  horizontal_lt : g.horizontalResolution < usizeSize
  vertical_lt : g.verticalResolution < usizeSize
  len_lt : g.frameBufferLen < usizeSize

/-- Column and row of a pixel are determined by its number. -/
theorem pixel_inj {stride x y x' y' : Nat} (hx : x < stride) (hx' : x' < stride)
    (h : y * stride + x = y' * stride + x') : x = x' ∧ y = y' := by
  have hrow := congrArg (· / stride) h
  have hcolumn := congrArg (· % stride) h
  simp only [Nat.mul_comm _ stride, Nat.mul_add_mod, Nat.mod_eq_of_lt hx,
    Nat.mod_eq_of_lt hx'] at hcolumn
  simp only [Nat.mul_comm _ stride, Nat.mul_add_div (Nat.zero_lt_of_lt hx),
    Nat.div_eq_of_lt hx, Nat.div_eq_of_lt hx', Nat.add_zero] at hrow
  exact ⟨hcolumn, hrow⟩

namespace PixcelWriter

variable {g : PixcelWriter} {x y x' y' k k' : Nat}

/-- Different pixels do not share a byte. -/
theorem offset_inj (hx : x < g.pixcelsPerScanLine) (hx' : x' < g.pixcelsPerScanLine)
    (hk : k < 4) (hk' : k' < 4)
    (h : (y * g.pixcelsPerScanLine + x) * 4 + k = (y' * g.pixcelsPerScanLine + x') * 4 + k') :
    x = x' ∧ y = y' ∧ k = k' := by
  have hpixel : y * g.pixcelsPerScanLine + x = y' * g.pixcelsPerScanLine + x' := by omega
  obtain ⟨rfl, rfl⟩ := pixel_inj hx hx' hpixel
  exact ⟨rfl, rfl, by omega⟩

/-- The byte of a pixel lies in the bytes of another only if they are the same. -/
theorem mem_bytesAt_offset {bytes : List UInt8} {b : UInt8} (hx : x < g.pixcelsPerScanLine)
    (hx' : x' < g.pixcelsPerScanLine) (hk : k < 4) (hlen : bytes.length ≤ 4) :
    ((y * g.pixcelsPerScanLine + x) * 4 + k, b) ∈
        bytesAt ((y' * g.pixcelsPerScanLine + x') * 4) bytes ↔
      x = x' ∧ y = y' ∧ bytes[k]? = some b := by
  rw [mem_bytesAt]
  constructor
  · rintro ⟨k', hbyte, heq⟩
    obtain ⟨hk', _⟩ := List.getElem?_eq_some_iff.mp hbyte
    obtain ⟨rfl, rfl, rfl⟩ := offset_inj hx hx' hk (by omega) heq
    exact ⟨rfl, rfl, hbyte⟩
  · rintro ⟨rfl, rfl, hbyte⟩
    exact ⟨k, hbyte, rfl⟩

/-- The offset of a pixel on the screen is a word. -/
theorem offset_lt_usizeSize (fb : FrameBuffer g) (hx : x < g.pixcelsPerScanLine)
    (hy : y < g.verticalResolution) : (y * g.pixcelsPerScanLine + x) * 4 < usizeSize := by
  have hlen := fb.len_lt
  have hin := (g.offset_lt_iff (y := y) (k := 0) hx (by decide)).mpr hy
  omega

end PixcelWriter

namespace Window

/-- The colour that the window has at screen position `(x, y)`, if it covers it and
is not transparent there. -/
def colorAt (w : Window) (x y : Nat) : Option Color :=
  if w.position.x ≤ x ∧ w.position.y ≤ y then
    (w.pixels[x - w.position.x]?.bind fun column => column[y - w.position.y]?).filter
      fun color => w.transparentColor ≠ some color
  else none

/-- The windows that a program can have: a new one, after any writes and moves. -/
inductive Drawn : Window → Prop where
  | new {width height : Nat} {renderingHandler : PixcelFormat} {transparentColor : Option Color}
      {position : Position} {w : Window}
      (h : Window.new width height renderingHandler transparentColor position = .ok w) : Drawn w
  | write {w w' : Window} {x y : Nat} {c : Color} (hw : Drawn w) (h : w.write x y c = .ok w') :
      Drawn w'
  | moveTo {w : Window} (hw : Drawn w) (newPosition : Position) : Drawn (w.moveTo newPosition)
  | moveRelative {w w' : Window} {xDiff yDiff : Int} (hw : Drawn w)
      (h : w.moveRelative xDiff yDiff = .ok w') : Drawn w'

/-- The window lies inside the scan line and inside both resolutions. -/
structure Inside (w : Window) (g : PixcelWriter) : Prop where
  right : w.position.x + w.width ≤ g.pixcelsPerScanLine
  bottom : w.position.y + w.rows ≤ min g.horizontalResolution g.verticalResolution

/-- The colour bytes of the buffer are those of the pixels. The fourth byte is not
compared: a new opaque window has a zero there. -/
def Mirrored (w : Window) : Prop :=
  ∀ i j color, w.pixelAt i j = .ok color → ∀ k < 3,
    w.buffer[(i + j * w.width) * 4 + k]? =
      (PixcelWriter.colorBytes w.renderingHandler color)[k]?

variable {w w' : Window} {g : PixcelWriter} {x y : Nat}

theorem colorAt_eq_some {color : Color} :
    w.colorAt x y = some color ↔ w.position.x ≤ x ∧ w.position.y ≤ y ∧
      w.pixelAt (x - w.position.x) (y - w.position.y) = .ok color ∧
      w.transparentColor ≠ some color := by
  unfold colorAt
  split
  · rename_i h
    rw [Option.filter_eq_some_iff, pixelAt_eq_ok]
    simp [h.1, h.2]
  · rename_i h
    simp only [reduceCtorEq, false_iff]
    rintro ⟨hx, hy, _⟩
    exact h ⟨hx, hy⟩

/-- A rendered pixel begins with the bytes that the plain writer writes. -/
theorem getElem?_pixel (f : PixcelFormat) (c : Color) {k : Nat} (hk : k < 3) :
    (f.pixel c)[k]? = (PixcelWriter.colorBytes f c)[k]? := by
  have hcases : k = 0 ∨ k = 1 ∨ k = 2 := by omega
  rcases hcases with rfl | rfl | rfl <;> cases f <;> rfl

/-- `copy_from_slice` into the middle of a buffer. -/
theorem getElem?_splice {α : Type} {l mid : List α} {n : Nat} (hlen : n + mid.length ≤ l.length)
    (p : Nat) :
    (l.take n ++ mid ++ l.drop (n + mid.length))[p]? =
      if n ≤ p ∧ p < n + mid.length then mid[p - n]? else l[p]? := by
  have htake : (l.take n).length = n := List.length_take_of_le (by omega)
  rcases Nat.lt_or_ge p n with hlow | hlow
  · rw [if_neg (by omega), List.append_assoc, List.getElem?_append_left (by omega),
      List.getElem?_take_of_lt hlow]
  · rcases Nat.lt_or_ge p (n + mid.length) with hmid | hhigh
    · rw [if_pos ⟨hlow, hmid⟩, List.append_assoc, List.getElem?_append_right (by omega), htake,
        List.getElem?_append_left (by omega)]
    · rw [if_neg (by omega), List.getElem?_append_right (by simp only [List.length_append]; omega),
        List.getElem?_drop]
      congr 1
      simp only [List.length_append]
      omega

/-- Assigning to a pixel changes that pixel alone. -/
theorem getElem?_assign {pixels : List (List Color)} {c old : Color}
    (hold : (pixels[x]?.bind fun column => column[y]?) = some old) (i j : Nat) :
    ((pixels.modify x fun column => column.set y c)[i]?.bind fun column => column[j]?) =
      if i = x ∧ j = y then some c else pixels[i]?.bind fun column => column[j]? := by
  rw [List.getElem?_modify]
  obtain ⟨column, hcolumn, hcell⟩ := Option.bind_eq_some_iff.mp hold
  by_cases hi : x = i
  · subst hi
    rw [hcolumn]
    simp only [if_true, Option.map_eq_map, Option.map_some, Option.bind_some, true_and]
    by_cases hj : j = y
    · subst hj
      obtain ⟨hlt, _⟩ := List.getElem?_eq_some_iff.mp hcell
      rw [if_pos rfl, List.getElem?_set_self hlt]
    · rw [if_neg hj, List.getElem?_set_ne (Ne.symm hj)]
  · rw [if_neg fun h => hi h.1.symm]
    simp [hi]

/-- What a write changes: the pixel, and the four bytes of it. -/
theorem write_spec {c : Color} (h : w.write x y c = .ok w') :
    x < w.width ∧ w'.transparentColor = w.transparentColor ∧
      w'.renderingHandler = w.renderingHandler ∧ w'.width = w.width ∧
      (∀ i j, w'.pixelAt i j = if i = x ∧ j = y then .ok c else w.pixelAt i j) ∧
      ∀ p, w'.buffer[p]? =
        if (x + y * w.width) * 4 ≤ p ∧ p < (x + y * w.width) * 4 + 4 then
          (w.renderingHandler.pixel c)[p - (x + y * w.width) * 4]?
        else w.buffer[p]? := by
  simp only [write, Rust.bind_eq_ok, byteIndex_eq_ok, usizeAdd_eq_ok] at h
  obtain ⟨old, hold, _, ⟨_, rfl⟩, _, _, h⟩ := h
  split at h
  · rename_i hfits
    obtain ⟨hx, hy⟩ := lt_of_pixelAt hold
    cases h
    refine ⟨hx, rfl, rfl, List.length_modify .., ?_, ?_⟩
    · intro i j
      have hassign := getElem?_assign (c := c) (pixelAt_eq_ok.mp hold) i j
      unfold pixelAt
      dsimp only
      rw [hassign]
      by_cases hij : i = x ∧ j = y
      · rw [if_pos hij, if_pos hij]
      · rw [if_neg hij, if_neg hij]
    · intro p
      have hlen := PixcelFormat.length_pixel w.renderingHandler c
      have hsplice := @getElem?_splice _ w.buffer (w.renderingHandler.pixel c)
        ((x + y * w.width) * 4) (by omega) p
      rwa [hlen] at hsplice
  · cases h

theorem Mirrored.write {c : Color} (hw : w.Mirrored) (h : w.write x y c = .ok w') :
    w'.Mirrored := by
  obtain ⟨hx, _, hhandler, hwidth, hpixel, hbyte⟩ := write_spec h
  intro i j color hcolor k hk
  have hi : i < w.width := hwidth ▸ (lt_of_pixelAt hcolor).1
  rw [hpixel] at hcolor
  rw [hbyte, hhandler, hwidth]
  by_cases hij : i = x ∧ j = y
  · obtain ⟨rfl, rfl⟩ := hij
    rw [if_pos ⟨rfl, rfl⟩] at hcolor
    cases hcolor
    rw [if_pos (by omega), Nat.add_sub_cancel_left]
    exact getElem?_pixel w.renderingHandler c hk
  · -- another pixel has another number, so its bytes are out of reach of the four
    have hnumber : j * w.width + i ≠ y * w.width + x := by
      intro heq
      obtain ⟨rfl, rfl⟩ := pixel_inj hi hx heq
      exact hij ⟨rfl, rfl⟩
    rw [if_neg hij] at hcolor
    rw [if_neg (by omega)]
    exact hw i j color hcolor k hk

theorem Mirrored.new {width height : Nat} {renderingHandler : PixcelFormat} {position : Position}
    (h : Window.new width height renderingHandler none position = .ok w) : w.Mirrored := by
  unfold Window.new at h
  split at h
  · cases h
    intro i j color hcolor k hk
    obtain ⟨hi, hj⟩ := lt_of_pixelAt hcolor
    have hbuffer := row_le_buffer (Nat.succ_le_of_lt hi) hj
    -- the pixels are black and the bytes zero
    obtain ⟨column, hcolumn, hcell⟩ := Option.bind_eq_some_iff.mp (pixelAt_eq_ok.mp hcolor)
    have hblack := List.eq_of_mem_replicate (List.mem_of_getElem? hcolumn)
    subst hblack
    have hcolor := List.eq_of_mem_replicate (List.mem_of_getElem? hcell)
    subst hcolor
    dsimp only at hbuffer ⊢
    rw [List.length_replicate] at hbuffer
    rw [List.getElem?_replicate_of_lt (by omega)]
    have hcases : k = 0 ∨ k = 1 ∨ k = 2 := by omega
    rcases hcases with rfl | rfl | rfl <;> cases renderingHandler <;> rfl
  · cases h

theorem moveRelative_spec {xDiff yDiff : Int} (h : w.moveRelative xDiff yDiff = .ok w') :
    ∃ newPosition, w' = w.moveTo newPosition := by
  simp only [moveRelative, Rust.bind_eq_ok, pure, Except.pure, Except.ok.injEq] at h
  obtain ⟨newX, _, newY, _, rfl⟩ := h
  exact ⟨⟨newX, newY⟩, rfl⟩

/-- The two representations of an opaque window stay in step under every history of
writes and moves. A transparent window starts out of step, but is never copied. -/
theorem Drawn.mirrored (hw : w.Drawn) (hsolid : w.transparentColor = none) : w.Mirrored := by
  induction hw with
  | new h =>
      rename_i transparentColor _ _
      have htrans : transparentColor = none := by
        unfold Window.new at h
        split at h
        · cases h
          exact hsolid
        · cases h
      subst htrans
      exact .new h
  | write _ h ih =>
      have hsame := (write_spec h).2.1
      exact (ih (hsame ▸ hsolid)).write h
  | moveTo _ newPosition ih => exact ih hsolid
  | moveRelative _ h ih =>
      obtain ⟨newPosition, rfl⟩ := moveRelative_spec h
      exact ih hsolid

/-- Drawing that returns and whose colour bytes are exactly those of the window's
visible pixels on the given rows. -/
structure Paints (w : Window) (g : PixcelWriter) (rows : Nat → Prop) (drawing : Draw) : Prop where
  ended : drawing.ended = none
  mem : ∀ x y k b, x < g.pixcelsPerScanLine → k < 3 →
    (((y * g.pixcelsPerScanLine + x) * 4 + k, b) ∈ drawing.effects ↔
      rows y ∧ ∃ color, w.colorAt x y = some color ∧
        (PixcelWriter.colorBytes g.pixcelFormat color)[k]? = some b)

/-- The offsets of a row of a window on the screen are words. -/
theorem Inside.offset_lt (inside : w.Inside g) (fb : FrameBuffer g) {row : Nat}
    (hrow : row < w.position.y + w.rows) (hx : x < g.pixcelsPerScanLine) :
    (row * g.pixcelsPerScanLine + x) * 4 < usizeSize := by
  have hbottom := inside.bottom
  exact PixcelWriter.offset_lt_usizeSize fb hx (by omega)

theorem Inside.usizeAdd_right (inside : w.Inside g) (fb : FrameBuffer g) :
    usizeAdd w.position.x w.width = .ok (w.position.x + w.width) := by
  have hright := inside.right
  have hlt := fb.scanLine_lt
  exact usizeAdd_eq_ok.mpr ⟨by omega, rfl⟩

/-- A row of the per-pixel path. -/
theorem paints_flushPixelRow (inside : w.Inside g) (fb : FrameBuffer g) {transparentColor : Color}
    (htrans : w.transparentColor = some transparentColor) {row : Nat} (hlo : w.position.y ≤ row)
    (hhi : row < w.position.y + w.rows) :
    w.Paints g (· = row) (w.flushPixelRow g transparentColor row) := by
  have hright := inside.right
  have hround : ∀ x ∈ interval w.position.x (w.position.x + w.width),
      (Emit.need (w.pixelAt (x - w.position.x) (row - w.position.y)) fun color =>
        if color = transparentColor then .done else g.write x row color).ended = none := by
    intro x hmem
    rw [mem_interval] at hmem
    obtain ⟨color, hcolor⟩ := exists_pixelAt (w := w) (i := x - w.position.x)
      (j := row - w.position.y) (by omega) (by omega)
    rw [hcolor, Emit.need_ok]
    split
    · rfl
    · rw [PixcelWriter.write_eq (inside.offset_lt fb hhi (by omega)), Emit.emit_ended]
  rw [flushPixelRow, inside.usizeAdd_right fb, Emit.need_ok, Nat.min_eq_left hright]
  refine ⟨Emit.forEach_ended_eq_none.mpr hround, ?_⟩
  intro x y k b hx hk
  rw [Emit.mem_forEach_iff hround]
  constructor
  · rintro ⟨x', hmem, h⟩
    rw [mem_interval] at hmem
    obtain ⟨color, hcolor, h⟩ := Emit.mem_need.mp h
    split at h
    · simp at h
    · rename_i hne
      rw [PixcelWriter.write_eq (inside.offset_lt fb hhi (by omega)), Emit.emit_effects,
        PixcelWriter.mem_bytesAt_offset hx (by omega) (by omega) (by simp)] at h
      obtain ⟨rfl, rfl, hbyte⟩ := h
      refine ⟨rfl, color, colorAt_eq_some.mpr ⟨hmem.1, hlo, hcolor, ?_⟩, hbyte⟩
      rw [htrans, ne_eq, Option.some.injEq]
      exact fun heq => hne heq.symm
  · rintro ⟨rfl, color, hcolor, hbyte⟩
    obtain ⟨hle, _, hpixel, hne⟩ := colorAt_eq_some.mp hcolor
    have hlt := (lt_of_pixelAt hpixel).1
    refine ⟨x, mem_interval.mpr ⟨hle, by omega⟩, ?_⟩
    rw [htrans, ne_eq, Option.some.injEq] at hne
    rw [hpixel, Emit.need_ok, if_neg fun heq => hne heq.symm,
      PixcelWriter.write_eq (inside.offset_lt fb hhi hx), Emit.emit_effects,
      PixcelWriter.mem_bytesAt_offset hx hx (by omega) (by simp)]
    exact ⟨rfl, rfl, hbyte⟩

/-- Byte `4 * i + k` of a copied row is byte `k` of the pixel in column `i`. -/
theorem flushRow_mirrored (hmirror : w.Mirrored) (hformat : w.renderingHandler = g.pixcelFormat)
    {xEnd y : Nat} (hfit : (y * g.pixcelsPerScanLine + w.position.x) * 4 < usizeSize)
    (hle : w.position.x ≤ xEnd) (hwidth : xEnd ≤ w.position.x + w.width)
    (hrows : y - w.position.y < w.rows) :
    ∃ row : List UInt8, row.length = (xEnd - w.position.x) * 4 ∧
      (∀ i k color, i < xEnd - w.position.x → k < 3 → w.pixelAt i (y - w.position.y) = .ok color →
        row[i * 4 + k]? = (PixcelWriter.colorBytes g.pixcelFormat color)[k]?) ∧
      w.flushRow g w.position.x xEnd y =
        .emit (PixcelWriter.bytesAt ((w.position.x + y * g.pixcelsPerScanLine) * 4) row) := by
  obtain ⟨row, hlen, hcopy, heq⟩ := flushRow_eq xEnd hfit hle hwidth hrows
  refine ⟨row, hlen, ?_, heq⟩
  intro i k color hi hk hcolor
  rw [hcopy _ (by omega), ← hformat, ← hmirror _ _ _ hcolor k hk]
  congr 1
  omega

/-- A row of the row-copy path: the bytes copied are those of the pixels. -/
theorem paints_flushRow (inside : w.Inside g) (fb : FrameBuffer g) (hwidth : 0 < w.width)
    (hsolid : w.transparentColor = none) (hmirror : w.Mirrored)
    (hformat : w.renderingHandler = g.pixcelFormat) {row : Nat} (hlo : w.position.y ≤ row)
    (hhi : row < w.position.y + w.rows) :
    w.Paints g (· = row) (w.flushRow g w.position.x (w.position.x + w.width) row) := by
  have hright := inside.right
  have hend : w.position.x ≤ w.position.x + w.width := Nat.le_add_right _ _
  obtain ⟨bytes, hlen, hbytes, heq⟩ := flushRow_mirrored hmirror hformat
    (inside.offset_lt fb hhi (by omega)) hend (Nat.le_refl _)
    (by omega : row - w.position.y < w.rows)
  rw [heq]
  refine ⟨rfl, ?_⟩
  intro x y k b hx hk
  rw [Emit.emit_effects, PixcelWriter.mem_bytesAt]
  constructor
  · rintro ⟨q, hq, hoffset⟩
    obtain ⟨hqlt, _⟩ := List.getElem?_eq_some_iff.mp hq
    have hpixel : (y * g.pixcelsPerScanLine + x) * 4 + k =
        (row * g.pixcelsPerScanLine + (w.position.x + q / 4)) * 4 + q % 4 := by omega
    obtain ⟨rfl, rfl, rfl⟩ := PixcelWriter.offset_inj hx (by omega) (by omega) (by omega) hpixel
    obtain ⟨color, hcolor⟩ := exists_pixelAt (w := w) (i := q / 4) (j := y - w.position.y)
      (by omega) (by omega)
    refine ⟨rfl, color, colorAt_eq_some.mpr ⟨by omega, hlo, ?_, by simp [hsolid]⟩, ?_⟩
    · rwa [Nat.add_sub_cancel_left]
    · rw [← hbytes _ _ _ (by omega) hk hcolor, ← hq]
      congr 1
      omega
  · rintro ⟨rfl, color, hcolor, hbyte⟩
    obtain ⟨hle, _, hpixel, _⟩ := colorAt_eq_some.mp hcolor
    refine ⟨(x - w.position.x) * 4 + k, ?_, by omega⟩
    have hcolumn := (lt_of_pixelAt hpixel).1
    rw [hbytes _ _ _ (by omega) hk hpixel, hbyte]

/-- A loop over all rows on which the window has a pixel paints the window. -/
theorem Paints.forEach {lo hi : Nat} {drawRow : Nat → Draw}
    (hrow : ∀ row ∈ interval lo hi, w.Paints g (· = row) (drawRow row))
    (hall : ∀ x y color, w.colorAt x y = some color → y ∈ interval lo hi) :
    w.Paints g (fun _ => True) (.forEach (interval lo hi) drawRow) := by
  have hround : ∀ row ∈ interval lo hi, (drawRow row).ended = none := fun row hmem =>
    (hrow row hmem).ended
  refine ⟨Emit.forEach_ended_eq_none.mpr hround, ?_⟩
  intro x y k b hx hk
  rw [Emit.mem_forEach_iff hround, true_and]
  constructor
  · rintro ⟨row, hmem, h⟩
    exact (((hrow row hmem).mem x y k b hx hk).mp h).2
  · rintro ⟨color, hcolor, hbyte⟩
    have hmem := hall x y color hcolor
    exact ⟨y, hmem, ((hrow y hmem).mem x y k b hx hk).mpr ⟨rfl, color, hcolor, hbyte⟩⟩

/-- Flushing a window that lies on the screen and has a column paints the window. -/
theorem paints_flush (fb : FrameBuffer g) (hw : w.Drawn) (inside : w.Inside g)
    (hformat : w.renderingHandler = g.pixcelFormat) (hwidth : 0 < w.width) :
    w.Paints g (fun _ => True) (w.flush g) := by
  have hbottom := inside.bottom
  have hheight : w.height = .ok w.rows := height_eq_ok.mpr ⟨hwidth, rfl⟩
  have hyEnd : usizeAdd w.position.y w.rows = .ok (w.position.y + w.rows) := by
    have hlt := fb.vertical_lt
    exact usizeAdd_eq_ok.mpr ⟨by omega, rfl⟩
  have hclip : min (w.position.y + w.rows) g.horizontalResolution = w.position.y + w.rows :=
    Nat.min_eq_left (by omega)
  have hall : ∀ x y color, w.colorAt x y = some color →
      y ∈ interval w.position.y (w.position.y + w.rows) := by
    intro x y color hcolor
    obtain ⟨_, hle, hpixel, _⟩ := colorAt_eq_some.mp hcolor
    have hlt := (lt_of_pixelAt hpixel).2
    exact mem_interval.mpr ⟨hle, by omega⟩
  rw [flush, hheight, Rust.ok_bind, hyEnd, Emit.need_ok]
  simp only [hclip]
  cases htrans : w.transparentColor with
  | some transparentColor =>
      refine Paints.forEach (fun row hmem => ?_) hall
      rw [mem_interval] at hmem
      exact paints_flushPixelRow inside fb htrans hmem.1 hmem.2
  | none =>
      dsimp only
      rw [inside.usizeAdd_right fb, Emit.need_ok, Nat.min_eq_left inside.right]
      refine Paints.forEach (fun row hmem => ?_) hall
      rw [mem_interval] at hmem
      exact paints_flushRow inside fb hwidth htrans (hw.mirrored htrans) hformat hmem.1 hmem.2

/-- Where a painted window shows a colour the memory holds its bytes afterwards. -/
theorem Paints.applyWrites_some {drawing : Draw} (h : w.Paints g (fun _ => True) drawing)
    (mem : Nat → UInt8) {color : Color} {k : Nat} {b : UInt8} (hx : x < g.pixcelsPerScanLine)
    (hk : k < 3) (hcolor : w.colorAt x y = some color)
    (hb : (PixcelWriter.colorBytes g.pixcelFormat color)[k]? = some b) :
    applyWrites mem drawing.effects ((y * g.pixcelsPerScanLine + x) * 4 + k) = b := by
  refine applyWrites_of_mem ((h.mem x y k b hx hk).mpr ⟨trivial, color, hcolor, hb⟩) ?_
  intro b' hmem
  obtain ⟨_, color', hcolor', hb'⟩ := (h.mem x y k b' hx hk).mp hmem
  rw [hcolor, Option.some.injEq] at hcolor'
  subst hcolor'
  rw [hb, Option.some.injEq] at hb'
  exact hb'.symm

/-- A pixel that the window does not show is as before. -/
theorem Paints.applyWrites_none {drawing : Draw} (h : w.Paints g (fun _ => True) drawing)
    (mem : Nat → UInt8) {k : Nat} (hx : x < g.pixcelsPerScanLine) (hk : k < 3)
    (hcolor : w.colorAt x y = none) :
    applyWrites mem drawing.effects ((y * g.pixcelsPerScanLine + x) * 4 + k) =
      mem ((y * g.pixcelsPerScanLine + x) * 4 + k) := by
  refine applyWrites_of_not_mem fun b hmem => ?_
  obtain ⟨_, color, hsome, _⟩ := (h.mem x y k b hx hk).mp hmem
  rw [hcolor] at hsome
  cases hsome

end Window

/-- The frame buffer after some drawing. -/
def FrameBuffer.after {g : PixcelWriter} (fb : FrameBuffer g) (drawing : Draw) : FrameBuffer g :=
  { fb with bytes := applyWrites fb.bytes drawing.effects }

/-- The three colour bytes of a screen pixel. -/
def FrameBuffer.rgbAt {g : PixcelWriter} (fb : FrameBuffer g) (x y : Nat) : List UInt8 :=
  (List.range 3).map fun k => fb.bytes ((y * g.pixcelsPerScanLine + x) * 4 + k)

namespace LayerManager

/-- The colour of the last layer among `ids` that is not transparent at `(x, y)`. -/
def topColorOf (m : LayerManager) (ids : List LayerId) (x y : Nat) : Option Color :=
  (ids.filterMap fun id => (m.layers id).bind fun layer => layer.window.colorAt x y).getLast?

/-- What the layer stack shows at `(x, y)`. -/
def topColor (m : LayerManager) (x y : Nat) : Option Color := m.topColorOf m.layerStack x y

/-- A flush returns, and then every screen pixel has the colour of the topmost layer
that is not transparent there, or is unchanged if there is none. -/
structure Composites (m : LayerManager) (fb : FrameBuffer m.writer) : Prop where
  ended : m.flush.ended = none
  shows : ∀ x y, x < m.writer.pixcelsPerScanLine → y < m.writer.verticalResolution →
    (fb.after m.flush).rgbAt x y =
      match m.topColor x y with
      | some color => PixcelWriter.colorBytes m.writer.pixcelFormat color
      | none => fb.rgbAt x y

theorem topColorOf_append {m : LayerManager} {id : LayerId} {layer : Layer}
    (hlayer : m.layers id = some layer) (ids : List LayerId) (x y : Nat) :
    m.topColorOf (ids ++ [id]) x y = (layer.window.colorAt x y).or (m.topColorOf ids x y) := by
  rw [topColorOf, List.filterMap_append, List.getLast?_append]
  congr 1
  cases hcolor : layer.window.colorAt x y with
  | none => simp [hlayer, hcolor]
  | some color => simp [hlayer, hcolor]

/-- Painting the layers one after another leaves the topmost colour. -/
theorem applyWrites_layers {m : LayerManager} {ids : List LayerId}
    (hpaints : ∀ id ∈ ids, ∃ layer, m.layers id = some layer ∧
      layer.window.Paints m.writer (fun _ => True) (m.flushLayer id))
    (mem : Nat → UInt8) {x y k : Nat} (hx : x < m.writer.pixcelsPerScanLine) (hk : k < 3) :
    some (applyWrites mem (ids.flatMap fun id => (m.flushLayer id).effects)
        ((y * m.writer.pixcelsPerScanLine + x) * 4 + k)) =
      match m.topColorOf ids x y with
      | some color => (PixcelWriter.colorBytes m.writer.pixcelFormat color)[k]?
      | none => some (mem ((y * m.writer.pixcelsPerScanLine + x) * 4 + k)) := by
  induction ids using List.reverseRecOn with
  | nil => rfl
  | append_singleton ids id ih =>
      have ih := ih fun i hi => hpaints i (List.mem_append_left _ hi)
      obtain ⟨layer, hlayer, hpaint⟩ := hpaints id (by simp)
      rw [List.flatMap_append, applyWrites_append, topColorOf_append hlayer,
        List.flatMap_singleton]
      cases hcolor : layer.window.colorAt x y with
      | some color =>
          have hlt : k < (PixcelWriter.colorBytes m.writer.pixcelFormat color).length := by simpa
          rw [hpaint.applyWrites_some _ hx hk hcolor (List.getElem?_eq_getElem hlt)]
          exact (List.getElem?_eq_getElem hlt).symm
      | none =>
          rw [hpaint.applyWrites_none _ hx hk hcolor]
          exact ih

/-- The layers of the stack are there, lie on the screen, were drawn by writes in
range and render in the pixel format of the writer. -/
def Stacked (m : LayerManager) : Prop :=
  ∀ id ∈ m.layerStack, ∃ layer, m.layers id = some layer ∧ layer.window.Drawn ∧
    layer.window.Inside m.writer ∧ layer.window.renderingHandler = m.writer.pixcelFormat

/-- No window of the stack is without a column. -/
def NoEmptyWindow (m : LayerManager) : Prop :=
  ∀ id ∈ m.layerStack, ∀ layer, m.layers id = some layer → 0 < layer.window.width

theorem composites_of_noEmptyWindow {m : LayerManager} (fb : FrameBuffer m.writer)
    (hstack : m.Stacked) (hwidth : m.NoEmptyWindow) : m.Composites fb := by
  have hpaints : ∀ id ∈ m.layerStack, ∃ layer, m.layers id = some layer ∧
      layer.window.Paints m.writer (fun _ => True) (m.flushLayer id) := by
    intro id hmem
    obtain ⟨layer, hlayer, hdrawn, hinside, hformat⟩ := hstack id hmem
    refine ⟨layer, hlayer, ?_⟩
    simp only [flushLayer, hlayer]
    exact Window.paints_flush fb hdrawn hinside hformat (hwidth id hmem layer hlayer)
  have hround : ∀ id ∈ m.layerStack, (m.flushLayer id).ended = none := by
    intro id hmem
    obtain ⟨_, _, hpaint⟩ := hpaints id hmem
    exact hpaint.ended
  refine ⟨Emit.forEach_ended_eq_none.mpr hround, ?_⟩
  intro x y hx _
  refine List.ext_getElem? fun k => ?_
  rcases Nat.lt_or_ge k 3 with hk | hk
  · have hbyte := applyWrites_layers hpaints fb.bytes (y := y) hx hk
    rw [← Emit.forEach_effects hround] at hbyte
    have hafter : ((fb.after m.flush).rgbAt x y)[k]? =
        some (applyWrites fb.bytes m.flush.effects
          ((y * m.writer.pixcelsPerScanLine + x) * 4 + k)) := by
      simp [FrameBuffer.rgbAt, FrameBuffer.after, hk]
    rw [hafter]
    refine hbyte.trans ?_
    change (match m.topColor x y with | some color => _ | none => _) = _
    cases m.topColor x y with
    | some color => rfl
    | none => simp [FrameBuffer.rgbAt, hk]
  · have hafter : ((fb.after m.flush).rgbAt x y)[k]? = none := by
      simp [FrameBuffer.rgbAt, hk]
    rw [hafter, eq_comm, List.getElem?_eq_none_iff]
    cases m.topColor x y with
    | some color => simpa using hk
    | none => simpa [FrameBuffer.rgbAt] using hk

/-- A window without a column has no height to ask for, and the flush panics. -/
theorem noEmptyWindow_of_ended {m : LayerManager} (h : m.flush.ended = none) :
    m.NoEmptyWindow := by
  intro id hmem layer hlayer
  have hround := Emit.forEach_ended_eq_none.mp h id hmem
  simp only [flushLayer, hlayer] at hround
  exact (Window.flushable_of_ended hround).1

/-- What the stack operations do to the drawing order. -/
structure StackOps (m : LayerManager) : Prop where
  /-- While there are ids left, a new layer is drawn first, under a new id. -/
  newLayer : ∀ window, m.latestUnusedId < uninitialized → ∃ id m',
    m.newLayer window = .ok (id, m') ∧ id ∉ m.layerStack ∧ m'.layerStack = id :: m.layerStack ∧
      m'.layers id = some ⟨id, window⟩ ∧ ∀ i ≠ id, m'.layers i = m.layers i
  /-- An existing layer is raised over the others, which keep their order. -/
  setToTop : ∀ id, (m.layers id).isSome →
    (m.setToTop id).layerStack = m.layerStack.filter (· ≠ id) ++ [id] ∧
      (m.setToTop id).layers = m.layers
  /-- A hidden layer is drawn no more, and all others are as before. -/
  hide : ∀ id, (m.hide id).layerStack = m.layerStack.filter (· ≠ id) ∧
    (m.hide id).layers = m.layers

theorem StackInv.stackOps {m : LayerManager} (inv : m.StackInv) : m.StackOps := by
  have herase : ∀ id, m.layerStack.erase id = m.layerStack.filter (· ≠ id) := by
    intro id
    rw [inv.nodup.erase_eq_filter]
    refine List.filter_congr fun i _ => ?_
    by_cases h : i = id <;> simp [h]
  refine ⟨?_, ?_, ?_⟩
  · intro window hid
    refine ⟨m.latestUnusedId, _, if_pos hid, inv.fresh_not_mem hid, rfl, ?_, ?_⟩
    · exact Function.update_self ..
    · intro i hne
      exact Function.update_of_ne hne ..
  · intro id _
    exact ⟨congrArg (· ++ [id]) (herase id), rfl⟩
  · intro id
    exact ⟨herase id, rfl⟩

/-- Layer compositing, in every state that calls with existing ids can reach and for
every stack of layers on the screen: the stack operations do what their names say,
and a flush puts the topmost colour at every pixel, exactly when no window of the
stack is without a column. -/
theorem compositing_iff (m : LayerManager) (hm : (calls.guard Held).Reachable m)
    (fb : FrameBuffer m.writer) (hstack : m.Stacked) :
    m.Composites fb ∧ m.StackOps ↔ m.NoEmptyWindow := by
  have hops := (StackInv.of_reachable hm).stackOps
  constructor
  · rintro ⟨hcomp, _⟩
    exact noEmptyWindow_of_ended hcomp.ended
  · intro hwidth
    exact ⟨composites_of_noEmptyWindow fb hstack hwidth, hops⟩

/-- One opaque window, one row high, in the corner of the empty screen. -/
def cornerWindow (width : Nat) : Rust LayerManager := do
  let window ← Window.new width 1 .rgb none ⟨0, 0⟩
  emptyScreen.call (.newLayer window)

theorem cornerWindow_spec {width : Nat} {m : LayerManager} (hwidth : width ≤ 4)
    (h : cornerWindow width = .ok m) :
    (calls.guard Held).Reachable m ∧ m.Stacked ∧ m.writer = ⟨4, 4, 4, .rgb⟩ := by
  obtain ⟨window, hwindow, hcall⟩ := Rust.bind_eq_ok.mp h
  have hnew : (calls.guard Held).Reachable emptyScreen := .init ⟨⟨4, 4, 4, .rgb⟩, 0, rfl⟩
  have hstep : (calls.guard Held).step emptyScreen (.newLayer window) m := ⟨trivial, hcall⟩
  have hdrawn : window.Drawn := .new hwindow
  have hplace : window.Inside ⟨4, 4, 4, .rgb⟩ ∧ window.renderingHandler = .rgb := by
    unfold Window.new at hwindow
    split at hwindow
    · cases hwindow
      refine ⟨⟨?_, ?_⟩, rfl⟩
      · simpa [Window.width] using hwidth
      · dsimp only
        omega
    · cases hwindow
  cases hcall
  refine ⟨.step hnew hstep, ?_, rfl⟩
  intro id hmem
  obtain rfl := List.mem_singleton.mp hmem
  exact ⟨_, rfl, hdrawn, hplace⟩

/-- A cleared frame buffer of 4 by 4 pixels. -/
def cleared : FrameBuffer ⟨4, 4, 4, .rgb⟩ :=
  ⟨fun _ => 0, by decide, by decide, by decide, by decide⟩

theorem compositing_iff_corner : ∃ m, ∃ hwriter : m.writer = ⟨4, 4, 4, .rgb⟩,
    cornerWindow 2 = .ok m ∧ (m.Composites (hwriter ▸ cleared) ∧ m.StackOps ↔ m.NoEmptyWindow) := by
  obtain ⟨m, hm⟩ : ∃ m, cornerWindow 2 = .ok m := ⟨_, rfl⟩
  obtain ⟨hreach, hstack, hwriter⟩ := cornerWindow_spec (by decide) hm
  exact ⟨m, hwriter, hm, compositing_iff m hreach (hwriter ▸ cleared) hstack⟩

/-- A window without a column lies on the screen and covers nothing, and the flush
panics when it asks for its height. -/
theorem empty_window_not_composites : ∃ m, ∃ hwriter : m.writer = ⟨4, 4, 4, .rgb⟩,
    cornerWindow 0 = .ok m ∧ (calls.guard Held).Reachable m ∧ m.Stacked ∧
      ¬ m.Composites (hwriter ▸ cleared) := by
  obtain ⟨m, hm⟩ : ∃ m, cornerWindow 0 = .ok m := ⟨_, rfl⟩
  obtain ⟨hreach, hstack, hwriter⟩ := cornerWindow_spec (by decide) hm
  refine ⟨m, hwriter, hm, hreach, hstack, fun hcomp => ?_⟩
  have hended := hcomp.ended
  cases hm
  cases hended

end LayerManager

end LemolaOs.Graphics
