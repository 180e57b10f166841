import LemolaOs.KernelLib.Layer

/-!
# Where drawing lands in the frame buffer

A window draws its non-transparent pixels, clipped on the right at the scan line
and at the bottom at the *horizontal* resolution. The offset of a drawn pixel is
inside the frame buffer exactly when its row is above the vertical resolution, so
a layer manager writes past the end as soon as it draws a pixel between the two.

`Window.Shows` are the pixels of a window and `Window.Flushable` the windows whose
flush does not panic; a flush that panics does so before its first write. With
these, `LayerManager.flush_inside_iff` says exactly which states are safe.
-/

namespace LemolaOs.Graphics

theorem PixcelWriter.mem_bytesAt {base o : Nat} {b : UInt8} {bytes : List UInt8} :
    (o, b) ∈ bytesAt base bytes ↔ ∃ k, bytes[k]? = some b ∧ o = base + k := by
  simp only [bytesAt, List.mem_map, Prod.exists, Prod.mk.injEq, List.mem_zipIdx_iff_getElem?]
  constructor
  · rintro ⟨c, k, hk, rfl, rfl⟩
    exact ⟨k, hk, rfl⟩
  · rintro ⟨k, hk, rfl⟩
    exact ⟨b, k, hk, rfl, rfl⟩

@[simp] theorem PixcelWriter.length_colorBytes (f : PixcelFormat) (c : Color) :
    (colorBytes f c).length = 3 := by
  cases f <;> rfl

/-- A pixel left of the end of the scan line is inside the frame buffer exactly when
its row is. -/
theorem PixcelWriter.offset_lt_iff (g : PixcelWriter) {x y k : Nat}
    (hx : x < g.pixcelsPerScanLine) (hk : k < 4) :
    (y * g.pixcelsPerScanLine + x) * 4 + k < g.frameBufferLen ↔ y < g.verticalResolution := by
  simp only [frameBufferLen, Nat.mul_comm g.pixcelsPerScanLine]
  constructor
  · intro h
    by_contra hy
    have := Nat.mul_le_mul_right g.pixcelsPerScanLine (Nat.le_of_not_lt hy)
    omega
  · intro h
    have := Nat.mul_le_mul_right g.pixcelsPerScanLine (Nat.succ_le_of_lt h)
    rw [Nat.succ_mul] at this
    omega

namespace PixcelWriter

variable {g : PixcelWriter} {x y : Nat} {color : Color}

theorem mem_write {o : Nat} {b : UInt8} (h : (o, b) ∈ (g.write x y color).effects) :
    ∃ k < 4, o = (y * g.pixcelsPerScanLine + x) * 4 + k := by
  simp only [write, Emit.mem_need, getOffset, Rust.bind_eq_ok, usizeMul_eq_ok,
    usizeAdd_eq_ok, Emit.emit_effects, mem_bytesAt] at h
  obtain ⟨_, ⟨_, ⟨_, rfl⟩, _, rfl⟩, _, ⟨_, rfl⟩, k, hk, rfl⟩ := h
  obtain ⟨hlt, _⟩ := List.getElem?_eq_some_iff.mp hk
  rw [length_colorBytes] at hlt
  exact ⟨k, by omega, rfl⟩

/-- Every offset of a clipped pixel fits in a word. -/
def Fits (g : PixcelWriter) : Prop :=
  g.horizontalResolution * g.pixcelsPerScanLine * 4 < usizeSize

theorem Fits.offset_lt (fits : g.Fits) (hy : y < g.horizontalResolution)
    (hx : x ≤ g.pixcelsPerScanLine) : (y * g.pixcelsPerScanLine + x) * 4 < usizeSize := by
  have := Nat.mul_le_mul_right g.pixcelsPerScanLine (Nat.succ_le_of_lt hy)
  rw [Nat.succ_mul] at this
  simp only [Fits] at fits
  omega

theorem write_eq (hfit : (y * g.pixcelsPerScanLine + x) * 4 < usizeSize) :
    g.write x y color = .emit (bytesAt ((y * g.pixcelsPerScanLine + x) * 4)
      (colorBytes g.pixcelFormat color)) := by
  have hrow : usizeMul y g.pixcelsPerScanLine = .ok (y * g.pixcelsPerScanLine) :=
    usizeMul_eq_ok.mpr ⟨by omega, rfl⟩
  have hoffset : usizeAdd (y * g.pixcelsPerScanLine) x = .ok (y * g.pixcelsPerScanLine + x) :=
    usizeAdd_eq_ok.mpr ⟨by omega, rfl⟩
  have hbase : usizeMul (y * g.pixcelsPerScanLine + x) 4 =
      .ok ((y * g.pixcelsPerScanLine + x) * 4) := usizeMul_eq_ok.mpr ⟨hfit, rfl⟩
  simp [write, getOffset, hrow, hoffset, hbase]

end PixcelWriter

namespace Window

variable {w : Window} {g : PixcelWriter} {x y : Nat}

/-- The window has a pixel at screen position `(x, y)` that is not transparent. -/
def Shows (w : Window) (x y : Nat) : Prop :=
  w.position.x ≤ x ∧ w.position.y ≤ y ∧
    ∃ color, w.pixelAt (x - w.position.x) (y - w.position.y) = .ok color ∧
      w.transparentColor ≠ some color

/-- The rows `[position.y, min (position.y + rows) horizontal_resolution)` that both
paths of `flush` go through. -/
def HasRow (w : Window) (g : PixcelWriter) : Prop :=
  w.position.y < min (w.position.y + w.rows) g.horizontalResolution

/-- The windows whose flush does not panic: there is a column to take the height of,
the sums of position and size do not overflow where they are computed, and an opaque
window does not start to the right of the scan line. -/
def Flushable (w : Window) (g : PixcelWriter) : Prop :=
  0 < w.width ∧ w.position.y + w.rows < usizeSize ∧
    (w.transparentColor = none ∨ w.HasRow g → w.position.x + w.width < usizeSize) ∧
    (w.transparentColor = none ∧ w.HasRow g → w.position.x ≤ g.pixcelsPerScanLine)

theorem mem_interval {lo hi n : Nat} : n ∈ interval lo hi ↔ lo ≤ n ∧ n < hi := by
  simp only [interval, List.mem_range'_1]
  omega

theorem height_eq_ok {h : Nat} : w.height = .ok h ↔ 0 < w.width ∧ h = w.rows := by
  obtain ⟨_, _, _, pixels, _, rows, columns, _, _⟩ := w
  cases pixels with
  | nil => simp [height, width]
  | cons column rest =>
      have hlen : column.length = rows := columns column List.mem_cons_self
      simp [height, width, hlen, eq_comm]

theorem pixelAt_eq_ok {i j : Nat} {color : Color} :
    w.pixelAt i j = .ok color ↔ (w.pixels[i]?.bind fun column => column[j]?) = some color := by
  unfold pixelAt
  cases w.pixels[i]?.bind fun column => column[j]? <;> simp

theorem exists_pixelAt {i j : Nat} (hi : i < w.width) (hj : j < w.rows) :
    ∃ color, w.pixelAt i j = .ok color := by
  have hcol : w.pixels[i]? = some w.pixels[i] := List.getElem?_eq_getElem hi
  have hlen : w.pixels[i].length = w.rows := w.columns _ (List.getElem_mem hi)
  refine ⟨w.pixels[i].get ⟨j, by omega⟩, ?_⟩
  rw [pixelAt_eq_ok, hcol]
  simp

theorem lt_of_pixelAt {i j : Nat} {color : Color} (h : w.pixelAt i j = .ok color) :
    i < w.width ∧ j < w.rows := by
  rw [pixelAt_eq_ok, Option.bind_eq_some_iff] at h
  obtain ⟨column, hcol, hcell⟩ := h
  obtain ⟨hi, heq⟩ := List.getElem?_eq_some_iff.mp hcol
  obtain ⟨hj, _⟩ := List.getElem?_eq_some_iff.mp hcell
  have hlen : column.length = w.rows := w.columns column (heq ▸ List.getElem_mem hi)
  exact ⟨hi, by omega⟩

/-- The clipped row of the per-pixel path draws only pixels that the window shows. -/
theorem mem_flushPixelRow {transparentColor : Color} {o : Nat} {b : UInt8}
    (htrans : w.transparentColor = some transparentColor) (hy : w.position.y ≤ y)
    (h : (o, b) ∈ (w.flushPixelRow g transparentColor y).effects) :
    w.position.x + w.width < usizeSize ∧ ∃ x < g.pixcelsPerScanLine, w.Shows x y ∧
      ∃ k < 4, o = (y * g.pixcelsPerScanLine + x) * 4 + k := by
  simp only [flushPixelRow, Emit.mem_need, usizeAdd_eq_ok] at h
  obtain ⟨_, ⟨hfit, rfl⟩, h⟩ := h
  obtain ⟨x, hx, h⟩ := Emit.mem_forEach h
  obtain ⟨color, hcolor, h⟩ := Emit.mem_need.mp h
  rw [mem_interval] at hx
  split at h
  · simp at h
  · rename_i hne
    refine ⟨hfit, x, by omega, ⟨hx.1, hy, color, hcolor, ?_⟩, PixcelWriter.mem_write h⟩
    rw [htrans, ne_eq, Option.some.injEq]
    exact fun heq => hne heq.symm

theorem byteIndex_eq_ok {stride i j c : Nat} :
    byteIndex stride i j = .ok c ↔ (i + j * stride) * 4 < usizeSize ∧ c = (i + j * stride) * 4 := by
  simp only [byteIndex, Rust.bind_eq_ok, usizeMul_eq_ok, usizeAdd_eq_ok]
  constructor
  · rintro ⟨_, ⟨_, rfl⟩, _, ⟨_, rfl⟩, hfit, rfl⟩
    exact ⟨hfit, rfl⟩
  · rintro ⟨hfit, rfl⟩
    exact ⟨_, ⟨by omega, rfl⟩, _, ⟨by omega, rfl⟩, hfit, rfl⟩

/-- A byte of a copied row belongs to the pixel four bytes wide in which it lies. -/
theorem mem_flushRow {xEnd o : Nat} {b : UInt8} (hsolid : w.transparentColor = none)
    (hwidth : xEnd ≤ w.position.x + w.width) (hclip : xEnd ≤ g.pixcelsPerScanLine)
    (hy : w.position.y ≤ y) (hrows : y < w.position.y + w.rows)
    (h : (o, b) ∈ (w.flushRow g w.position.x xEnd y).effects) :
    w.position.x ≤ xEnd ∧ ∃ x < g.pixcelsPerScanLine, w.Shows x y ∧
      ∃ k < 4, o = (y * g.pixcelsPerScanLine + x) * 4 + k := by
  simp only [flushRow, Emit.mem_need, Rust.bind_eq_ok, byteIndex_eq_ok, usizeMul_eq_ok,
    usizeSub_eq_ok] at h
  obtain ⟨_, ⟨_, rfl⟩, _, ⟨_, ⟨hle, rfl⟩, _, rfl⟩, _, _, _, _, row, _, h⟩ := h
  split at h
  · rename_i hlen
    simp only [Emit.emit_effects, PixcelWriter.mem_bytesAt] at h
    obtain ⟨k, hk, rfl⟩ := h
    obtain ⟨hklt, _⟩ := List.getElem?_eq_some_iff.mp hk
    have hx : k / 4 < xEnd - w.position.x := by omega
    obtain ⟨color, hcolor⟩ := exists_pixelAt (w := w) (i := k / 4) (j := y - w.position.y)
      (by omega) (by omega)
    refine ⟨hle, w.position.x + k / 4, by omega,
      ⟨by omega, hy, color, ?_, by rw [hsolid]; simp⟩, k % 4, by omega, by omega⟩
    rwa [Nat.add_sub_cancel_left]
  · simp at h

/-- Soundness of the clipping: what a flush writes are bytes of pixels the window
shows, left of the end of the scan line and above the horizontal resolution. -/
theorem mem_flush {o : Nat} {b : UInt8} (h : (o, b) ∈ (w.flush g).effects) :
    w.Flushable g ∧ ∃ x y, w.Shows x y ∧ x < g.pixcelsPerScanLine ∧
      y < g.horizontalResolution ∧ ∃ k < 4, o = (y * g.pixcelsPerScanLine + x) * 4 + k := by
  simp only [flush, Emit.mem_need, Rust.bind_eq_ok, height_eq_ok, usizeAdd_eq_ok] at h
  obtain ⟨_, ⟨_, ⟨hwidth, rfl⟩, hfit, rfl⟩, h⟩ := h
  cases htrans : w.transparentColor with
  | some transparentColor =>
      simp only [htrans] at h
      obtain ⟨y, hy, h⟩ := Emit.mem_forEach h
      rw [mem_interval] at hy
      obtain ⟨hx, x, hclip, hshows, hoffset⟩ := mem_flushPixelRow htrans hy.1 h
      exact ⟨⟨hwidth, hfit, fun _ => hx, fun h => by simp [htrans] at h⟩,
        x, y, hshows, hclip, by omega, hoffset⟩
  | none =>
      simp only [htrans, Emit.mem_need, usizeAdd_eq_ok] at h
      obtain ⟨_, ⟨hx, rfl⟩, h⟩ := h
      obtain ⟨y, hy, h⟩ := Emit.mem_forEach h
      rw [mem_interval] at hy
      obtain ⟨hle, x, hclip, hshows, hoffset⟩ := mem_flushRow htrans (by omega) (by omega)
        hy.1 (by omega) h
      exact ⟨⟨hwidth, hfit, fun _ => hx, fun _ => by omega⟩,
        x, y, hshows, hclip, by omega, hoffset⟩

/-- A window that flushes without a panic is one of the flushable ones. -/
theorem flushable_of_ended (h : (w.flush g).ended = none) : w.Flushable g := by
  simp only [flush, Emit.need_ended_eq_none, Rust.bind_eq_ok, height_eq_ok, usizeAdd_eq_ok] at h
  obtain ⟨_, ⟨_, ⟨hwidth, rfl⟩, hfit, rfl⟩, h⟩ := h
  -- a window with a row runs through the first round of its loop
  have hfirst : w.HasRow g → w.position.y ∈
      interval w.position.y (min (w.position.y + w.rows) g.horizontalResolution) :=
    fun hrow => mem_interval.mpr ⟨Nat.le_refl _, hrow⟩
  cases htrans : w.transparentColor with
  | some transparentColor =>
      simp only [htrans, Emit.forEach_ended_eq_none] at h
      refine ⟨hwidth, hfit, ?_, fun h => by simp [htrans] at h⟩
      rintro (hnone | hrow)
      · simp [htrans] at hnone
      · have hround := h _ (hfirst hrow)
        simp only [flushPixelRow, Emit.need_ended_eq_none, usizeAdd_eq_ok] at hround
        obtain ⟨_, ⟨hx, _⟩, _⟩ := hround
        exact hx
  | none =>
      simp only [htrans, Emit.need_ended_eq_none, usizeAdd_eq_ok,
        Emit.forEach_ended_eq_none] at h
      obtain ⟨_, ⟨hx, rfl⟩, h⟩ := h
      refine ⟨hwidth, hfit, fun _ => hx, ?_⟩
      rintro ⟨_, hrow⟩
      have hround := h _ (hfirst hrow)
      simp only [flushRow, Emit.need_ended_eq_none, Rust.bind_eq_ok, usizeSub_eq_ok] at hround
      obtain ⟨_, _, _, ⟨_, ⟨hle, _⟩, _⟩, _⟩ := hround
      omega

/-- A row of the per-pixel path, when nothing overflows. -/
theorem flushPixelRow_complete (fits : g.Fits) {transparentColor : Color}
    (hx : w.position.x + w.width < usizeSize) (hyres : y < g.horizontalResolution)
    (hrows : y - w.position.y < w.rows) :
    (w.flushPixelRow g transparentColor y).ended = none ∧
      ∀ x color, w.position.x ≤ x → x < g.pixcelsPerScanLine →
        w.pixelAt (x - w.position.x) (y - w.position.y) = .ok color → color ≠ transparentColor →
          ∃ b, ((y * g.pixcelsPerScanLine + x) * 4, b) ∈
            (w.flushPixelRow g transparentColor y).effects := by
  have hadd : usizeAdd w.position.x w.width = .ok (w.position.x + w.width) :=
    usizeAdd_eq_ok.mpr ⟨hx, rfl⟩
  have hround : ∀ x ∈ interval w.position.x (min (w.position.x + w.width) g.pixcelsPerScanLine),
      (Emit.need (w.pixelAt (x - w.position.x) (y - w.position.y)) fun color =>
        if color = transparentColor then .done else g.write x y color).ended = none := by
    intro x hmem
    rw [mem_interval] at hmem
    obtain ⟨color, hcolor⟩ := exists_pixelAt (w := w) (i := x - w.position.x) (by omega) hrows
    rw [hcolor, Emit.need_ok]
    split
    · rfl
    · rw [PixcelWriter.write_eq (fits.offset_lt hyres (by omega)), Emit.emit_ended]
  rw [flushPixelRow, hadd, Emit.need_ok]
  refine ⟨Emit.forEach_ended_eq_none.mpr hround, ?_⟩
  intro x color hle hclip hcolor hne
  have hlt := (lt_of_pixelAt hcolor).1
  rw [Emit.forEach_effects hround]
  refine ⟨(PixcelWriter.colorBytes g.pixcelFormat color)[0], List.mem_flatMap.mpr ⟨x, ?_, ?_⟩⟩
  · exact mem_interval.mpr ⟨hle, by omega⟩
  · rw [hcolor, Emit.need_ok, if_neg hne,
      PixcelWriter.write_eq (fits.offset_lt hyres (Nat.le_of_lt hclip)),
      Emit.emit_effects, PixcelWriter.mem_bytesAt]
    exact ⟨0, by simp, rfl⟩

/-- Row `j` of the byte buffer, up to column `q`, is inside the buffer. -/
theorem row_le_buffer {q j : Nat} (hq : q ≤ w.width) (hj : j < w.rows) :
    (q + j * w.width) * 4 ≤ w.buffer.length := by
  have hrow : (j + 1) * w.width ≤ w.rows * w.width := Nat.mul_le_mul_right w.width hj
  have hlen : w.buffer.length = w.width * w.rows * 4 := w.buffer_length
  rw [Nat.succ_mul] at hrow
  rw [hlen, Nat.mul_comm w.width w.rows]
  omega

theorem exists_bufferSlice (lo : Nat) {hi : Nat} (hle : lo ≤ hi) (hlen : hi ≤ w.buffer.length) :
    ∃ row, w.bufferSlice lo hi = .ok row ∧ row.length = hi - lo ∧
      ∀ k < hi - lo, row[k]? = w.buffer[lo + k]? := by
  refine ⟨_, if_pos ⟨hle, hlen⟩, ?_, ?_⟩
  · simp only [List.length_take, List.length_drop]
    omega
  · intro k hk
    rw [List.getElem?_take_of_lt hk, List.getElem?_drop]

/-- A row of the row-copy path, when nothing overflows: the bytes of the window's row
go to the frame buffer from the window's left edge on. -/
theorem flushRow_eq (xEnd : Nat)
    (hfit : (y * g.pixcelsPerScanLine + w.position.x) * 4 < usizeSize)
    (hle : w.position.x ≤ xEnd) (hwidth : xEnd ≤ w.position.x + w.width)
    (hrows : y - w.position.y < w.rows) :
    ∃ row : List UInt8, row.length = (xEnd - w.position.x) * 4 ∧
      (∀ k < row.length, row[k]? = w.buffer[(y - w.position.y) * w.width * 4 + k]?) ∧
      w.flushRow g w.position.x xEnd y =
        .emit (PixcelWriter.bytesAt ((w.position.x + y * g.pixcelsPerScanLine) * 4) row) := by
  have hbuffer := row_le_buffer (w := w) (q := xEnd - w.position.x) (by omega) hrows
  have hfits := w.buffer_fits
  have hoffset : byteIndex g.pixcelsPerScanLine w.position.x y = .ok _ :=
    byteIndex_eq_ok.mpr ⟨by omega, rfl⟩
  have hcount : usizeSub xEnd w.position.x = .ok _ := usizeSub_eq_ok.mpr ⟨hle, rfl⟩
  have hbytes : usizeMul (xEnd - w.position.x) 4 = .ok _ :=
    usizeMul_eq_ok.mpr ⟨by omega, rfl⟩
  have hlo : byteIndex w.width (w.position.x - w.position.x) (y - w.position.y) = .ok _ :=
    byteIndex_eq_ok.mpr ⟨by omega, rfl⟩
  have hhi : byteIndex w.width (xEnd - w.position.x) (y - w.position.y) = .ok _ :=
    byteIndex_eq_ok.mpr ⟨by omega, rfl⟩
  obtain ⟨row, hslice, hlen, hbyte⟩ := exists_bufferSlice (w := w)
    ((w.position.x - w.position.x + (y - w.position.y) * w.width) * 4) (by omega) hbuffer
  have hrow : row.length = (xEnd - w.position.x) * 4 := by omega
  refine ⟨row, hrow, ?_, ?_⟩
  · intro k hk
    rw [hbyte k (by omega), Nat.sub_self, Nat.zero_add]
  · rw [flushRow, hoffset, Emit.need_ok, hcount, Rust.ok_bind, hbytes, Emit.need_ok, hlo,
      Emit.need_ok, Rust.ok_bind, hhi, Emit.need_ok, hslice, Emit.need_ok, if_pos hrow]

theorem flushRow_complete (fits : g.Fits) (hx : w.position.x ≤ g.pixcelsPerScanLine)
    (hyres : y < g.horizontalResolution) (hrows : y - w.position.y < w.rows) :
    (w.flushRow g w.position.x (min (w.position.x + w.width) g.pixcelsPerScanLine) y).ended =
        none ∧
      ∀ x, w.position.x ≤ x → x < w.position.x + w.width → x < g.pixcelsPerScanLine →
        ∃ b, ((y * g.pixcelsPerScanLine + x) * 4, b) ∈
          (w.flushRow g w.position.x
            (min (w.position.x + w.width) g.pixcelsPerScanLine) y).effects := by
  obtain ⟨row, hlen, _, heq⟩ := flushRow_eq (w := w) (g := g) (y := y)
    (min (w.position.x + w.width) g.pixcelsPerScanLine) (fits.offset_lt hyres hx) (by omega)
    (by omega) hrows
  rw [heq]
  refine ⟨rfl, ?_⟩
  intro x hle hwidth hclip
  have hlt : (x - w.position.x) * 4 < row.length := by omega
  refine ⟨row.get ⟨_, hlt⟩, ?_⟩
  rw [Emit.emit_effects, PixcelWriter.mem_bytesAt]
  exact ⟨(x - w.position.x) * 4, List.getElem?_eq_getElem hlt, by omega⟩

/-- Where every row writes the pixels that are shown on it, so does the loop over the rows. -/
theorem forEach_complete {lo hi : Nat} {drawRow : Nat → Draw}
    (hrow : ∀ y ∈ interval lo hi, (drawRow y).ended = none ∧
      ∀ x, w.Shows x y → x < g.pixcelsPerScanLine →
        ∃ b, ((y * g.pixcelsPerScanLine + x) * 4, b) ∈ (drawRow y).effects)
    (hshown : ∀ x y, w.Shows x y → y < g.horizontalResolution → y ∈ interval lo hi) :
    (Emit.forEach (interval lo hi) drawRow).ended = none ∧
      ∀ x y, w.Shows x y → x < g.pixcelsPerScanLine → y < g.horizontalResolution →
        ∃ b, ((y * g.pixcelsPerScanLine + x) * 4, b) ∈
          (Emit.forEach (interval lo hi) drawRow).effects := by
  have hround : ∀ y ∈ interval lo hi, (drawRow y).ended = none := fun y hy => (hrow y hy).1
  refine ⟨Emit.forEach_ended_eq_none.mpr hround, ?_⟩
  intro x y hshows hclip hyres
  have hmem := hshown x y hshows hyres
  obtain ⟨b, hb⟩ := (hrow y hmem).2 x hshows hclip
  rw [Emit.forEach_effects hround]
  exact ⟨b, List.mem_flatMap.mpr ⟨y, hmem, hb⟩⟩

/-- Completeness of the clipping: a flushable window does not panic and writes every
pixel that it shows left of the scan line's end and above the horizontal resolution. -/
theorem flush_complete (fits : g.Fits) (hok : w.Flushable g) :
    (w.flush g).ended = none ∧
      ∀ x y, w.Shows x y → x < g.pixcelsPerScanLine → y < g.horizontalResolution →
        ∃ b, ((y * g.pixcelsPerScanLine + x) * 4, b) ∈ (w.flush g).effects := by
  obtain ⟨hwidth, hfit, hxfit, hleft⟩ := hok
  have hheight : w.height = .ok w.rows := height_eq_ok.mpr ⟨hwidth, rfl⟩
  have hyEnd : usizeAdd w.position.y w.rows = .ok (w.position.y + w.rows) :=
    usizeAdd_eq_ok.mpr ⟨hfit, rfl⟩
  have hrow : ∀ y ∈ interval w.position.y (min (w.position.y + w.rows) g.horizontalResolution),
      w.HasRow g ∧ y < g.horizontalResolution ∧ y - w.position.y < w.rows := by
    intro y hy
    rw [mem_interval] at hy
    exact ⟨by unfold HasRow; omega, by omega, by omega⟩
  have hshown : ∀ x y, w.Shows x y → y < g.horizontalResolution →
      y ∈ interval w.position.y (min (w.position.y + w.rows) g.horizontalResolution) := by
    rintro x y ⟨_, hy, color, hcolor, _⟩ hyres
    have := (lt_of_pixelAt hcolor).2
    exact mem_interval.mpr ⟨hy, by omega⟩
  rw [flush, hheight, Rust.ok_bind, hyEnd, Emit.need_ok]
  cases htrans : w.transparentColor with
  | some transparentColor =>
      refine forEach_complete (fun y hy => ?_) hshown
      obtain ⟨hhas, hyres, hrows⟩ := hrow y hy
      obtain ⟨hended, hpixels⟩ := flushPixelRow_complete
        fits (hxfit (.inr hhas)) hyres hrows
      refine ⟨hended, ?_⟩
      rintro x ⟨hle, _, color, hcolor, hne⟩ hclip
      rw [htrans, ne_eq, Option.some.injEq] at hne
      exact hpixels x color hle hclip hcolor fun heq => hne heq.symm
  | none =>
      have hxEnd : usizeAdd w.position.x w.width = .ok (w.position.x + w.width) :=
        usizeAdd_eq_ok.mpr ⟨hxfit (.inl htrans), rfl⟩
      dsimp only
      rw [hxEnd, Emit.need_ok]
      refine forEach_complete (fun y hy => ?_) hshown
      obtain ⟨hhas, hyres, hrows⟩ := hrow y hy
      obtain ⟨hended, hpixels⟩ := flushRow_complete fits (hleft ⟨htrans, hhas⟩) hyres hrows
      refine ⟨hended, ?_⟩
      rintro x ⟨hle, _, color, hcolor, _⟩ hclip
      have hwide := (lt_of_pixelAt hcolor).1
      exact hpixels x hle (by omega) hclip

end Window

namespace LayerManager

/-- Layer `id` is in the stack and every layer below it is there and can be flushed. -/
def Reaches (m : LayerManager) (layer : Layer) : Prop :=
  ∃ below id above, m.layerStack = below ++ id :: above ∧ m.layers id = some layer ∧
    layer.window.Flushable m.writer ∧
    ∀ i ∈ below, ∃ l, m.layers i = some l ∧ l.window.Flushable m.writer

/-- Some window that the flush comes to shows a pixel, left of the end of the scan
line, on a row between the vertical and the horizontal resolution. -/
def DrawsBelow (m : LayerManager) : Prop :=
  ∃ layer, m.Reaches layer ∧ ∃ x y, layer.window.Shows x y ∧ x < m.writer.pixcelsPerScanLine ∧
    m.writer.verticalResolution ≤ y ∧ y < m.writer.horizontalResolution

/-- Nothing is written outside the frame buffer. -/
def WritesInside (m : LayerManager) : Prop :=
  ∀ o b, (o, b) ∈ m.flush.effects → o < m.writer.frameBufferLen

theorem flushable_of_flushLayer_ended {m : LayerManager} {id : LayerId}
    (h : (m.flushLayer id).ended = none) :
    ∃ l, m.layers id = some l ∧ l.window.Flushable m.writer := by
  unfold flushLayer at h
  split at h
  · simp at h
  · rename_i layer hlayer
    exact ⟨layer, hlayer, Window.flushable_of_ended h⟩

/-- A byte outside the frame buffer is a byte of a pixel below the last row. -/
theorem writesInside_of_not_drawsBelow {m : LayerManager} (h : ¬ m.DrawsBelow) :
    m.WritesInside := by
  intro o b hmem
  obtain ⟨below, id, above, hstack, hbelow, hmem⟩ := Emit.mem_forEach_split.mp hmem
  unfold flushLayer at hmem
  split at hmem
  · simp at hmem
  · rename_i layer hlayer
    obtain ⟨hok, x, y, hshows, hclip, hyres, k, hk, rfl⟩ := Window.mem_flush hmem
    rw [m.writer.offset_lt_iff hclip hk]
    by_contra hy
    exact h ⟨layer, ⟨below, id, above, hstack, hlayer, hok,
      fun i hi => flushable_of_flushLayer_ended (hbelow i hi)⟩,
      x, y, hshows, hclip, Nat.le_of_not_lt hy, hyres⟩

theorem not_drawsBelow_of_writesInside {m : LayerManager} (fits : m.writer.Fits)
    (h : m.WritesInside) : ¬ m.DrawsBelow := by
  rintro ⟨layer, ⟨below, id, above, hstack, hlayer, hok, hbelow⟩, x, y, hshows, hclip, hy, hyres⟩
  obtain ⟨b, hb⟩ := (Window.flush_complete fits hok).2 x y hshows hclip hyres
  have hwritten : ((y * m.writer.pixcelsPerScanLine + x) * 4, b) ∈ m.flush.effects := by
    refine Emit.mem_forEach_split.mpr ⟨below, id, above, hstack, ?_, ?_⟩
    · intro i hi
      obtain ⟨l, hl, hlok⟩ := hbelow i hi
      simp only [flushLayer, hl]
      exact (Window.flush_complete fits hlok).1
    · simpa only [flushLayer, hlayer] using hb
  have hinside := (m.writer.offset_lt_iff (y := y) hclip (k := 0) (by decide)).mp (h _ _ hwritten)
  omega

/-- Flushing stays inside the frame buffer when no reached window shows a pixel on a
row between the two resolutions and, on every screen whose offsets fit in a word,
only then. -/
theorem flush_inside_iff (m : LayerManager) :
    (¬ m.DrawsBelow → m.WritesInside) ∧ (m.writer.Fits → (m.WritesInside ↔ ¬ m.DrawsBelow)) :=
  ⟨writesInside_of_not_drawsBelow, fun fits =>
    ⟨not_drawsBelow_of_writesInside fits, writesInside_of_not_drawsBelow⟩⟩

/-- A 4 by 2 screen with an opaque 1 by 1 window moved to just below its last row. -/
def belowScreen : Rust LayerManager := do
  let window ← Window.new 1 1 .rgb none ⟨0, 0⟩
  let (id, m) ← (LayerManager.new ⟨4, 4, 2, .rgb⟩).newLayer window
  return m.moveLayer id ⟨0, 2⟩

theorem belowScreen_not_inside : ∃ m, belowScreen = .ok m ∧
    m.writer.horizontalResolution ≤ m.writer.pixcelsPerScanLine ∧ ¬ m.WritesInside := by
  refine ⟨_, rfl, by decide, ?_⟩
  intro hinside
  -- the flush writes the four bytes at offsets 32 to 35 of a frame buffer of 32 bytes
  exact absurd (hinside 32 0 (List.mem_cons_self (l := [(33, 0), (34, 0), (35, 0)]))) (by decide)

end LayerManager

end LemolaOs.Graphics
