import LemolaOs.KernelLib.Compositing

/-!
# The row-copy path beside the per-pixel path

An opaque window is flushed by copying rows of its byte buffer. `Window.flushPlain`
draws the same clipped ranges pixel by pixel, as the path of the other windows does.
Where the window begins to the right of the scan line the second loop is empty, and
the first takes the difference of its bounds the wrong way round.

`copiesLikePlain_iff` says when the two paths are the same: they end alike and leave
the same colour bytes. The fourth byte of a pixel is copied but never drawn.
-/

namespace LemolaOs.Graphics

/-- The bytes of a pixel that hold its colour. -/
def IsColorByte (offset : Nat) : Prop := offset % 4 ≠ 3

namespace Window

/-- One row of the ranges of the row-copy path, pixel by pixel. -/
def plainRow (w : Window) (g : PixcelWriter) (xStart xEnd y : Nat) : Draw :=
  .forEach (interval xStart xEnd) fun x =>
    .need (w.pixelAt (x - w.position.x) (y - w.position.y)) fun color => g.write x y color

/-- The ranges of the row-copy path, pixel by pixel. -/
def flushPlain (w : Window) (g : PixcelWriter) : Draw :=
  .need (do usizeAdd w.position.y (← w.height)) fun yEnd =>
    .need (usizeAdd w.position.x w.width) fun xEnd =>
      .forEach (interval w.position.y (min yEnd g.horizontalResolution)) fun y =>
        w.plainRow g w.position.x (min xEnd g.pixcelsPerScanLine) y

/-- The flush ends as drawing pixel by pixel does, and leaves the same colours. -/
def CopiesLikePlain (w : Window) (g : PixcelWriter) : Prop :=
  (w.flush g).SameAt IsColorByte (w.flushPlain g)

/-- One row: the window begins left of the end of the scan line and the row does not reach
over the end of the address space, or it begins at the end of the scan line and the offset of
that end is a word. -/
def RowFits (w : Window) (g : PixcelWriter) (y : Nat) : Prop :=
  w.position.x < g.pixcelsPerScanLine ∧
      ((y * g.pixcelsPerScanLine + w.position.x) * 4 < usizeSize →
        (y * g.pixcelsPerScanLine + min (w.position.x + w.width) g.pixcelsPerScanLine) * 4 ≤
          usizeSize) ∨
    w.position.x = g.pixcelsPerScanLine ∧
      (y * g.pixcelsPerScanLine + w.position.x) * 4 < usizeSize

variable {w : Window} {g : PixcelWriter} {xEnd y : Nat}

/-- A row of the per-pixel path, when nothing overflows. -/
theorem plainRow_effects
    (hfit : ∀ x ∈ interval w.position.x xEnd, (y * g.pixcelsPerScanLine + x) * 4 < usizeSize)
    (hwidth : xEnd ≤ w.position.x + w.width) (hrows : y - w.position.y < w.rows) :
    (w.plainRow g w.position.x xEnd y).ended = none ∧
      ∀ o b, (o, b) ∈ (w.plainRow g w.position.x xEnd y).effects ↔
        ∃ x ∈ interval w.position.x xEnd, ∃ color,
          w.pixelAt (x - w.position.x) (y - w.position.y) = .ok color ∧
          ∃ k, (PixcelWriter.colorBytes g.pixcelFormat color)[k]? = some b ∧
            o = (y * g.pixcelsPerScanLine + x) * 4 + k := by
  have hround : ∀ x ∈ interval w.position.x xEnd, ∃ color,
      w.pixelAt (x - w.position.x) (y - w.position.y) = .ok color ∧
      Emit.need (w.pixelAt (x - w.position.x) (y - w.position.y)) (fun color => g.write x y color) =
        .emit (PixcelWriter.bytesAt ((y * g.pixcelsPerScanLine + x) * 4)
          (PixcelWriter.colorBytes g.pixcelFormat color)) := by
    intro x hmem
    have hx := mem_interval.mp hmem
    obtain ⟨color, hcolor⟩ := exists_pixelAt (w := w) (i := x - w.position.x) (by omega) hrows
    rw [hcolor, Emit.need_ok, PixcelWriter.write_eq (hfit x hmem)]
    exact ⟨color, rfl, rfl⟩
  have hended : ∀ x ∈ interval w.position.x xEnd,
      (Emit.need (w.pixelAt (x - w.position.x) (y - w.position.y))
        (fun color => g.write x y color)).ended = none := by
    intro x hmem
    obtain ⟨color, _, heq⟩ := hround x hmem
    rw [heq, Emit.emit_ended]
  refine ⟨Emit.forEach_ended_eq_none.mpr hended, ?_⟩
  intro o b
  rw [plainRow, Emit.mem_forEach_iff hended]
  constructor
  · rintro ⟨x, hmem, h⟩
    obtain ⟨color, hcolor, heq⟩ := hround x hmem
    rw [heq, Emit.emit_effects, PixcelWriter.mem_bytesAt] at h
    exact ⟨x, hmem, color, hcolor, h⟩
  · rintro ⟨x, hmem, color, hcolor, h⟩
    obtain ⟨color', hcolor', heq⟩ := hround x hmem
    obtain rfl := Except.ok.inj (hcolor.symm.trans hcolor')
    refine ⟨x, hmem, ?_⟩
    rwa [heq, Emit.emit_effects, PixcelWriter.mem_bytesAt]

/-- The bytes of a copied row are those of its pixels. -/
theorem sameAt_row (hmirror : w.Mirrored) (hformat : w.renderingHandler = g.pixcelFormat)
    (hle : w.position.x ≤ xEnd) (hwidth : xEnd ≤ w.position.x + w.width)
    (hrows : y - w.position.y < w.rows)
    (hbase : (y * g.pixcelsPerScanLine + w.position.x) * 4 < usizeSize)
    (hend : (y * g.pixcelsPerScanLine + xEnd) * 4 ≤ usizeSize) :
    (w.flushRow g w.position.x xEnd y).SameAt IsColorByte
      (w.plainRow g w.position.x xEnd y) := by
  obtain ⟨row, hlen, hbytes, heq⟩ := flushRow_mirrored hmirror hformat hbase hle hwidth hrows
  have hfit : ∀ x ∈ interval w.position.x xEnd,
      (y * g.pixcelsPerScanLine + x) * 4 < usizeSize := by
    intro x hx
    rw [mem_interval] at hx
    omega
  obtain ⟨hended, hplain⟩ := plainRow_effects hfit hwidth hrows
  rw [heq]
  refine .of_mem hended.symm ?_ ?_
  · intro o b ho
    rw [Emit.emit_effects, PixcelWriter.mem_bytesAt, hplain]
    constructor
    · rintro ⟨q, hq, rfl⟩
      obtain ⟨hqlt, _⟩ := List.getElem?_eq_some_iff.mp hq
      have hk : q % 4 < 3 := by
        unfold IsColorByte at ho
        omega
      obtain ⟨color, hcolor⟩ := exists_pixelAt (w := w) (i := q / 4) (j := y - w.position.y)
        (by omega) hrows
      refine ⟨w.position.x + q / 4, mem_interval.mpr (by omega), color, ?_, q % 4, ?_, by omega⟩
      · rwa [Nat.add_sub_cancel_left]
      · rw [← hbytes _ _ _ (by omega) hk hcolor, ← hq]
        congr 1
        omega
    · rintro ⟨x, hx, color, hcolor, k, hk, rfl⟩
      rw [mem_interval] at hx
      obtain ⟨hlt, _⟩ := List.getElem?_eq_some_iff.mp hk
      rw [PixcelWriter.length_colorBytes] at hlt
      refine ⟨(x - w.position.x) * 4 + k, ?_, by omega⟩
      rw [hbytes _ _ _ (by omega) hlt hcolor, hk]
  · intro o b b' hb hb'
    rw [Emit.emit_effects, PixcelWriter.mem_bytesAt] at hb hb'
    obtain ⟨q, hq, rfl⟩ := hb
    obtain ⟨q', hq', ho⟩ := hb'
    obtain rfl : q = q' := by omega
    rw [hq, Option.some.injEq] at hq'
    exact hq'

/-- A sum and a product that fail can only have overflowed. -/
theorem byteIndex_overflow {stride i j : Nat} (h : usizeSize ≤ (i + j * stride) * 4) :
    byteIndex stride i j = .error .overflow := by
  by_cases hrow : j * stride < usizeSize
  · rw [byteIndex, usizeMul_eq_ok.mpr ⟨hrow, rfl⟩, Rust.ok_bind]
    by_cases hsum : i + j * stride < usizeSize
    · rw [usizeAdd_eq_ok.mpr ⟨hsum, rfl⟩, Rust.ok_bind]
      exact if_neg (Nat.not_lt.mpr h)
    · rw [usizeAdd, if_neg hsum]
      rfl
  · rw [byteIndex, usizeMul, if_neg hrow]
    rfl

theorem write_overflow {x : Nat} (color : Color)
    (h : usizeSize ≤ (y * g.pixcelsPerScanLine + x) * 4) : g.write x y color = .stop .overflow := by
  rw [PixcelWriter.write, PixcelWriter.getOffset]
  by_cases hrow : y * g.pixcelsPerScanLine < usizeSize
  · rw [usizeMul_eq_ok.mpr ⟨hrow, rfl⟩, Rust.ok_bind]
    by_cases hsum : y * g.pixcelsPerScanLine + x < usizeSize
    · rw [usizeAdd_eq_ok.mpr ⟨hsum, rfl⟩, Emit.need_ok, usizeMul, if_neg (Nat.not_lt.mpr h)]
      rfl
    · rw [usizeAdd, if_neg hsum]
      rfl
  · rw [usizeMul, if_neg hrow]
    rfl

/-- Where the first byte of a row is outside the address space both paths stop. -/
theorem sameAt_row_overflow (hlt : w.position.x < xEnd) (hwidth : xEnd ≤ w.position.x + w.width)
    (hrows : y - w.position.y < w.rows)
    (hbase : usizeSize ≤ (y * g.pixcelsPerScanLine + w.position.x) * 4) :
    (w.flushRow g w.position.x xEnd y).SameAt IsColorByte
      (w.plainRow g w.position.x xEnd y) := by
  have hfast : w.flushRow g w.position.x xEnd y = .stop .overflow := by
    rw [flushRow, byteIndex_overflow (by omega), Emit.need_error]
  have hplain : w.plainRow g w.position.x xEnd y = .stop .overflow := by
    obtain ⟨color, hcolor⟩ := exists_pixelAt (w := w) (i := w.position.x - w.position.x)
      (j := y - w.position.y) (by omega) hrows
    obtain ⟨n, hn⟩ : ∃ n, xEnd - w.position.x = n + 1 := ⟨xEnd - w.position.x - 1, by omega⟩
    rw [plainRow, interval, hn, List.range'_succ, Emit.forEach_cons, hcolor, Emit.need_ok,
      write_overflow color hbase]
    rfl
  rw [hfast, hplain]
  exact .refl _ _

theorem RowFits.sameAt (hfit : w.RowFits g y) (hmirror : w.Mirrored)
    (hformat : w.renderingHandler = g.pixcelFormat) (hwidth : 0 < w.width)
    (hrows : y - w.position.y < w.rows) :
    (w.flushRow g w.position.x (min (w.position.x + w.width) g.pixcelsPerScanLine) y).SameAt
      IsColorByte
      (w.plainRow g w.position.x (min (w.position.x + w.width) g.pixcelsPerScanLine) y) := by
  rcases hfit with ⟨hleft, hend⟩ | ⟨hright, hbase⟩
  · by_cases hbase : (y * g.pixcelsPerScanLine + w.position.x) * 4 < usizeSize
    · exact sameAt_row hmirror hformat (by omega) (by omega) hrows hbase (hend hbase)
    · exact sameAt_row_overflow (by omega) (by omega) hrows (Nat.le_of_not_lt hbase)
  · refine sameAt_row hmirror hformat (by omega) (by omega) hrows hbase ?_
    have hend : min (w.position.x + w.width) g.pixcelsPerScanLine = w.position.x := by omega
    rw [hend]
    exact Nat.le_of_lt hbase

/-- The per-pixel path draws nothing of a window that begins at or behind the end of the
scan line. -/
theorem plainRow_of_le (h : g.pixcelsPerScanLine ≤ w.position.x) :
    w.plainRow g w.position.x (min (w.position.x + w.width) g.pixcelsPerScanLine) y = .done := by
  have hempty : min (w.position.x + w.width) g.pixcelsPerScanLine - w.position.x = 0 := by omega
  rw [plainRow, interval, hempty]
  rfl

/-- No byte that is drawn pixel by pixel is outside the address space. -/
theorem mem_plainRow_lt {o : Nat} {b : UInt8}
    (h : (o, b) ∈ (w.plainRow g w.position.x xEnd y).effects) : o < usizeSize := by
  obtain ⟨x, _, h⟩ := Emit.mem_forEach h
  obtain ⟨color, _, h⟩ := Emit.mem_need.mp h
  by_cases hfit : (y * g.pixcelsPerScanLine + x) * 4 < usizeSize
  · rw [PixcelWriter.write_eq hfit, Emit.emit_effects, PixcelWriter.mem_bytesAt] at h
    obtain ⟨k, hk, rfl⟩ := h
    obtain ⟨hlt, _⟩ := List.getElem?_eq_some_iff.mp hk
    rw [PixcelWriter.length_colorBytes] at hlt
    simp only [usizeSize] at hfit ⊢
    omega
  · rw [write_overflow color (Nat.le_of_not_lt hfit)] at h
    simp at h

/-- The two paths after their sums, which are the same. -/
theorem flush_eq (hsolid : w.transparentColor = none) (hwidth : 0 < w.width)
    (hy : w.position.y + w.rows < usizeSize) (hx : w.position.x + w.width < usizeSize) :
    w.flush g = .forEach
      (interval w.position.y (min (w.position.y + w.rows) g.horizontalResolution))
      (w.flushRow g w.position.x (min (w.position.x + w.width) g.pixcelsPerScanLine)) ∧
    w.flushPlain g =
      .forEach (interval w.position.y (min (w.position.y + w.rows) g.horizontalResolution))
        (w.plainRow g w.position.x (min (w.position.x + w.width) g.pixcelsPerScanLine)) := by
  have hheight : w.height = .ok w.rows := height_eq_ok.mpr ⟨hwidth, rfl⟩
  have hyEnd : usizeAdd w.position.y w.rows = .ok _ := usizeAdd_eq_ok.mpr ⟨hy, rfl⟩
  have hxEnd : usizeAdd w.position.x w.width = .ok _ := usizeAdd_eq_ok.mpr ⟨hx, rfl⟩
  rw [flush, flushPlain, hheight, Rust.ok_bind, hyEnd, Emit.need_ok, Emit.need_ok, hxEnd,
    Emit.need_ok, hsolid]
  exact ⟨rfl, rfl⟩

/-- A sum that overflows stops both paths before their first write. -/
theorem flush_eq_stop (hsolid : w.transparentColor = none) (hwidth : 0 < w.width)
    (h : usizeSize ≤ w.position.y + w.rows ∨ usizeSize ≤ w.position.x + w.width) :
    w.flush g = .stop .overflow ∧ w.flushPlain g = .stop .overflow := by
  have hheight : w.height = .ok w.rows := height_eq_ok.mpr ⟨hwidth, rfl⟩
  by_cases hy : w.position.y + w.rows < usizeSize
  · have hyEnd : usizeAdd w.position.y w.rows = .ok _ := usizeAdd_eq_ok.mpr ⟨hy, rfl⟩
    have hxEnd : usizeAdd w.position.x w.width = .error .overflow := if_neg (by omega)
    rw [flush, flushPlain, hheight, Rust.ok_bind, hyEnd, Emit.need_ok, Emit.need_ok, hxEnd, hsolid]
    exact ⟨rfl, rfl⟩
  · have hyEnd : usizeAdd w.position.y w.rows = .error .overflow := if_neg hy
    rw [flush, flushPlain, hheight, Rust.ok_bind, hyEnd]
    exact ⟨rfl, rfl⟩

/-- At or behind the end of the scan line nothing is drawn pixel by pixel, so the copy must
not stop either. -/
theorem rowFits_of_ended {rows : List Nat} (hle : g.pixcelsPerScanLine ≤ w.position.x)
    (hsame : (Emit.forEach rows (w.flushRow g w.position.x
        (min (w.position.x + w.width) g.pixcelsPerScanLine))).SameAt IsColorByte
      (.forEach rows (w.plainRow g w.position.x
        (min (w.position.x + w.width) g.pixcelsPerScanLine))))
    (hy : y ∈ rows) : w.RowFits g y := by
  have hplain : (Emit.forEach rows (w.plainRow g w.position.x
      (min (w.position.x + w.width) g.pixcelsPerScanLine))).ended = none := by
    refine Emit.forEach_ended_eq_none.mpr fun row _ => ?_
    rw [plainRow_of_le hle, Emit.done_ended]
  have hround := Emit.forEach_ended_eq_none.mp (hsame.ended.trans hplain) y hy
  simp only [flushRow, Emit.need_ended_eq_none, Rust.bind_eq_ok, usizeSub_eq_ok,
    byteIndex_eq_ok] at hround
  obtain ⟨_, ⟨hbase, _⟩, _, ⟨_, ⟨hsub, _⟩, _⟩, _⟩ := hround
  exact .inr ⟨by omega, by omega⟩

theorem interval_split {lo hi : Nat} (hlo : lo ≤ y) (hhi : y < hi) :
    interval lo hi = interval lo y ++ y :: interval (y + 1) hi := by
  have hrest : hi - lo = y - lo + (hi - (y + 1) + 1) := by omega
  rw [interval, interval, interval, hrest, ← List.range'_append_1, List.range'_succ,
    Nat.add_sub_cancel' hlo]

/-- What a row writes is written by the loop if the rows before it do not stop. -/
theorem mem_forEach_interval {lo hi : Nat} {drawRow : Nat → Draw} {o : Nat × UInt8}
    (hy : y ∈ interval lo hi) (hbefore : ∀ row, lo ≤ row → row < y → (drawRow row).ended = none)
    (hmem : o ∈ (drawRow y).effects) : o ∈ (Emit.forEach (interval lo hi) drawRow).effects := by
  rw [mem_interval] at hy
  refine Emit.mem_forEach_split.mpr ⟨_, y, _, interval_split hy.1 hy.2, ?_, hmem⟩
  intro row hrow
  rw [mem_interval] at hrow
  exact hbefore row hrow.1 hrow.2

/-- A row that begins inside the address space and ends outside is copied whole, while the
per-pixel path stops at the end. -/
theorem rowFits_of_sameAt {lo hi : Nat} (hlt : w.position.x < g.pixcelsPerScanLine)
    (hlo : lo = w.position.y) (hhi : hi ≤ w.position.y + w.rows)
    (hsame : (Emit.forEach (interval lo hi) (w.flushRow g w.position.x
        (min (w.position.x + w.width) g.pixcelsPerScanLine))).SameAt IsColorByte
      (.forEach (interval lo hi) (w.plainRow g w.position.x
        (min (w.position.x + w.width) g.pixcelsPerScanLine))))
    (hy : y ∈ interval lo hi) : w.RowFits g y := by
  refine .inl ⟨hlt, ?_⟩
  intro hbase
  by_contra hover
  have hrange := mem_interval.mp hy
  have hcopy : ∀ row ≤ y, lo ≤ row → ∃ bytes : List UInt8,
      bytes.length = (min (w.position.x + w.width) g.pixcelsPerScanLine - w.position.x) * 4 ∧
      w.flushRow g w.position.x (min (w.position.x + w.width) g.pixcelsPerScanLine) row =
        .emit (PixcelWriter.bytesAt ((w.position.x + row * g.pixcelsPerScanLine) * 4) bytes) := by
    intro row hrow hrowlo
    have hmul := Nat.mul_le_mul_right g.pixcelsPerScanLine hrow
    obtain ⟨bytes, hlen, _, heq⟩ := flushRow_eq (w := w) (g := g) (y := row)
      (min (w.position.x + w.width) g.pixcelsPerScanLine) (by omega) (by omega) (by omega)
      (by omega)
    exact ⟨bytes, hlen, heq⟩
  -- the first byte of the last pixel of the row
  obtain ⟨last, hlast⟩ : ∃ last,
      min (w.position.x + w.width) g.pixcelsPerScanLine = last + 1 :=
    ⟨min (w.position.x + w.width) g.pixcelsPerScanLine - 1, by omega⟩
  have hout : usizeSize ≤ (y * g.pixcelsPerScanLine + last) * 4 := by
    simp only [usizeSize] at hover ⊢
    omega
  obtain ⟨b, hwritten⟩ : ∃ b, ((y * g.pixcelsPerScanLine + last) * 4, b) ∈
      (Emit.forEach (interval lo hi) (w.flushRow g w.position.x
        (min (w.position.x + w.width) g.pixcelsPerScanLine))).effects := by
    obtain ⟨bytes, hlen, heq⟩ := hcopy y (Nat.le_refl y) hrange.1
    have hbyte : (last - w.position.x) * 4 < bytes.length := by omega
    refine ⟨bytes.get ⟨_, hbyte⟩, mem_forEach_interval hy ?_ ?_⟩
    · intro row hrowlo hrow
      obtain ⟨_, _, heq⟩ := hcopy row (Nat.le_of_lt hrow) hrowlo
      rw [heq, Emit.emit_ended]
    · rw [heq, Emit.emit_effects, PixcelWriter.mem_bytesAt]
      exact ⟨_, List.getElem?_eq_getElem hbyte, by omega⟩
  have hcolor : IsColorByte ((y * g.pixcelsPerScanLine + last) * 4) := by
    unfold IsColorByte
    omega
  have : Nontrivial UInt8 := ⟨0, 1, by decide⟩
  obtain ⟨b', hmem⟩ := hsame.exists_mem hcolor hwritten
  obtain ⟨row, _, hmem⟩ := Emit.mem_forEach hmem
  exact absurd (mem_plainRow_lt hmem) (Nat.not_lt.mpr hout)

/-- Copying the rows of an opaque window is drawing it pixel by pixel exactly if every row fits
that is drawn. Where a sum of position and size overflows none is: both paths stop there. -/
theorem copiesLikePlain_iff (w : Window) (hw : w.Drawn) (hsolid : w.transparentColor = none)
    (hwidth : 0 < w.width) (g : PixcelWriter) (hformat : w.renderingHandler = g.pixcelFormat) :
    w.CopiesLikePlain g ↔
      (w.position.y + w.rows < usizeSize → w.position.x + w.width < usizeSize →
        ∀ y, w.position.y ≤ y → y < min (w.position.y + w.rows) g.horizontalResolution →
          w.RowFits g y) := by
  have hmirror := hw.mirrored hsolid
  rw [CopiesLikePlain]
  by_cases hsums : w.position.y + w.rows < usizeSize ∧ w.position.x + w.width < usizeSize
  · obtain ⟨hy, hx⟩ := hsums
    obtain ⟨hflush, hplain⟩ := flush_eq (g := g) hsolid hwidth hy hx
    rw [hflush, hplain]
    constructor
    · intro hsame _ _ y hlo hhi
      have hmem := mem_interval.mpr ⟨hlo, hhi⟩
      rcases Nat.lt_or_ge w.position.x g.pixcelsPerScanLine with hlt | hle
      · exact rowFits_of_sameAt hlt rfl (by omega) hsame hmem
      · exact rowFits_of_ended hle hsame hmem
    · intro hfits
      refine .forEach fun y hmem => ?_
      rw [mem_interval] at hmem
      exact (hfits hy hx y hmem.1 hmem.2).sameAt hmirror hformat hwidth (by omega)
  · obtain ⟨hflush, hplain⟩ := flush_eq_stop (g := g) hsolid hwidth (by omega)
    rw [hflush, hplain]
    refine ⟨fun _ hy hx => absurd ⟨hy, hx⟩ hsums, fun _ => .refl _ _⟩

/-- A 2 by 2 window in the middle of a 4 by 4 screen. -/
theorem copiesLikePlain_iff_middle : ∃ w, Window.new 2 2 .rgb none ⟨1, 1⟩ = .ok w ∧
    w.CopiesLikePlain ⟨4, 4, 4, .rgb⟩ := by
  refine ⟨_, rfl, ?_⟩
  have hnew : Window.new 2 2 .rgb none ⟨1, 1⟩ = .ok _ := rfl
  refine (copiesLikePlain_iff _ (.new hnew) rfl (by decide) _ rfl).mpr ?_
  intro _ _ y hlo hhi
  have hy : 1 ≤ y ∧ y < 3 := ⟨hlo, hhi⟩
  refine .inl ⟨by decide, fun _ => ?_⟩
  change (y * 4 + 3) * 4 ≤ usizeSize
  simp only [usizeSize]
  omega

/-- A window to the right of the screen: there is nothing to draw, but the difference of the
bounds underflows. -/
theorem right_of_screen_not_like_plain : ∃ w, Window.new 1 1 .rgb none ⟨5, 0⟩ = .ok w ∧
    ¬ w.CopiesLikePlain ⟨4, 4, 4, .rgb⟩ := by
  refine ⟨_, rfl, ?_⟩
  intro hsame
  have hended : some Panic.overflow = none := hsame.ended
  cases hended

end Window

end LemolaOs.Graphics
