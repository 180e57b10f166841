import LemolaOs.Kernel.Desktop

/-!
# What the user sees

The layers are flushed after every event of the host controller, and by one poll of the game in a
hundred thousand. What is then on the screen is decided by the `View` alone: the arrow of the
cursor, from the strings it is written down in, over the board as it was last drawn, over whatever
the console left. `topColor_eq` is that picture as the layers have it, and `flush_shows_desktop`
brings it to the bytes of the frame buffer.
-/

namespace LemolaOs.Kernel

open Graphics MouseCursor Lifegame Usb.Callbacks

/-- What the cursor covers: nothing where its strings have a blank. -/
def cursorColor (cursor : Nat × Nat) (x y : Nat) : Option Color :=
  if (cursor.1 ≤ x ∧ x < cursor.1 + mouseCursorWidth) ∧
      cursor.2 ≤ y ∧ y < cursor.2 + mouseCursorHeight then
    match charAt mouseCursorStrings (x - cursor.1) (y - cursor.2) with
    | some '@' => some .black
    | some '.' => some .white
    | _ => none
  else none

/-- What the window of the game covers. -/
def boardColor (shown : Option Life) (x y : Nat) : Option Color :=
  if x < size * pixcelSize ∧ y < size * pixcelSize then some (lifeColor shown x y) else none

/-- The window of the game, which is not there before the game is polled. -/
def View.windowColor (v : View) (x y : Nat) : Option Color :=
  match v.phase with
  | .unpolled => none
  | _ => boardColor v.shown x y

/-- The picture that the view stands for. -/
def View.screenColor (v : View) (x y : Nat) : Option Color :=
  (cursorColor v.cursor x y).or (v.windowColor x y)

/-- The cursor and the board lie on the screen. -/
structure OnScreen (g : PixcelWriter) (cursor : Nat × Nat) : Prop where
  boardRight : size * pixcelSize ≤ g.pixcelsPerScanLine
  boardBottom : size * pixcelSize ≤ min g.horizontalResolution g.verticalResolution
  cursorRight : cursor.1 + mouseCursorWidth ≤ g.pixcelsPerScanLine
  cursorBottom : cursor.2 + mouseCursorHeight ≤ min g.horizontalResolution g.verticalResolution

variable {g : PixcelWriter} {m : LayerManager} {cursor : Nat × Nat} {shown : Option Life}
  {w : Window} {x y : Nat}

/-- A pixel of the cursor, by its character. -/
theorem filter_pixelOfChar {c : Char} {pixel : MouseCursorPixel} (h : pixelOfChar c = .ok pixel) :
    ((some pixel.color).filter fun color =>
        some MouseCursorPixel.backGround.color ≠ some color) =
      match some c with
      | some '@' => some .black
      | some '.' => some .white
      | _ => none := by
  unfold pixelOfChar at h
  split at h <;> cases h <;> rfl

theorem colorAt_cursorWindow (h : CursorWindow g ⟨cursor.1, cursor.2⟩ w) (x y : Nat) :
    w.colorAt x y = cursorColor cursor x y := by
  have hposition : w.position.x = cursor.1 ∧ w.position.y = cursor.2 := by
    rw [h.position]
    exact ⟨rfl, rfl⟩
  rw [cursorColor]
  split
  next hin =>
    have hx : x - cursor.1 < mouseCursorWidth := by omega
    have hy : y - cursor.2 < mouseCursorHeight := by omega
    obtain ⟨c, hc, hpixel⟩ := mouseCursorShape_spec hx hy
    rw [Window.colorAt_eq_filter (by omega) (by omega) (by rw [h.width]; omega)
      (by rw [h.rows]; omega), hposition.1, hposition.2, h.transparentColor,
        h.picture _ _ hx hy, hc]
    exact filter_pixelOfChar hpixel
  next hout =>
    refine Window.colorAt_eq_none_of_outside ?_
    rw [h.width, h.rows, hposition.1, hposition.2]
    exact hout

theorem colorAt_lifeWindow (h : LifeWindow g shown w) (x y : Nat) :
    w.colorAt x y = boardColor shown x y := by
  rw [boardColor]
  split
  next hin => exact h.shows x y hin.1 hin.2
  next hout =>
    refine Window.colorAt_eq_none_of_outside ?_
    rw [h.frame.width, h.frame.rows, h.frame.position]
    dsimp only
    omega

theorem topColor_alone (hstack : m.layerStack = [0]) (hcursor : CursorLayer g m cursor)
    (x y : Nat) : m.topColor x y = cursorColor cursor x y := by
  obtain ⟨w, hlayer, hw⟩ := hcursor
  have honly := LayerManager.topColorOf_append hlayer [] x y
  rw [LayerManager.topColor, hstack]
  refine honly.trans ?_
  rw [colorAt_cursorWindow hw]
  exact Option.or_none

/-- The cursor is above the board. -/
theorem topColor_eq (hlife : LifeLayer g m shown) (hcursor : CursorLayer g m cursor) (x y : Nat) :
    m.topColor x y = (cursorColor cursor x y).or (boardColor shown x y) := by
  obtain ⟨w₁, hlayer₁, hw₁⟩ := hlife.layer
  obtain ⟨w₀, hlayer₀, hw₀⟩ := hcursor
  have hboth := LayerManager.topColorOf_append hlayer₀ [1] x y
  have hlower := LayerManager.topColorOf_append hlayer₁ [] x y
  rw [List.nil_append] at hlower
  rw [LayerManager.topColor, hlife.layerStack]
  refine hboth.trans ?_
  rw [hlower, colorAt_cursorWindow hw₀, colorAt_lifeWindow hw₁]
  exact congrArg _ (Option.or_none)

/-- A layer that compositing is about. -/
def OfScreen (m : LayerManager) (id : LayerId) : Prop :=
  ∃ layer, m.layers id = some layer ∧ layer.window.Drawn ∧ layer.window.Inside m.writer ∧
    layer.window.renderingHandler = m.writer.pixcelFormat ∧ 0 < layer.window.width

theorem OfScreen.zero (hwriter : m.writer = g) (hcursor : CursorLayer g m cursor)
    (on : OnScreen g cursor) : OfScreen m 0 := by
  obtain ⟨w, hlayer, hw⟩ := hcursor
  have hpos : 0 < mouseCursorWidth := by decide
  refine ⟨_, hlayer, hw.drawn, ⟨?_, ?_⟩, hwriter ▸ hw.format, hw.width ▸ hpos⟩
  · rw [hw.width, hw.position, hwriter]
    exact on.cursorRight
  · rw [hw.rows, hw.position, hwriter]
    exact on.cursorBottom

theorem OfScreen.one (hwriter : m.writer = g) (hlife : LifeLayer g m shown)
    (on : OnScreen g cursor) : OfScreen m 1 := by
  obtain ⟨w, hlayer, hw⟩ := hlife.layer
  have hpos : 0 < size * pixcelSize := by decide
  refine ⟨_, hlayer, hw.drawn, ⟨?_, ?_⟩, hwriter ▸ hw.format, hw.frame.width ▸ hpos⟩
  · rw [hw.frame.width, hw.frame.position, hwriter, Nat.zero_add]
    exact on.boardRight
  · rw [hw.frame.rows, hw.frame.position, hwriter, Nat.zero_add]
    exact on.boardBottom

theorem flush_composites (fb : FrameBuffer m.writer)
    (h : ∀ id ∈ m.layerStack, OfScreen m id) : m.Composites fb := by
  refine LayerManager.composites_of_noEmptyWindow fb ?_ ?_
  · intro id hmem
    obtain ⟨layer, hlayer, hdrawn, hinside, hformat, -⟩ := h id hmem
    exact ⟨layer, hlayer, hdrawn, hinside, hformat⟩
  · intro id hmem layer hlayer
    obtain ⟨layer', hlayer', -, -, -, hpos⟩ := h id hmem
    obtain rfl := Option.some_inj.mp (hlayer'.symm.trans hlayer)
    exact hpos

/-- The layers of the desktop, and what they show. -/
theorem Follows.screen {d : Desktop} {v : View} (h : Follows g d v) (on : OnScreen g v.cursor) :
    (∀ id ∈ d.manager.layerStack, OfScreen d.manager id) ∧
      ∀ x y, d.manager.topColor x y = v.screenColor x y := by
  have hzero := OfScreen.zero h.writer h.cursor on
  obtain ⟨hphase, hstack⟩ | ⟨hphase, hlife⟩ := h.task.layers
  · refine ⟨?_, fun x y => ?_⟩
    · rw [hstack, List.forall_mem_singleton]
      exact hzero
    · rw [topColor_alone hstack h.cursor, View.screenColor, View.windowColor, hphase]
      exact (Option.or_none).symm
  · refine ⟨?_, fun x y => ?_⟩
    · rw [hlife.layerStack, List.forall_mem_cons, List.forall_mem_singleton]
      exact ⟨.one h.writer hlife on, hzero⟩
    · rw [topColor_eq hlife h.cursor, View.screenColor, View.windowColor]
      cases hv : v.phase with
      | unpolled => exact absurd hv hphase
      | _ => rfl

/-- A flush of the layers puts the picture on the frame buffer, over what was there. -/
theorem Follows.flush_shows {d : Desktop} {v : View} (fb : FrameBuffer g) (h : Follows g d v)
    (on : OnScreen g v.cursor) (hx : x < g.pixcelsPerScanLine) (hy : y < g.verticalResolution) :
    (fb.after d.manager.flush).rgbAt x y =
      match v.screenColor x y with
      | some color => PixcelWriter.colorBytes g.pixcelFormat color
      | none => fb.rgbAt x y := by
  obtain ⟨hlayers, hcolor⟩ := h.screen on
  have hwriter := h.writer
  subst hwriter
  rewrite [(flush_composites fb hlayers).shows x y hx hy, hcolor]
  cases v.screenColor x y <;> rfl

/-- Only the last round of the inner loop is followed by a flush. -/
theorem phase_of_flushed {v : View} (h : v.poll.phase = .flushed) :
    ∃ round, v.phase = .clicks round ∧ ¬ round + 1 < rounds := by
  rw [View.poll] at h
  split at h
  · cases h
  next round hphase =>
    split at h
    · cases h
    next hlast => exact ⟨round, hphase, hlast⟩
  · cases h
  · cases h

/-- The inputs at which the layers are flushed. -/
def View.Flushes (v : View) : Input → Prop
  | .flush => True
  | .poll => v.poll.phase = .flushed
  | _ => False

/-- Every call that flushes leaves the drawing of a flush on the frame buffer. -/
theorem Follows.call_flushes {d : Desktop} {v : View} (fits : g.Fits)
    (dev : Console.AsciiWriter (Nat → UInt8)) (h : Follows g d v) {i : Input} (hi : v.Flushes i) :
    ∃ d', d.call dev i = .ok d' ∧
      d'.console.writer = applyWrites d.console.writer d.manager.flush.effects := by
  have hended := h.flush_returns fits
  cases i with
  | mouse buf => exact hi.elim
  | keyboard buf => exact hi.elim
  | print text => exact hi.elim
  | flush => exact ⟨_, call_flush hended, rfl⟩
  | poll =>
      obtain ⟨round, hphase, hlast⟩ := phase_of_flushed hi
      have htask := h.task
      rw [hphase] at htask
      generalize htaskeq : d.lifegame = task at htask
      cases htask with
      | clicks _ layer board =>
          have hpoll : d.call dev .poll = Lifegame.poll d.manager d.queue d.running d.lifegame >>=
              fun polled => .ok { d with
                manager := polled.manager
                queue := polled.queue
                lifegame := polled.task
                console := { d.console with
                  writer := applyWrites d.console.writer polled.drawn } } := rfl
          rw [htaskeq, Lifegame.poll, if_neg hlast, hended, Rust.ok_bind] at hpoll
          exact ⟨_, hpoll, rfl⟩

/-- After a flush, be it the one that follows an event or the one of the game, the frame buffer
shows the arrow of the cursor where the reports of the mouse have moved it, over the board as it
was last drawn, and what was there before around them, whatever came before. -/
theorem flush_shows_desktop (fb : FrameBuffer g) (fits : g.Fits)
    (dev : Console.AsciiWriter (Nat → UInt8)) (inputs : List Input) (i : Input) (d₀ d : Desktop)
    (hboot : Desktop.boot g fb.bytes = .ok d₀) (hrun : d₀.run dev inputs = .ok d)
    (hflush : (View.start.run inputs).Flushes i)
    (on : OnScreen g (View.start.run inputs).cursor) :
    ∃ d', d.call dev i = .ok d' ∧
      ∀ x y, x < g.pixcelsPerScanLine → y < g.verticalResolution →
        ({ fb with bytes := d'.console.writer } : FrameBuffer g).rgbAt x y =
          match (View.start.run inputs).screenColor x y with
          | some color => PixcelWriter.colorBytes g.pixcelFormat color
          | none => ({ fb with bytes := d.console.writer } : FrameBuffer g).rgbAt x y := by
  obtain ⟨d₁, hboot₁, hstart⟩ := follows_start g fb.bytes
  obtain rfl : d₁ = d₀ := Except.ok.inj (hboot₁.symm.trans hboot)
  have h : Follows g d (View.start.run inputs) := ((simulation dev fits).run_rel hstart hrun).2
  obtain ⟨d', hcall, hwriter⟩ := h.call_flushes fits dev hflush
  refine ⟨d', hcall, fun x y hx hy => ?_⟩
  rw [hwriter]
  exact h.flush_shows { fb with bytes := d.console.writer } on hx hy

/-- A black screen. -/
def svgaBuffer : FrameBuffer svga where
  bytes _ := 0
  scanLine_lt := by decide
  horizontal_lt := by decide
  vertical_lt := by decide
  len_lt := by decide

/-- The arrow after the click, at its tip. -/
theorem flush_shows_desktop_clickAndSpace : ∃ d d' : Desktop, d.call dark .flush = .ok d' ∧
    ({ svgaBuffer with bytes := d'.console.writer } : FrameBuffer svga).rgbAt 2 3 = [0, 0, 0] := by
  obtain ⟨d₀, hboot, hstart⟩ := follows_start svga svgaBuffer.bytes
  obtain ⟨d, hrun, -⟩ := (simulation dark svga_fits).run_returns hstart admissible_clickAndSpace
  have hcursor : (View.start.run clickAndSpace).cursor = (2, 3) := rfl
  have on : OnScreen svga (View.start.run clickAndSpace).cursor := by
    rw [hcursor]
    exact ⟨by decide, by decide, by decide, by decide⟩
  obtain ⟨d', hflush, hshows⟩ := flush_shows_desktop svgaBuffer svga_fits dark clickAndSpace .flush
    d₀ d hboot hrun trivial on
  refine ⟨d, d', hflush, ?_⟩
  have htip := hshows 2 3 (by decide) (by decide)
  rw [View.screenColor, hcursor] at htip
  exact htip

end LemolaOs.Kernel
