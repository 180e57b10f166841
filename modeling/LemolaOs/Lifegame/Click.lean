import LemolaOs.KernelLib.Painting
import LemolaOs.Lifegame.Process
import LemolaOs.Usb.Descriptor

/-!
# A click on the board

A click goes through three places. The callback of the mouse asks
`frame_buffer_position_to_board_position` for the cell under the cursor and puts its column and
row into a queue, `do_lifegame` takes them out and assigns to `board[y][x]`, and `render_board`
draws `board[y][x]` in column `x` and row `y`.
-/

namespace LemolaOs.Lifegame

open Graphics Renderer

/-- `SIZE`. -/
def size : Nat := 20

/-- `PIXCEL_SIZE`. -/
def pixcelSize : Nat := 30

/-- `BOARD_POS`. -/
def boardPos : Vector2D := ⟨0, 0⟩

/-- `a - b` on `isize`. -/
def isizeSub (a b : Int) : Rust Int :=
  if -2 ^ 63 ≤ a - b ∧ a - b < 2 ^ 63 then .ok (a - b) else .error .overflow

def frameBufferPositionToBoardPosition (frameBufferPosition : Vector2D) :
    Rust (Option (Nat × Nat)) := do
  let x ← isizeSub (asIsize frameBufferPosition.x) (asIsize boardPos.x)
  let y ← isizeSub (asIsize frameBufferPosition.y) (asIsize boardPos.y)
  if x < 0 ∨ y < 0 then return none
  else if asUsize x / pixcelSize ≥ size ∨ asUsize y / pixcelSize ≥ size then return none
  else return some (asUsize x / pixcelSize, asUsize y / pixcelSize)

/-- `byte as i8`. -/
def asI8 (byte : UInt8) : Int := if byte < 128 then byte.toNat else (byte.toNat : Int) - 256

/-- What the callback does for a click: the cell under the cursor goes into the queue. -/
def pushClick (m : LayerManager) (mouseLayerId : LayerId) (queue : List (Nat × Nat)) :
    Rust (List (Nat × Nat)) :=
  match m.layer mouseLayerId with
  | none => .error (.message "called `Option::unwrap()` on a `None` value")
  | some layer => do
      match ← frameBufferPositionToBoardPosition
          ⟨layer.window.position.x, layer.window.position.y⟩ with
      | some pos => return queue ++ [pos]
      | none => return queue

/-- `_mouse`. -/
def mouse (m : LayerManager) (mouseLayerId : LayerId) (buf : List UInt8)
    (queue : List (Nat × Nat)) : Rust (LayerManager × List (Nat × Nat)) := do
  let xDiff ← Usb.index buf 1
  let yDiff ← Usb.index buf 2
  let button ← Usb.index buf 0
  let queue ← if button &&& 1 ≠ 0 then pushClick m mouseLayerId queue else pure queue
  let m ← m.moveRelative mouseLayerId (asI8 xDiff) (asI8 yDiff)
  return (m, queue)

/-- `while let Some((x, y)) = queue.pop_front() { board[y][x] = true; }`. -/
def takeClicks (board : List (List Bool)) (queue : List (Nat × Nat)) : Rust (List (List Bool)) :=
  queue.foldlM (fun board click => setAt board click.2 click.1 true) board

/-- The drawing of the board on the window of `do_lifegame`. -/
def draw (board : Board) : Strokes := renderBoard board.rows boardPos pixcelSize .green

/-- The pixel is one of those that `render_board` draws for the cell in column `x` and row `y`. -/
def DrawnFor (board : Board) (x y : Nat) (pixel : Vector2D) : Prop :=
  ∃ c, ((pixel.x, pixel.y), c) ∈ (renderBlock board.rows boardPos pixcelSize .green x y).effects

/-- The window of `do_lifegame`, with anything drawn on it. -/
structure LifegameWindow (w : Window) : Prop where
  width : w.width = size * pixcelSize
  rows : w.rows = size * pixcelSize
  position : w.position = ⟨0, 0⟩
  transparentColor : w.transparentColor = none

section HitTest

variable {board : Board} {p : Vector2D} {cx cy : Nat}

theorem fits_board (hboard : board.rows.length = size) :
    Fits boardPos board.rows.length pixcelSize := by
  rw [hboard]
  exact ⟨by decide, by decide⟩

/-- The square of a cell. -/
theorem drawnFor_iff (hboard : board.rows.length = size) (hx : cx < size) (hy : cy < size) :
    DrawnFor board cx cy p ↔
      (cx * pixcelSize ≤ p.x ∧ p.x < cx * pixcelSize + pixcelSize) ∧
        cy * pixcelSize ≤ p.y ∧ p.y < cy * pixcelSize + pixcelSize := by
  rw [DrawnFor, renderBlock_eq (by decide) (fits_board hboard) (hboard ▸ hx) (hboard ▸ hy)]
  refine (exists_mem_blockWrites (by decide)).trans ?_
  simp only [boardPos, Nat.zero_add]

/-- A coordinate beyond `isize::MAX` is negative, and every other one stays as it is. -/
theorem isizeSub_boardPos {a : Nat} (h : a < usizeSize) :
    isizeSub (asIsize a) (asIsize 0) = .ok (asIsize a) := by
  rw [usizeSize] at h
  have hrange : -2 ^ 63 ≤ asIsize a ∧ asIsize a < 2 ^ 63 := by
    rw [asIsize]
    split <;> omega
  have hzero : asIsize 0 = 0 := rfl
  rw [hzero, isizeSub, Int.sub_zero]
  exact if_pos hrange

theorem asUsize_asIsize {a : Nat} (h : a < usizeSize) : asUsize (asIsize a) = a := by
  rw [usizeSize] at h
  rw [asUsize, asIsize]
  split <;> omega

/-- The cell under a position is the one in whose square the position lies. -/
theorem frameBufferPositionToBoardPosition_spec (hx : p.x < usizeSize) (hy : p.y < usizeSize) :
    ∃ hit, frameBufferPositionToBoardPosition p = .ok hit ∧
      ∀ cx cy, hit = some (cx, cy) ↔ (cx < size ∧ cy < size) ∧
        (cx * pixcelSize ≤ p.x ∧ p.x < cx * pixcelSize + pixcelSize) ∧
          cy * pixcelSize ≤ p.y ∧ p.y < cy * pixcelSize + pixcelSize := by
  rw [frameBufferPositionToBoardPosition]
  simp only [boardPos, isizeSub_boardPos hx, isizeSub_boardPos hy, Rust.ok_bind,
    asUsize_asIsize hx, asUsize_asIsize hy, size, pixcelSize]
  split
  next hneg =>
    refine ⟨none, rfl, fun cx cy => iff_of_false nofun ?_⟩
    rw [asIsize, asIsize] at hneg
    split at hneg <;> split at hneg <;> omega
  next =>
    split
    next hfar => exact ⟨none, rfl, fun cx cy => iff_of_false nofun (by omega)⟩
    next hnear =>
      refine ⟨_, rfl, fun cx cy => ?_⟩
      rw [Option.some_inj, Prod.mk.injEq]
      omega

end HitTest

section Clicks

variable {board : Board} {cx cy : Nat}

/-- Every click on the board brings its cell to life, whatever the order. -/
theorem takeClicks_spec (board : Board) (queue : List (Nat × Nat))
    (hqueue : ∀ click ∈ queue, click.1 < board.rows.length ∧ click.2 < board.rows.length) :
    ∃ next : Board, takeClicks board.rows queue = .ok next.rows ∧
      next.rows.length = board.rows.length ∧
      ∀ x y, next.alive x y = (decide ((x, y) ∈ queue) || board.alive x y) := by
  induction queue generalizing board with
  | nil => exact ⟨board, rfl, rfl, fun x y => rfl⟩
  | cons click queue ih =>
      obtain ⟨cx, cy⟩ := click
      obtain ⟨hx, hy⟩ := hqueue (cx, cy) List.mem_cons_self
      obtain ⟨rows, hset, hsquare, hcell⟩ := setAt_spec (.of_board board) hy hx true
      have hlength := hsquare.length_eq
      obtain ⟨next, hnext, hnextlen, halive⟩ := ih
        ⟨rows, fun row hrow => hlength ▸ hsquare.row_length row hrow, hlength ▸ board.length_lt⟩
        fun click hclick => by
          rw [hlength]
          exact hqueue click (List.mem_cons_of_mem _ hclick)
      refine ⟨next, ?_, hnextlen.trans hlength, fun x y => ?_⟩
      · rw [takeClicks, List.foldlM_cons, hset, Rust.ok_bind]
        exact hnext
      · rw [halive]
        change (decide ((x, y) ∈ queue) || cellAt rows (y, x)) = _
        rw [hcell]
        by_cases heq : (x, y) = (cx, cy)
        · cases heq
          simp
        · have hswap : (y, x) ≠ (cy, cx) := fun h => heq (by simpa [and_comm] using h)
          rw [if_neg hswap]
          simp only [List.mem_cons, heq, false_or]
          rfl

theorem LifegameWindow.of_sameFrame {w w' : Window} (hw : LifegameWindow w)
    (h : w.SameFrame w') : LifegameWindow w' :=
  ⟨h.width.trans hw.width, h.rows.trans hw.rows, h.position.trans hw.position,
    h.transparentColor.trans hw.transparentColor⟩

/-- The window that `do_lifegame` makes. -/
theorem LifegameWindow.new {renderingHandler : PixcelFormat} {w : Window}
    (h : Window.new (size * pixcelSize) (size * pixcelSize) renderingHandler none ⟨0, 0⟩ = .ok w) :
    LifegameWindow w := by
  unfold Window.new at h
  split at h
  · cases h
    exact ⟨List.length_replicate, rfl, rfl, rfl⟩
  · cases h

/-- The board is drawn on the window. Every pixel of it is on the border of a cell, and white,
or inside, and has the colour of the cell; nothing else of the screen belongs to the window. -/
theorem paint_draw {w : Window} (hw : LifegameWindow w) (hboard : board.rows.length = size) :
    ∃ w', w.paint (draw board) = .ok w' ∧ LifegameWindow w' ∧
      (∀ x y dx dy, x < size → y < size → dx < pixcelSize → dy < pixcelSize →
        w'.colorAt (x * pixcelSize + dx) (y * pixcelSize + dy) =
          some (if OnBorder pixcelSize dx dy then .white else cellColor board .green x y)) ∧
      ∀ px py, ¬ (px < size * pixcelSize ∧ py < size * pixcelSize) → w'.colorAt px py = none := by
  have hdraw : draw board = .emit (boardWrites board boardPos pixcelSize .green) :=
    renderBoard_eq (by decide) (fits_board hboard)
  obtain ⟨w', hpaint, hframe, hpicture⟩ := @Window.paint_spec w (draw board) (by rw [hdraw]; rfl)
    fun px py c hc => by
      rw [hdraw] at hc
      obtain ⟨hx, hy⟩ := inside_of_mem_boardWrites (by decide) hc
      rw [hboard, boardPos, Nat.zero_add] at hx hy
      rw [hw.width, hw.rows]
      exact ⟨hx.2, hy.2⟩
  have hw' := hw.of_sameFrame hframe
  refine ⟨w', hpaint, hw', ?_, ?_⟩
  · intro x y dx dy hx hy hdx hdy
    have hxle : 0 + x * pixcelSize + pixcelSize ≤ 0 + size * pixcelSize := block_le hx
    have hyle : 0 + y * pixcelSize + pixcelSize ≤ 0 + size * pixcelSize := block_le hy
    rw [Window.colorAt_eq_picture hw'.transparentColor (by rw [hw'.position]; exact Nat.zero_le _)
        (by rw [hw'.position]; exact Nat.zero_le _)
        (by rw [hw'.position, hw'.width]; dsimp only; omega)
        (by rw [hw'.position, hw'.rows]; dsimp only; omega), hw'.position, hpicture, hdraw]
    have hpixel : applyWrites w.picture (boardWrites board boardPos pixcelSize .green)
          (boardPos.x + x * pixcelSize + dx, boardPos.y + y * pixcelSize + dy) =
        if OnBorder pixcelSize dx dy then .white else cellColor board .green x y :=
      applyWrites_board (by decide) (hboard ▸ hx) (hboard ▸ hy) hdx hdy w.picture
    simp only [boardPos, Nat.zero_add] at hpixel
    exact congrArg some hpixel
  · intro px py hout
    rw [← Option.not_isSome_iff_eq_none, Option.isSome_iff_exists]
    rintro ⟨color, hcolor⟩
    obtain ⟨-, -, hpixel, -⟩ := Window.colorAt_eq_some.mp hcolor
    obtain ⟨hx, hy⟩ := Window.lt_of_pixelAt hpixel
    rw [hw'.position, hw'.width] at hx
    rw [hw'.position, hw'.rows] at hy
    exact hout ⟨hx, hy⟩

/-- With the cursor at `p`, the callback queues the cell under `p`. -/
theorem pushClick_eq {m : LayerManager} {mouseLayerId : LayerId} {layer : Layer} {p : Vector2D}
    {hit : Option (Nat × Nat)} (hlayer : m.layer mouseLayerId = some layer)
    (hposition : layer.window.position = ⟨p.x, p.y⟩)
    (hhit : frameBufferPositionToBoardPosition p = .ok hit) (queue : List (Nat × Nat)) :
    pushClick m mouseLayerId queue = .ok (queue ++ hit.toList) := by
  have hcursor : (⟨layer.window.position.x, layer.window.position.y⟩ : Vector2D) = p := by
    rw [hposition]
  rw [pushClick, hlayer]
  simp only [hcursor, hhit, Rust.ok_bind]
  cases hit with
  | none => exact congrArg Except.ok (List.append_nil queue).symm
  | some pos => rfl

/-- A pixel of a cell, counted from the corner of the cell. -/
theorem exists_pixel_of_cell {a : Nat} (h : a < size * pixcelSize) :
    ∃ c d, c < size ∧ d < pixcelSize ∧ a = c * pixcelSize + d :=
  ⟨a / pixcelSize, a % pixcelSize, Nat.div_lt_of_lt_mul (by rwa [Nat.mul_comm]),
    Nat.mod_lt _ (by decide), (Nat.div_add_mod' a pixcelSize).symm⟩

/-- A click on a cell changes the inside of that cell if it was dead, and no other pixel. -/
theorem colorAt_ne_iff {next : Board} {w₁ w₂ : Window} (hboard : board.rows.length = size)
    (hx : cx < size) (hy : cy < size)
    (hnext : ∀ x y, next.alive x y = (decide ((x, y) ∈ [(cx, cy)]) || board.alive x y))
    (hdrawn₁ : ∀ x y dx dy, x < size → y < size → dx < pixcelSize → dy < pixcelSize →
      w₁.colorAt (x * pixcelSize + dx) (y * pixcelSize + dy) =
        some (if OnBorder pixcelSize dx dy then .white else cellColor board .green x y))
    (hdrawn₂ : ∀ x y dx dy, x < size → y < size → dx < pixcelSize → dy < pixcelSize →
      w₂.colorAt (x * pixcelSize + dx) (y * pixcelSize + dy) =
        some (if OnBorder pixcelSize dx dy then .white else cellColor next .green x y))
    (hout₁ : ∀ px py, ¬ (px < size * pixcelSize ∧ py < size * pixcelSize) →
      w₁.colorAt px py = none)
    (hout₂ : ∀ px py, ¬ (px < size * pixcelSize ∧ py < size * pixcelSize) →
      w₂.colorAt px py = none) (q : Vector2D) :
    w₂.colorAt q.x q.y ≠ w₁.colorAt q.x q.y ↔
      board.alive cx cy = false ∧ DrawnFor board cx cy q ∧
        ¬ OnBorder pixcelSize (q.x - cx * pixcelSize) (q.y - cy * pixcelSize) := by
  rw [drawnFor_iff hboard hx hy]
  by_cases hin : q.x < size * pixcelSize ∧ q.y < size * pixcelSize
  · obtain ⟨x, dx, hxlt, hdx, hqx⟩ := exists_pixel_of_cell hin.1
    obtain ⟨y, dy, hylt, hdy, hqy⟩ := exists_pixel_of_cell hin.2
    rw [hqx, hqy, hdrawn₁ x y dx dy hxlt hylt hdx hdy, hdrawn₂ x y dx dy hxlt hylt hdx hdy,
      ne_eq, Option.some_inj]
    by_cases heq : (x, y) = (cx, cy)
    · cases heq
      have hcell : next.alive cx cy = true := by simp [hnext]
      rw [Nat.add_sub_cancel_left, Nat.add_sub_cancel_left, cellColor, cellColor, hcell]
      by_cases hborder : OnBorder pixcelSize dx dy
      · simp [hborder]
      · have hgreen : Color.green ≠ Color.black := by decide
        cases halive : board.alive cx cy <;> simp [hborder, hgreen, hdx, hdy]
    · have hcell : next.alive x y = board.alive x y := by simp [hnext, heq]
      rw [cellColor, cellColor, hcell]
      refine iff_of_false (fun h => h rfl) ?_
      rintro ⟨-, ⟨⟨hx₁, hx₂⟩, hy₁, hy₂⟩, -⟩
      have hcx : cx = x := @block_unique pixcelSize x cx dx 0 hdx (by omega) (by omega)
      have hcy : cy = y := @block_unique pixcelSize y cy dy 0 hdy (by omega) (by omega)
      exact heq (by rw [hcx, hcy])
  · rw [hout₁ q.x q.y hin, hout₂ q.x q.y hin]
    refine iff_of_false (fun h => h rfl) ?_
    rintro ⟨-, ⟨hxsquare, hysquare⟩, -⟩
    have hxle : 0 + cx * pixcelSize + pixcelSize ≤ 0 + size * pixcelSize := block_le hx
    have hyle : 0 + cy * pixcelSize + pixcelSize ≤ 0 + size * pixcelSize := block_le hy
    exact hin ⟨by omega, by omega⟩

/-- The hit test finds exactly the cell whose square, as `render_board` draws it, contains the
cursor. A click queues that cell, and taking it from the queue changes what is drawn for that
cell alone: it is green afterwards, and its inside has changed if it was dead. -/
theorem click_spec (w : Window) (hw : LifegameWindow w) (board : Board)
    (hboard : board.rows.length = size) (p : Vector2D) (hx : p.x < usizeSize)
    (hy : p.y < usizeSize) :
    ∃ hit, frameBufferPositionToBoardPosition p = .ok hit ∧
      (∀ cx cy, hit = some (cx, cy) ↔ (cx < size ∧ cy < size) ∧ DrawnFor board cx cy p) ∧
      (∀ m mouseLayerId layer queue, LayerManager.layer m mouseLayerId = some layer →
        layer.window.position = ⟨p.x, p.y⟩ →
        pushClick m mouseLayerId queue = .ok (queue ++ hit.toList)) ∧
      ∀ cx cy, hit = some (cx, cy) → ∃ next : Board,
        takeClicks board.rows [(cx, cy)] = .ok next.rows ∧ next.rows.length = size ∧
        (∀ x y, cellColor next .green x y =
          if (x, y) = (cx, cy) then .green else cellColor board .green x y) ∧
        ∃ w₁ w₂, w.paint (draw board) = .ok w₁ ∧ w₁.paint (draw next) = .ok w₂ ∧
          ∀ q : Vector2D, w₂.colorAt q.x q.y ≠ w₁.colorAt q.x q.y ↔
            board.alive cx cy = false ∧ DrawnFor board cx cy q ∧
              ¬ OnBorder pixcelSize (q.x - cx * pixcelSize) (q.y - cy * pixcelSize) := by
  obtain ⟨hit, hhit, hcell⟩ := frameBufferPositionToBoardPosition_spec hx hy
  refine ⟨hit, hhit, fun cx cy => ?_, ?_, ?_⟩
  · rw [hcell]
    exact and_congr_right fun h => (drawnFor_iff hboard h.1 h.2).symm
  · intro m mouseLayerId layer queue hlayer hposition
    exact pushClick_eq hlayer hposition hhit queue
  · intro cx cy hcx
    obtain ⟨⟨hcx, hcy⟩, -⟩ := (hcell cx cy).mp hcx
    obtain ⟨next, htake, hlength, halive⟩ := takeClicks_spec board [(cx, cy)] (by
      rw [hboard]
      simpa using ⟨hcx, hcy⟩)
    obtain ⟨w₁, hpaint₁, hw₁, hdrawn₁, hout₁⟩ := paint_draw hw hboard
    obtain ⟨w₂, hpaint₂, -, hdrawn₂, hout₂⟩ := paint_draw hw₁ (hlength.trans hboard)
    refine ⟨next, htake, hlength.trans hboard, fun x y => ?_, w₁, w₂, hpaint₁, hpaint₂, ?_⟩
    · rw [cellColor, cellColor, halive]
      by_cases heq : (x, y) = (cx, cy) <;> simp [heq]
    · exact colorAt_ne_iff hboard hcx hcy halive hdrawn₁ hdrawn₂ hout₁ hout₂

/-- The board that `do_lifegame` begins with has these cells alive, as columns and rows. -/
def initialCells : List (Nat × Nat) :=
  [(13, 6), (14, 6), (15, 6), (13, 7), (14, 8), (11, 11), (12, 11), (10, 12), (13, 12), (11, 13),
    (12, 13), (10, 16), (11, 16), (9, 17), (12, 18), (10, 19), (11, 19)]

def initialBoard : Board where
  rows := (List.range size).map fun y => (List.range size).map fun x => (x, y) ∈ initialCells
  square := by decide
  length_lt := by decide

/-- A click at the lower right corner of the last cell. -/
theorem click_spec_corner :
    ∃ w, Window.new (size * pixcelSize) (size * pixcelSize) .rgb none ⟨0, 0⟩ = .ok w ∧
      ∃ hit, frameBufferPositionToBoardPosition ⟨599, 599⟩ = .ok hit ∧
        (∀ cx cy, hit = some (cx, cy) ↔
          (cx < size ∧ cy < size) ∧ DrawnFor initialBoard cx cy ⟨599, 599⟩) := by
  obtain ⟨w, hnew⟩ : ∃ w, Window.new (size * pixcelSize) (size * pixcelSize) .rgb none ⟨0, 0⟩ =
      .ok w := ⟨_, dif_pos (by decide)⟩
  obtain ⟨hit, hhit, hcell, -⟩ := click_spec w (.new hnew) initialBoard (by decide) ⟨599, 599⟩
    (by decide) (by decide)
  exact ⟨w, hnew, hit, hhit, hcell⟩

end Clicks

end LemolaOs.Lifegame
