import LemolaOs.KernelLib.Clipping
import LemolaOs.Library.Writes

/-!
# Rectangles and boards

`fill_rect`, `draw_rect_outline` and `render_board` of `kernel-lib/src/render.rs`. The traits
`Renderer` and `RendererMut` have the same three bodies, over a shared and over a mutable
receiver. What a body does is a sequence of calls of `write`, in order, possibly ended by a
panic: a drawing on any picture that keeps what is written to it.

Every cell of a board is filled first and outlined afterwards, so what a pixel shows in the
end is decided by the last call for it. The fill of a cell begins one pixel past its border,
and its last row and column are outlined over.
-/

namespace LemolaOs.Graphics

structure Vector2D where
  x : Nat
  y : Nat
  deriving DecidableEq, Repr

/-- The calls of `write`. -/
abbrev Strokes := Emit ((Nat × Nat) × Color) Panic

/-- A square board. A `Vec` has at most `isize::MAX` bytes. -/
structure Board where
  rows : List (List Bool)
  square : ∀ row ∈ rows, row.length = rows.length
  length_lt : rows.length < 2 ^ 63

/-- `board[y][x]`. -/
def boardAt (board : List (List Bool)) (y x : Nat) : Rust Bool :=
  match board[y]?.bind fun row => row[x]? with
  | some alive => .ok alive
  | none => .error .outOfRange

namespace Renderer

def fillRect (pos size : Vector2D) (color : Color) : Strokes :=
  .need (usizeAdd pos.y size.y) fun yEnd =>
    .forEach (Window.interval pos.y yEnd) fun y =>
      .need (usizeAdd pos.x size.x) fun xEnd =>
        .forEach (Window.interval pos.x xEnd) fun x => .emit [((x, y), color)]

/-- `start + length - 1`. -/
def lastOf (start length : Nat) : Rust Nat := do
  usizeSub (← usizeAdd start length) 1

def drawRectOutline (pos size : Vector2D) (color : Color) : Strokes :=
  .andThen
    (.need (usizeAdd pos.x size.x) fun xEnd =>
      .forEach (Window.interval pos.x xEnd) fun x =>
        .andThen (.emit [((x, pos.y), color)])
          (.need (lastOf pos.y size.y) fun y => .emit [((x, y), color)]))
    (.need (usizeAdd pos.y size.y) fun yEnd =>
      .forEach (Window.interval pos.y yEnd) fun y =>
        .andThen (.emit [((pos.x, y), color)])
          (.need (lastOf pos.x size.x) fun x => .emit [((x, y), color)]))

/-- `Vector2D::new(pos.x + x * size, pos.y + y * size)`. -/
def blockPos (pos : Vector2D) (size x y : Nat) : Rust Vector2D := do
  let px ← usizeAdd pos.x (← usizeMul x size)
  let py ← usizeAdd pos.y (← usizeMul y size)
  return ⟨px, py⟩

/-- The inside of a block, from one pixel past its border on. -/
def fillBlock (blockPos : Vector2D) (size : Nat) (color : Color) : Strokes :=
  .need (do return Vector2D.mk (← usizeAdd blockPos.x 1) (← usizeAdd blockPos.y 1)) fun inner =>
    .need (do return Vector2D.mk (← usizeSub size 1) (← usizeSub size 1)) fun innerSize =>
      fillRect inner innerSize color

/-- One round of the loops in `render_board`: the drawing of one cell. -/
def renderBlock (board : List (List Bool)) (pos : Vector2D) (size : Nat) (color : Color)
    (x y : Nat) : Strokes :=
  .need (blockPos pos size x y) fun blockPos =>
    .need (boardAt board y x) fun alive =>
      .andThen
        (if alive then fillBlock blockPos size color else fillBlock blockPos size .black)
        (drawRectOutline blockPos ⟨size, size⟩ .white)

def renderBoard (board : List (List Bool)) (pos : Vector2D) (size : Nat) (color : Color) :
    Strokes :=
  .forEach (.range board.length) fun y =>
    .forEach (.range board.length) fun x => renderBlock board pos size color x y

end Renderer

namespace Board

/-- Whether the cell in column `x` and row `y` is alive, no cell outside the board being. -/
def alive (board : Board) (x y : Nat) : Bool :=
  (board.rows[y]?.bind fun row => row[x]?).getD false

theorem boardAt_eq (board : Board) {x y : Nat} (hx : x < board.rows.length)
    (hy : y < board.rows.length) : boardAt board.rows y x = .ok (board.alive x y) := by
  have hrow : x < board.rows[y].length := by
    rw [board.square _ (List.getElem_mem hy)]
    exact hx
  rw [boardAt, alive, List.getElem?_eq_getElem hy, Option.bind_some, List.getElem?_eq_getElem hrow]
  rfl

end Board

namespace Renderer

section Rectangles

variable {pos size : Vector2D} {color c : Color} {px py : Nat}

/-- What `fill_rect` writes. -/
def rectWrites (pos size : Vector2D) (color : Color) : List ((Nat × Nat) × Color) :=
  (Window.interval pos.y (pos.y + size.y)).flatMap fun y =>
    (Window.interval pos.x (pos.x + size.x)).flatMap fun x => [((x, y), color)]

/-- What `draw_rect_outline` writes. -/
def outlineWrites (pos size : Vector2D) (color : Color) : List ((Nat × Nat) × Color) :=
  ((Window.interval pos.x (pos.x + size.x)).flatMap fun x =>
      [((x, pos.y), color), ((x, pos.y + size.y - 1), color)]) ++
    (Window.interval pos.y (pos.y + size.y)).flatMap fun y =>
      [((pos.x, y), color), ((pos.x + size.x - 1, y), color)]

theorem usizeAdd_of_lt {a b : Nat} (h : a + b < usizeSize) : usizeAdd a b = .ok (a + b) :=
  usizeAdd_eq_ok.mpr ⟨h, rfl⟩

theorem lastOf_eq {start length : Nat} (hlength : 0 < length) (hfit : start + length < usizeSize) :
    lastOf start length = .ok (start + length - 1) := by
  rw [lastOf, usizeAdd_of_lt hfit, Rust.ok_bind]
  exact usizeSub_eq_ok.mpr ⟨by omega, rfl⟩

theorem fillRect_eq (hx : pos.x + size.x < usizeSize) (hy : pos.y + size.y < usizeSize) :
    fillRect pos size color = .emit (rectWrites pos size color) := by
  simp only [fillRect, usizeAdd_of_lt hx, usizeAdd_of_lt hy, Emit.need_ok, Emit.forEach_emit,
    rectWrites]

theorem drawRectOutline_eq (hx : pos.x + size.x < usizeSize) (hy : pos.y + size.y < usizeSize)
    (hwidth : 0 < size.x) (hheight : 0 < size.y) :
    drawRectOutline pos size color = .emit (outlineWrites pos size color) := by
  simp only [drawRectOutline, usizeAdd_of_lt hx, usizeAdd_of_lt hy, lastOf_eq hwidth hx,
    lastOf_eq hheight hy, Emit.need_ok, Emit.emit_andThen_emit, Emit.forEach_emit, outlineWrites]
  rfl

theorem mem_rectWrites : ((px, py), c) ∈ rectWrites pos size color ↔
    c = color ∧ (pos.x ≤ px ∧ px < pos.x + size.x) ∧ pos.y ≤ py ∧ py < pos.y + size.y := by
  simp only [rectWrites, List.mem_flatMap, Window.mem_interval, List.mem_singleton, Prod.mk.injEq]
  constructor
  · rintro ⟨y, hy, x, hx, ⟨rfl, rfl⟩, rfl⟩
    exact ⟨rfl, hx, hy⟩
  · rintro ⟨rfl, hx, hy⟩
    exact ⟨py, hy, px, hx, ⟨rfl, rfl⟩, rfl⟩

/-- The outline is the first and the last row and column of the rectangle. -/
theorem mem_outlineWrites (hwidth : 0 < size.x) (hheight : 0 < size.y) :
    ((px, py), c) ∈ outlineWrites pos size color ↔
      c = color ∧ (pos.x ≤ px ∧ px < pos.x + size.x) ∧ (pos.y ≤ py ∧ py < pos.y + size.y) ∧
        (py = pos.y ∨ py = pos.y + size.y - 1 ∨ px = pos.x ∨ px = pos.x + size.x - 1) := by
  simp only [outlineWrites, List.mem_append, List.mem_flatMap, Window.mem_interval,
    List.mem_cons, List.not_mem_nil, or_false, Prod.mk.injEq]
  constructor
  · rintro (⟨x, hx, ⟨⟨rfl, rfl⟩, rfl⟩ | ⟨⟨rfl, rfl⟩, rfl⟩⟩ |
      ⟨y, hy, ⟨⟨rfl, rfl⟩, rfl⟩ | ⟨⟨rfl, rfl⟩, rfl⟩⟩)
    · exact ⟨rfl, hx, by omega, .inl rfl⟩
    · exact ⟨rfl, hx, by omega, .inr (.inl rfl)⟩
    · exact ⟨rfl, by omega, hy, .inr (.inr (.inl rfl))⟩
    · exact ⟨rfl, by omega, hy, .inr (.inr (.inr rfl))⟩
  · rintro ⟨rfl, hx, hy, rfl | rfl | rfl | rfl⟩
    · exact .inl ⟨px, hx, .inl ⟨⟨rfl, rfl⟩, rfl⟩⟩
    · exact .inl ⟨px, hx, .inr ⟨⟨rfl, rfl⟩, rfl⟩⟩
    · exact .inr ⟨py, hy, .inl ⟨⟨rfl, rfl⟩, rfl⟩⟩
    · exact .inr ⟨py, hy, .inr ⟨⟨rfl, rfl⟩, rfl⟩⟩

end Rectangles

section Blocks

variable {pos : Vector2D} {size x y px py : Nat} {color c : Color}

/-- What is written for one block: its inside, and its outline over it. -/
def blockWrites (blockPos : Vector2D) (size : Nat) (color : Color) :
    List ((Nat × Nat) × Color) :=
  rectWrites ⟨blockPos.x + 1, blockPos.y + 1⟩ ⟨size - 1, size - 1⟩ color ++
    outlineWrites blockPos ⟨size, size⟩ .white

/-- Of a pixel in a block, given by its distance from the corner: whether it is on the border. -/
def OnBorder (size dx dy : Nat) : Prop :=
  dx = 0 ∨ dx = size - 1 ∨ dy = 0 ∨ dy = size - 1

instance (size dx dy : Nat) : Decidable (OnBorder size dx dy) :=
  inferInstanceAs (Decidable (_ ∨ _ ∨ _ ∨ _))

theorem fillBlock_eq (hsize : 0 < size) (hx : pos.x + size < usizeSize)
    (hy : pos.y + size < usizeSize) :
    fillBlock pos size color =
      .emit (rectWrites ⟨pos.x + 1, pos.y + 1⟩ ⟨size - 1, size - 1⟩ color) := by
  have hsub : usizeSub size 1 = .ok (size - 1) := usizeSub_eq_ok.mpr ⟨hsize, rfl⟩
  have hx₁ : pos.x + 1 < usizeSize := by omega
  have hy₁ : pos.y + 1 < usizeSize := by omega
  rw [fillBlock, usizeAdd_of_lt hx₁, usizeAdd_of_lt hy₁, hsub]
  refine fillRect_eq ?_ ?_
  · change pos.x + 1 + (size - 1) < usizeSize
    omega
  · change pos.y + 1 + (size - 1) < usizeSize
    omega

/-- Everything that is written for a block lies in it. -/
theorem inside_of_mem_blockWrites (hsize : 0 < size)
    (h : ((px, py), c) ∈ blockWrites pos size color) :
    (pos.x ≤ px ∧ px < pos.x + size) ∧ pos.y ≤ py ∧ py < pos.y + size := by
  rw [blockWrites, List.mem_append, mem_rectWrites, mem_outlineWrites hsize hsize] at h
  obtain ⟨-, hx, hy⟩ | ⟨-, hx, hy, -⟩ := h
  · dsimp only at hx hy
    omega
  · exact ⟨hx, hy⟩

/-- Every pixel of a block is written to, and none outside. -/
theorem exists_mem_blockWrites (hsize : 0 < size) :
    (∃ c, ((px, py), c) ∈ blockWrites pos size color) ↔
      (pos.x ≤ px ∧ px < pos.x + size) ∧ pos.y ≤ py ∧ py < pos.y + size := by
  refine ⟨fun ⟨c, hc⟩ => inside_of_mem_blockWrites hsize hc, fun ⟨hx, hy⟩ => ?_⟩
  by_cases hborder : py = pos.y ∨ py = pos.y + size - 1 ∨ px = pos.x ∨ px = pos.x + size - 1
  · refine ⟨.white, List.mem_append_right _ ?_⟩
    rw [mem_outlineWrites hsize hsize]
    exact ⟨rfl, hx, hy, hborder⟩
  · refine ⟨color, List.mem_append_left _ ?_⟩
    rw [mem_rectWrites]
    dsimp only
    exact ⟨rfl, by omega, by omega⟩

/-- The outline is the last to be written, and what it leaves is filled. -/
theorem applyWrites_block {dx dy : Nat} (hsize : 0 < size) (hdx : dx < size) (hdy : dy < size)
    (picture : Nat × Nat → Color) :
    applyWrites picture (blockWrites pos size color) (pos.x + dx, pos.y + dy) =
      if OnBorder size dx dy then .white else color := by
  rw [blockWrites, applyWrites_append]
  split
  next hborder =>
    refine applyWrites_of_mem ?_ fun c hc => ((mem_outlineWrites hsize hsize).mp hc).1
    rw [mem_outlineWrites hsize hsize]
    refine ⟨rfl, ?_, ?_, ?_⟩
    · exact ⟨Nat.le_add_right _ _, Nat.add_lt_add_left hdx _⟩
    · exact ⟨Nat.le_add_right _ _, Nat.add_lt_add_left hdy _⟩
    · dsimp only
      rw [OnBorder] at hborder
      omega
  next hinside =>
    rw [OnBorder] at hinside
    have hkept : ∀ c, ((pos.x + dx, pos.y + dy), c) ∉ outlineWrites pos ⟨size, size⟩ .white := by
      intro c hc
      obtain ⟨-, -, -, hborder⟩ := (mem_outlineWrites hsize hsize).mp hc
      dsimp only at hborder
      omega
    rw [applyWrites_of_not_mem hkept]
    refine applyWrites_of_mem ?_ fun c hc => (mem_rectWrites.mp hc).1
    rw [mem_rectWrites]
    dsimp only
    exact ⟨rfl, by omega, by omega⟩

end Blocks

section Boards

variable {board : Board} {pos : Vector2D} {size x y px py : Nat} {color c : Color}

/-- The colour inside a cell. -/
def cellColor (board : Board) (color : Color) (x y : Nat) : Color :=
  if board.alive x y then color else .black

/-- What `render_board` writes. -/
def boardWrites (board : Board) (pos : Vector2D) (size : Nat) (color : Color) :
    List ((Nat × Nat) × Color) :=
  (List.range board.rows.length).flatMap fun y =>
    (List.range board.rows.length).flatMap fun x =>
      blockWrites ⟨pos.x + x * size, pos.y + y * size⟩ size (cellColor board color x y)

/-- No coordinate of the board overflows. -/
structure Fits (pos : Vector2D) (len size : Nat) : Prop where
  x : pos.x + len * size < usizeSize
  y : pos.y + len * size < usizeSize

/-- The far end of a block is no farther than that of the board. -/
theorem block_le {i len start : Nat} (hi : i < len) :
    start + i * size + size ≤ start + len * size := by
  have hle : (i + 1) * size ≤ len * size := Nat.mul_le_mul_right size hi
  rw [Nat.succ_mul] at hle
  omega

theorem blockPos_eq {len : Nat} (hfits : Fits pos len size) (hsize : 0 < size) (hx : x < len)
    (hy : y < len) : blockPos pos size x y = .ok ⟨pos.x + x * size, pos.y + y * size⟩ := by
  have hfar := hfits.x
  have hfary := hfits.y
  have hxle : pos.x + x * size + size ≤ pos.x + len * size := block_le hx
  have hyle : pos.y + y * size + size ≤ pos.y + len * size := block_le hy
  have hxmul : usizeMul x size = .ok (x * size) := usizeMul_eq_ok.mpr ⟨by omega, rfl⟩
  have hymul : usizeMul y size = .ok (y * size) := usizeMul_eq_ok.mpr ⟨by omega, rfl⟩
  rw [blockPos, hxmul, Rust.ok_bind, usizeAdd_of_lt (by omega), Rust.ok_bind, hymul, Rust.ok_bind,
    usizeAdd_of_lt (by omega)]
  rfl

theorem renderBlock_eq (hsize : 0 < size) (hfits : Fits pos board.rows.length size)
    (hx : x < board.rows.length) (hy : y < board.rows.length) :
    renderBlock board.rows pos size color x y =
      .emit (blockWrites ⟨pos.x + x * size, pos.y + y * size⟩ size
        (cellColor board color x y)) := by
  have hxle : pos.x + x * size + size ≤ pos.x + board.rows.length * size := block_le hx
  have hyle : pos.y + y * size + size ≤ pos.y + board.rows.length * size := block_le hy
  have hxfit : pos.x + x * size + size < usizeSize := hxle.trans_lt hfits.x
  have hyfit : pos.y + y * size + size < usizeSize := hyle.trans_lt hfits.y
  rw [renderBlock, blockPos_eq hfits hsize hx hy, board.boardAt_eq hx hy, Emit.need_ok,
    Emit.need_ok, fillBlock_eq hsize hxfit hyfit, fillBlock_eq hsize hxfit hyfit,
    drawRectOutline_eq hxfit hyfit hsize hsize, blockWrites, cellColor]
  split <;> rfl

theorem renderBoard_eq (hsize : 0 < size) (hfits : Fits pos board.rows.length size) :
    renderBoard board.rows pos size color = .emit (boardWrites board pos size color) := by
  rw [renderBoard, boardWrites, ← Emit.forEach_emit]
  refine Emit.forEach_congr fun y hy => ?_
  rw [← Emit.forEach_emit]
  refine Emit.forEach_congr fun x hx => ?_
  exact renderBlock_eq hsize hfits (List.mem_range.mp hx) (List.mem_range.mp hy)

/-- A distance has one block and one place in it. -/
theorem block_unique {i j d : Nat} {start : Nat} (hd : d < size)
    (hlow : start + j * size ≤ start + i * size + d)
    (hhigh : start + i * size + d < start + j * size + size) : j = i := by
  have hj : (i * size + d) / size = j :=
    Nat.div_eq_of_lt_le (by omega) (by rw [Nat.succ_mul]; omega)
  have hi : (i * size + d) / size = i :=
    Nat.div_eq_of_lt_le (by omega) (by rw [Nat.succ_mul]; omega)
  exact hj.symm.trans hi

/-- Every pixel of a cell is decided by what is written for that cell. -/
theorem applyWrites_board {dx dy : Nat} (hsize : 0 < size) (hx : x < board.rows.length)
    (hy : y < board.rows.length) (hdx : dx < size) (hdy : dy < size)
    (picture : Nat × Nat → Color) :
    applyWrites picture (boardWrites board pos size color)
        (pos.x + x * size + dx, pos.y + y * size + dy) =
      if OnBorder size dx dy then .white else cellColor board color x y := by
  rw [boardWrites, applyWrites_flatMap_of_unique picture (List.mem_range.mpr hy) List.nodup_range,
    applyWrites_flatMap_of_unique picture (List.mem_range.mpr hx) List.nodup_range]
  · exact applyWrites_block hsize hdx hdy picture
  · intro x' _ hne c hc
    obtain ⟨hrange, -⟩ := inside_of_mem_blockWrites hsize hc
    exact hne (block_unique hdx hrange.1 hrange.2)
  · intro y' _ hne c hc
    obtain ⟨x', -, hc⟩ := List.mem_flatMap.mp hc
    obtain ⟨-, hrange⟩ := inside_of_mem_blockWrites hsize hc
    exact hne (block_unique hdy hrange.1 hrange.2)

theorem inside_of_mem_boardWrites (hsize : 0 < size)
    (h : ((px, py), c) ∈ boardWrites board pos size color) :
    (pos.x ≤ px ∧ px < pos.x + board.rows.length * size) ∧
      pos.y ≤ py ∧ py < pos.y + board.rows.length * size := by
  obtain ⟨y, hy, h⟩ := List.mem_flatMap.mp h
  obtain ⟨x, hx, h⟩ := List.mem_flatMap.mp h
  obtain ⟨hxrange, hyrange⟩ := inside_of_mem_blockWrites hsize h
  dsimp only at hxrange hyrange
  have hxle : pos.x + x * size + size ≤ pos.x + board.rows.length * size :=
    block_le (List.mem_range.mp hx)
  have hyle : pos.y + y * size + size ≤ pos.y + board.rows.length * size :=
    block_le (List.mem_range.mp hy)
  omega

/-- A board is drawn without a panic. Afterwards the border of every cell is white and its
inside has the colour of the cell, and nothing outside the board is written. -/
theorem renderBoard_spec (board : Board) (pos : Vector2D) (size : Nat) (color : Color)
    (hsize : 1 ≤ size) (hfits : Fits pos board.rows.length size)
    (picture : Nat × Nat → Color) :
    (renderBoard board.rows pos size color).ended = none ∧
    (∀ x y dx dy, x < board.rows.length → y < board.rows.length → dx < size → dy < size →
      applyWrites picture (renderBoard board.rows pos size color).effects
          (pos.x + x * size + dx, pos.y + y * size + dy) =
        if OnBorder size dx dy then .white else if board.alive x y then color else .black) ∧
    ∀ px py c, ((px, py), c) ∈ (renderBoard board.rows pos size color).effects →
      (pos.x ≤ px ∧ px < pos.x + board.rows.length * size) ∧
        pos.y ≤ py ∧ py < pos.y + board.rows.length * size := by
  rw [renderBoard_eq hsize hfits]
  refine ⟨rfl, ?_, ?_⟩
  · intro x y dx dy hx hy hdx hdy
    exact applyWrites_board hsize hx hy hdx hdy picture
  · intro px py c h
    exact inside_of_mem_boardWrites hsize h

/-- Two cells in each direction, one of them alive. -/
def corner : Board := ⟨[[false, true], [false, false]], by decide, by decide⟩

theorem renderBoard_spec_corner :
    (renderBoard corner.rows ⟨5, 7⟩ 2 .green).ended = none ∧
    (∀ x y dx dy, x < 2 → y < 2 → dx < 2 → dy < 2 →
      applyWrites (fun _ => .black) (renderBoard corner.rows ⟨5, 7⟩ 2 .green).effects
          (5 + x * 2 + dx, 7 + y * 2 + dy) =
        if OnBorder 2 dx dy then .white else if corner.alive x y then .green else .black) ∧
    ∀ px py c, ((px, py), c) ∈ (renderBoard corner.rows ⟨5, 7⟩ 2 .green).effects →
      (5 ≤ px ∧ px < 5 + 2 * 2) ∧ 7 ≤ py ∧ py < 7 + 2 * 2 :=
  renderBoard_spec corner ⟨5, 7⟩ 2 .green (by decide) ⟨by decide, by decide⟩
    fun _ => .black

end Boards

end Renderer

end LemolaOs.Graphics
