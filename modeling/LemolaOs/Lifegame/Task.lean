import LemolaOs.Lifegame.Click

/-!
# The task of the game of life

`do_lifegame` of `kernel/src/lifegame.rs`, from one `yield_pending().await` to the next. The task
takes the clicks out of the queue again and again, and after that many rounds flushes the layers,
lets a generation pass if the game is running, and draws the board.

`poll_spec` is one poll on a board of the right size. What a board shows is a function from
column and row, `Life`, and the three things that can happen to it have a name each.
-/

namespace LemolaOs.Lifegame

open Graphics Renderer

/-- Where the task stands. The board is moved along. -/
inductive Task where
  | unpolled
  | clicks (id : LayerId) (round : Nat) (board : List (List Bool))
  | flushed (id : LayerId) (board : List (List Bool))
  | rendered (id : LayerId) (board : List (List Bool))

/-- What a poll leaves, and what it has drawn on the frame buffer. -/
structure Polled where
  task : Task
  manager : LayerManager
  queue : List (Nat × Nat)
  drawn : List (Nat × UInt8)

/-- `0..100000`. -/
def rounds : Nat := 100000

/-- The `board` that the task begins with. -/
def firstBoard : List (List Bool) :=
  [[0, 0, 0, 0, 0, 0, 0, 0, 0, 0, 0, 0, 0, 0, 0, 0, 0, 0, 0, 0],
   [0, 0, 0, 0, 0, 0, 0, 0, 0, 0, 0, 0, 0, 0, 0, 0, 0, 0, 0, 0],
   [0, 0, 0, 0, 0, 0, 0, 0, 0, 0, 0, 0, 0, 0, 0, 0, 0, 0, 0, 0],
   [0, 0, 0, 0, 0, 0, 0, 0, 0, 0, 0, 0, 0, 0, 0, 0, 0, 0, 0, 0],
   [0, 0, 0, 0, 0, 0, 0, 0, 0, 0, 0, 0, 0, 0, 0, 0, 0, 0, 0, 0],
   [0, 0, 0, 0, 0, 0, 0, 0, 0, 0, 0, 0, 0, 0, 0, 0, 0, 0, 0, 0],
   [0, 0, 0, 0, 0, 0, 0, 0, 0, 0, 0, 0, 0, 1, 1, 1, 0, 0, 0, 0],
   [0, 0, 0, 0, 0, 0, 0, 0, 0, 0, 0, 0, 0, 1, 0, 0, 0, 0, 0, 0],
   [0, 0, 0, 0, 0, 0, 0, 0, 0, 0, 0, 0, 0, 0, 1, 0, 0, 0, 0, 0],
   [0, 0, 0, 0, 0, 0, 0, 0, 0, 0, 0, 0, 0, 0, 0, 0, 0, 0, 0, 0],
   [0, 0, 0, 0, 0, 0, 0, 0, 0, 0, 0, 0, 0, 0, 0, 0, 0, 0, 0, 0],
   [0, 0, 0, 0, 0, 0, 0, 0, 0, 0, 0, 1, 1, 0, 0, 0, 0, 0, 0, 0],
   [0, 0, 0, 0, 0, 0, 0, 0, 0, 0, 1, 0, 0, 1, 0, 0, 0, 0, 0, 0],
   [0, 0, 0, 0, 0, 0, 0, 0, 0, 0, 0, 1, 1, 0, 0, 0, 0, 0, 0, 0],
   [0, 0, 0, 0, 0, 0, 0, 0, 0, 0, 0, 0, 0, 0, 0, 0, 0, 0, 0, 0],
   [0, 0, 0, 0, 0, 0, 0, 0, 0, 0, 0, 0, 0, 0, 0, 0, 0, 0, 0, 0],
   [0, 0, 0, 0, 0, 0, 0, 0, 0, 0, 1, 1, 0, 0, 0, 0, 0, 0, 0, 0],
   [0, 0, 0, 0, 0, 0, 0, 0, 0, 1, 0, 0, 0, 0, 0, 0, 0, 0, 0, 0],
   [0, 0, 0, 0, 0, 0, 0, 0, 0, 0, 0, 0, 1, 0, 0, 0, 0, 0, 0, 0],
   [0, 0, 0, 0, 0, 0, 0, 0, 0, 0, 1, 1, 0, 0, 0, 0, 0, 0, 0, 0]].map (List.map (· == 1))

/-- The drawing of the board on its layer. -/
def render (m : LayerManager) (id : LayerId) (board : List (List Bool)) : Rust LayerManager :=
  m.paintLayer id (renderBoard board boardPos pixcelSize .green)

/-- One round of the inner loop, up to its `await`. -/
def clickRound (m : LayerManager) (queue : List (Nat × Nat)) (id : LayerId) (round : Nat)
    (board : List (List Bool)) : Rust Polled := do
  let board ← takeClicks board queue
  let m ← if queue.isEmpty then pure m else render m id board
  return ⟨.clicks id round board, m, [], []⟩

/-- A poll of `do_lifegame`. -/
def poll (m : LayerManager) (queue : List (Nat × Nat)) (running : Bool) : Task → Rust Polled
  | .unpolled => do
    let window ← Window.new (size * pixcelSize) (size * pixcelSize)
      m.writer.pixcelFormat none ⟨0, 0⟩
    let (id, m) ← m.newLayer window
    clickRound m queue id 0 firstBoard
  | .clicks id round board =>
    if round + 1 < rounds then clickRound m queue id (round + 1) board
    else
      match m.flush.ended with
      | some e => .error e
      | none => .ok ⟨.flushed id board, m, queue, m.flush.effects⟩
  | .flushed id board => do
    let board ← if running then process size board else pure board
    let m ← render m id board
    return ⟨.rendered id board, m, queue, []⟩
  | .rendered id board => clickRound m queue id 0 board

/-- Which cells are alive, by column and row. -/
abbrev Life := Nat → Nat → Bool

/-- How many of the neighbours of the cell in column `x` and row `y` are alive. -/
def Life.around (life : Life) (x y : Nat) : Nat :=
  ((neighbours size y x).filter fun cell => life cell.2 cell.1 = true).card

/-- The next generation. -/
def Life.generation (life : Life) : Life := fun x y =>
  decide ((x < size ∧ y < size) ∧ Lives (life x y) (life.around x y))

/-- Some cells come to life. -/
def Life.births (life : Life) (cells : List (Nat × Nat)) : Life := fun x y =>
  cells.contains (x, y) || life x y

/-- The board of the task has the right size and shows what is alive. -/
structure IsBoard (rows : List (List Bool)) (life : Life) : Prop where
  square : Square size rows
  alive : ∀ x y, cellAt rows (y, x) = life x y

/-- The cells that the first board shows. -/
def Life.initial : Life := fun x y => cellAt firstBoard (y, x)

variable {rows : List (List Bool)} {life : Life} {queue : List (Nat × Nat)}

/-- The board with its size. -/
def IsBoard.board (h : IsBoard rows life) : Board where
  rows := rows
  square row hrow := h.square.length_eq ▸ h.square.row_length row hrow
  length_lt := by
    rw [h.square.length_eq]
    decide

theorem firstBoard_eq : firstBoard = initialBoard.rows := by decide +kernel

theorem isBoard_first : IsBoard firstBoard Life.initial where
  square := by
    have hsquare := Square.of_board initialBoard
    rw [← firstBoard_eq] at hsquare
    exact hsquare
  alive _ _ := rfl

/-- Nothing is alive outside of a board. -/
theorem cellAt_of_outside {n i j : Nat} (h : Square n rows) (hout : ¬ (j < n ∧ i < n)) :
    cellAt rows (i, j) = false := by
  rw [cellAt]
  cases hrow : rows[i]? with
  | none => rfl
  | some row =>
      obtain ⟨hi, rfl⟩ := List.getElem?_eq_some_iff.mp hrow
      have hlength := h.row_length _ (List.getElem_mem hi)
      rw [Option.bind_some, List.getElem?_eq_none]
      · rfl
      · rw [h.length_eq] at hi
        omega

theorem IsBoard.length_eq (h : IsBoard rows life) : h.board.rows.length = size :=
  h.square.length_eq

theorem IsBoard.alive_eq (h : IsBoard rows life) : h.board.alive = life :=
  funext fun x => funext fun y => h.alive x y

/-- Only the queue decides which cells come to life, in any order. -/
theorem IsBoard.takeClicks (h : IsBoard rows life)
    (hqueue : ∀ click ∈ queue, click.1 < size ∧ click.2 < size) :
    ∃ rows', takeClicks rows queue = .ok rows' ∧ IsBoard rows' (life.births queue) := by
  obtain ⟨next, htake, hlength, halive⟩ := takeClicks_spec h.board queue fun click hclick => by
    rw [h.length_eq]
    exact hqueue click hclick
  have hsquare := Square.of_board next
  rw [hlength, h.length_eq] at hsquare
  refine ⟨next.rows, htake, hsquare, fun x y => ?_⟩
  rw [Life.births, List.contains_eq_mem, ← h.alive_eq]
  exact halive x y

/-- `process` is one generation. -/
theorem IsBoard.process (h : IsBoard rows life) :
    ∃ rows', process size rows = .ok rows' ∧ IsBoard rows' life.generation := by
  obtain ⟨next, hnext, hsquare, hlives⟩ := nextBoard_spec h.board
  rw [h.length_eq] at hnext hsquare hlives
  obtain ⟨rows', hcopy, hrows, hcell⟩ := copy_spec h.square hsquare
  refine ⟨rows', ?_, hrows, fun x y => ?_⟩
  · rw [Lifegame.process]
    exact (congrArg (· >>= _) hnext).trans hcopy
  · rw [Life.generation]
    by_cases hin : x < size ∧ y < size
    · have hcount : liveNeighbours h.board y x = life.around x y := by
        rw [liveNeighbours, Life.around, h.length_eq, h.alive_eq]
      have hold : cellAt h.board.rows (y, x) = life x y := h.alive x y
      rw [hcell y x hin.2 hin.1, hlives y x hin.2 hin.1, hcount, hold]
      exact decide_eq_decide.mpr (and_iff_right hin).symm
    · rw [cellAt_of_outside hrows hin]
      exact (decide_eq_false fun h => hin h.1).symm

section Window

variable {g : PixcelWriter} {shown : Option Life} {w : Window}

/-- The colour of a pixel of the window: a new window is black, and a board has white borders. -/
def lifeColor : Option Life → (px py : Nat) → Color
  | none, _, _ => .black
  | some life, px, py =>
    if OnBorder pixcelSize (px % pixcelSize) (py % pixcelSize) then .white
    else if life (px / pixcelSize) (py / pixcelSize) then .green else .black

/-- The window of the task, with what was last drawn on it. -/
structure LifeWindow (g : PixcelWriter) (shown : Option Life) (w : Window) : Prop where
  drawn : w.Drawn
  format : w.renderingHandler = g.pixcelFormat
  frame : LifegameWindow w
  shows : ∀ px py, px < size * pixcelSize → py < size * pixcelSize →
    w.colorAt px py = some (lifeColor shown px py)

theorem colorAt_of_frame (h : LifegameWindow w) {px py : Nat} (hx : px < size * pixcelSize)
    (hy : py < size * pixcelSize) : w.colorAt px py = some (w.picture (px, py)) := by
  have hwidth := h.width
  have hrows := h.rows
  have hposition : w.position.x = 0 ∧ w.position.y = 0 := by
    rw [h.position]
    exact ⟨rfl, rfl⟩
  rw [Window.colorAt_eq_picture h.transparentColor (by omega) (by omega) (by omega) (by omega),
    hposition.1, hposition.2]
  rfl

/-- A new window without a transparent colour is black. -/
theorem picture_new {width height : Nat} {renderingHandler : PixcelFormat} {position : Position}
    (h : Window.new width height renderingHandler none position = .ok w) (pixel : Nat × Nat) :
    w.picture pixel = .black := by
  rw [Window.picture]
  split
  next color hcolor =>
    obtain ⟨column, hcolumn, hcell⟩ := Option.bind_eq_some_iff.mp (Window.pixelAt_eq_ok.mp hcolor)
    unfold Window.new at h
    split at h
    · cases h
      rw [List.eq_of_mem_replicate (List.mem_of_getElem? hcolumn)] at hcell
      exact List.eq_of_mem_replicate (List.mem_of_getElem? hcell)
    · cases h
  next => rfl

theorem LifeWindow.new
    (h : Window.new (size * pixcelSize) (size * pixcelSize) g.pixcelFormat none ⟨0, 0⟩ = .ok w) :
    LifeWindow g none w := by
  have hframe := LifegameWindow.new h
  refine ⟨.new h, ?_, hframe, fun px py hx hy => ?_⟩
  · unfold Window.new at h
    split at h
    · cases h
      rfl
    · cases h
  · rw [colorAt_of_frame hframe hx hy, picture_new h]
    rfl

/-- The board is drawn over whatever was on the window. -/
theorem LifeWindow.render (h : LifeWindow g shown w) (hboard : IsBoard rows life) :
    ∃ w', w.paint (renderBoard rows boardPos pixcelSize .green) = .ok w' ∧
      LifeWindow g (some life) w' := by
  obtain ⟨w', hpaint, hframe, hinside, -⟩ := paint_draw h.frame hboard.length_eq
  obtain ⟨hhandler, hkeep⟩ := Window.renderingHandler_paint hpaint
  refine ⟨w', hpaint, hkeep h.drawn, hhandler.trans h.format, hframe, fun px py hx hy => ?_⟩
  have hpos : 0 < pixcelSize := by decide
  have hpixel := hinside (px / pixcelSize) (py / pixcelSize) (px % pixcelSize) (py % pixcelSize)
    (Nat.div_lt_of_lt_mul (by rwa [Nat.mul_comm])) (Nat.div_lt_of_lt_mul (by rwa [Nat.mul_comm]))
    (Nat.mod_lt _ hpos) (Nat.mod_lt _ hpos)
  rw [Nat.div_add_mod', Nat.div_add_mod', cellColor, hboard.alive_eq] at hpixel
  exact hpixel

end Window

end LemolaOs.Lifegame
