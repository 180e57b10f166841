import LemolaOs.KernelLib.Render
import LemolaOs.Library.Loops

/-!
# One generation

`process` of `kernel/src/lifegame.rs`. The next generation is collected in `next_board` while
only the old one is read, and copied at the end. `board[i][j]` is the cell in row `i` and
column `j`; the loops over the neighbours go through all offsets and skip those that lead out
of the board.
-/

namespace LemolaOs.Lifegame

open Graphics

/-- `a as isize`. -/
def asIsize (a : Nat) : Int := if a < 2 ^ 63 then a else (a : Int) - 2 ^ 64

/-- `a as usize`. -/
def asUsize (a : Int) : Nat := (a % 2 ^ 64).toNat

/-- `a + b` on `isize`. -/
def isizeAdd (a b : Int) : Rust Int :=
  if -2 ^ 63 ≤ a + b ∧ a + b < 2 ^ 63 then .ok (a + b) else .error .overflow

/-- `count += 1` on `i32`. -/
def increment (count : Nat) : Rust Nat :=
  if count + 1 < 2 ^ 31 then .ok (count + 1) else .error .overflow

/-- `board[i][j] = alive`. -/
def setAt (board : List (List Bool)) (i j : Nat) (alive : Bool) : Rust (List (List Bool)) :=
  match board[i]? with
  | some row => if j < row.length then .ok (board.set i (row.set j alive)) else .error .outOfRange
  | none => .error .outOfRange

/-- One round of the loops over the neighbours. -/
def countNeighbour (size : Nat) (board : List (List Bool)) (i j : Nat) (count : Nat)
    (x y : Int) : Rust Nat :=
  if x = 0 ∧ y = 0 then .ok count
  else do
    let x ← isizeAdd (asIsize i) x
    let y ← isizeAdd (asIsize j) y
    if x < 0 ∨ x ≥ asIsize size ∨ y < 0 ∨ y ≥ asIsize size then return count
    else if ← boardAt board (asUsize x) (asUsize y) then increment count
    else return count

/-- `-1..=1`. -/
def offsets : List Int := [-1, 0, 1]

/-- One round of the loops over the cells. -/
def processCell (size : Nat) (board nextBoard : List (List Bool)) (i j : Nat) :
    Rust (List (List Bool)) := do
  let count ← offsets.foldlM (fun count x =>
    offsets.foldlM (fun count y => countNeighbour size board i j count x y) count) 0
  if ← boardAt board i j then
    if count = 2 ∨ count = 3 then setAt nextBoard i j true else return nextBoard
  else if count = 3 then setAt nextBoard i j true
  else return nextBoard

def process (size : Nat) (board : List (List Bool)) : Rust (List (List Bool)) := do
  let nextBoard ← (List.range size).foldlM (fun nextBoard i =>
    (List.range size).foldlM (fun nextBoard j => processCell size board nextBoard i j) nextBoard)
    (.replicate size (.replicate size false))
  (List.range size).foldlM (fun board i =>
    (List.range size).foldlM (fun board j => do setAt board i j (← boardAt nextBoard i j)) board)
    board

/-- The cells next to the cell in row `i` and column `j` that are on the board. -/
def neighbours (size i j : Nat) : Finset (Nat × Nat) :=
  (Finset.range size ×ˢ Finset.range size).filter fun cell =>
    cell ≠ (i, j) ∧ (cell.1 ≤ i + 1 ∧ i ≤ cell.1 + 1) ∧ cell.2 ≤ j + 1 ∧ j ≤ cell.2 + 1

/-- How many of them are alive. -/
def liveNeighbours (board : Board) (i j : Nat) : Nat :=
  ((neighbours board.rows.length i j).filter fun cell => board.alive cell.2 cell.1 = true).card

/-- The rule for one cell. -/
def Lives (alive : Bool) (count : Nat) : Prop :=
  alive = true ∧ (count = 2 ∨ count = 3) ∨ alive = false ∧ count = 3

instance (alive : Bool) (count : Nat) : Decidable (Lives alive count) :=
  inferInstanceAs (Decidable (_ ∨ _))

/-- A board of `size` rows of `size` cells. -/
structure Square (size : Nat) (rows : List (List Bool)) : Prop where
  length_eq : rows.length = size
  row_length : ∀ row ∈ rows, row.length = size

/-- `rows[i][j]`, and nothing alive outside. -/
def cellAt (rows : List (List Bool)) (cell : Nat × Nat) : Bool :=
  (rows[cell.1]?.bind fun row => row[cell.2]?).getD false

variable {board : Board} {rows : List (List Bool)} {size i j : Nat}

section Cells

theorem Square.of_board (board : Board) : Square board.rows.length board.rows :=
  ⟨rfl, board.square⟩

theorem Square.replicate (size : Nat) : Square size (.replicate size (.replicate size false)) where
  length_eq := List.length_replicate
  row_length row hrow := by
    rw [List.eq_of_mem_replicate hrow, List.length_replicate]

theorem cellAt_replicate (size : Nat) (cell : Nat × Nat) :
    cellAt (.replicate size (.replicate size false)) cell = false := by
  simp only [cellAt, List.getElem?_replicate]
  split
  · rw [Option.bind_some, List.getElem?_replicate]
    split <;> rfl
  · rfl

theorem boardAt_eq_cellAt (hsquare : Square size rows) (hi : i < size) (hj : j < size) :
    boardAt rows i j = .ok (cellAt rows (i, j)) := by
  have hi' : i < rows.length := hsquare.length_eq ▸ hi
  have hj' : j < rows[i].length := (hsquare.row_length _ (List.getElem_mem hi')).symm ▸ hj
  rw [boardAt, cellAt, List.getElem?_eq_getElem hi', Option.bind_some,
    List.getElem?_eq_getElem hj']
  rfl

/-- An assignment to a cell of the board changes that cell and no other. -/
theorem setAt_spec (hsquare : Square size rows) (hi : i < size) (hj : j < size) (alive : Bool) :
    ∃ rows', setAt rows i j alive = .ok rows' ∧ Square size rows' ∧
      ∀ cell, cellAt rows' cell = if cell = (i, j) then alive else cellAt rows cell := by
  have hi' : i < rows.length := hsquare.length_eq ▸ hi
  have hj' : j < rows[i].length := (hsquare.row_length _ (List.getElem_mem hi')).symm ▸ hj
  refine ⟨rows.set i (rows[i].set j alive), ?_, ⟨?_, ?_⟩, ?_⟩
  · rw [setAt, List.getElem?_eq_getElem hi']
    exact if_pos hj'
  · rw [List.length_set, hsquare.length_eq]
  · intro row hrow
    obtain hrow | rfl := List.mem_or_eq_of_mem_set hrow
    · exact hsquare.row_length row hrow
    · rw [List.length_set]
      exact hsquare.row_length _ (List.getElem_mem hi')
  · rintro ⟨a, b⟩
    simp only [cellAt, Prod.mk.injEq]
    by_cases ha : a = i
    · subst ha
      rw [List.getElem?_set_self hi', List.getElem?_eq_getElem hi', Option.bind_some,
        Option.bind_some]
      by_cases hb : b = j
      · subst hb
        rw [List.getElem?_set_self hj', if_pos ⟨rfl, rfl⟩]
        rfl
      · rw [List.getElem?_set_ne (Ne.symm hb), if_neg fun h => hb h.2]
    · rw [List.getElem?_set_ne (Ne.symm ha), if_neg fun h => ha h.1]

end Cells

section Counting

/-- The neighbour in the given direction is on the board and alive. -/
def counted (rows : List (List Bool)) (i j : Nat) (offset : Int × Int) : Bool :=
  decide (¬ (offset.1 = 0 ∧ offset.2 = 0) ∧ (0 ≤ i + offset.1 ∧ i + offset.1 < rows.length) ∧
    0 ≤ j + offset.2 ∧ j + offset.2 < rows.length) &&
    cellAt rows ((i + offset.1).toNat, (j + offset.2).toNat)

theorem mem_offsets {d : Int} : d ∈ offsets ↔ -1 ≤ d ∧ d ≤ 1 := by
  simp only [offsets, List.mem_cons, List.not_mem_nil, or_false]
  omega

theorem asIsize_of_lt {a : Nat} (h : a < 2 ^ 63) : asIsize a = a := if_pos h

theorem isizeAdd_offset {a : Nat} {d : Int} (ha : a < 2 ^ 63 - 1) (hd : d ∈ offsets) :
    isizeAdd (asIsize a) d = .ok (a + d) := by
  rw [mem_offsets] at hd
  rw [asIsize_of_lt (by omega)]
  exact if_pos (by omega)

theorem asUsize_of_nonneg {a : Int} (h : 0 ≤ a) (hlt : a < 2 ^ 63) : asUsize a = a.toNat := by
  rw [asUsize, Int.emod_eq_of_lt h (by omega)]

/-- A round counts the neighbour if it is on the board and alive. -/
theorem countNeighbour_eq (board : Board) (hi : i < board.rows.length)
    (hj : j < board.rows.length) {x y : Int} (hx : x ∈ offsets) (hy : y ∈ offsets) {count : Nat}
    (hcount : count < 2 ^ 31 - 1) :
    countNeighbour board.rows.length board.rows i j count x y =
      .ok (count + if counted board.rows i j (x, y) then 1 else 0) := by
  have hlength := board.length_lt
  rw [countNeighbour]
  split
  next hzero => simp [counted, hzero]
  next hzero =>
    rw [isizeAdd_offset (by omega) hx, isizeAdd_offset (by omega) hy, Rust.ok_bind, Rust.ok_bind,
      asIsize_of_lt hlength]
    split
    next hout =>
      have hnot : counted board.rows i j (x, y) = false := by
        rw [counted, Bool.and_eq_false_iff, decide_eq_false_iff_not]
        dsimp only
        omega
      rw [hnot]
      rfl
    next hin =>
      rw [asUsize_of_nonneg (by omega) (by omega), asUsize_of_nonneg (by omega) (by omega),
        boardAt_eq_cellAt (.of_board board) (by omega) (by omega), Rust.ok_bind]
      have hcounted : counted board.rows i j (x, y) =
          cellAt board.rows ((i + x).toNat, (j + y).toNat) := by
        rw [counted, decide_eq_true (by dsimp only; omega), Bool.true_and]
      rw [hcounted]
      split
      · exact if_pos (by omega)
      · rfl

/-- The offsets that are counted are the directions in which the live neighbours lie. -/
theorem countP_counted (board : Board) (i j : Nat) :
    (offsets ×ˢ offsets).countP (counted board.rows i j) = liveNeighbours board i j := by
  have hnodup : (offsets ×ˢ offsets).Nodup := by decide
  rw [List.countP_eq_length_filter, liveNeighbours,
    ← List.toFinset_card_of_nodup (hnodup.filter _)]
  refine Finset.card_bij' (fun offset _ => ((i + offset.1).toNat, (j + offset.2).toNat))
    (fun cell _ => ((cell.1 : Int) - i, (cell.2 : Int) - j)) ?_ ?_ ?_ ?_
  · rintro ⟨x, y⟩ hoffset
    simp only [List.mem_toFinset, List.mem_filter, List.mem_product, mem_offsets, counted,
      Bool.and_eq_true, decide_eq_true_eq] at hoffset
    obtain ⟨⟨hx, hy⟩, ⟨hzero, hxrange, hyrange⟩, halive⟩ := hoffset
    simp only [neighbours, Finset.mem_filter, Finset.mem_product, Finset.mem_range, ne_eq,
      Prod.mk.injEq]
    exact ⟨⟨⟨by omega, by omega⟩, by omega, by omega, by omega⟩, halive⟩
  · rintro ⟨a, b⟩ hcell
    simp only [neighbours, Finset.mem_filter, Finset.mem_product, Finset.mem_range, ne_eq,
      Prod.mk.injEq] at hcell
    obtain ⟨⟨⟨ha, hb⟩, hne, hnear⟩, halive⟩ := hcell
    simp only [List.mem_toFinset, List.mem_filter, List.mem_product, mem_offsets, counted,
      Bool.and_eq_true, decide_eq_true_eq]
    have hback : ((i + ((a : Int) - i)).toNat, (j + ((b : Int) - j)).toNat) = (a, b) := by
      simp only [Prod.mk.injEq]
      omega
    exact ⟨⟨by omega, by omega⟩, ⟨by omega, by omega, by omega⟩, hback ▸ halive⟩
  · rintro ⟨x, y⟩ hoffset
    simp only [List.mem_toFinset, List.mem_filter, counted, Bool.and_eq_true,
      decide_eq_true_eq] at hoffset
    simp only [Prod.mk.injEq]
    omega
  · rintro ⟨a, b⟩ -
    simp only [Prod.mk.injEq]
    omega

/-- The loops over the neighbours. -/
theorem count_eq (board : Board) (hi : i < board.rows.length) (hj : j < board.rows.length) :
    offsets.foldlM (fun count x =>
        offsets.foldlM (fun count y =>
          countNeighbour board.rows.length board.rows i j count x y) count) 0 =
      .ok (liveNeighbours board i j) := by
  rw [foldlM_foldlM offsets offsets (countNeighbour board.rows.length board.rows i j),
    ← countP_counted board i j]
  have hround : ∀ count, count < 2 ^ 31 - 1 → ∀ offset ∈ offsets ×ˢ offsets,
      countNeighbour board.rows.length board.rows i j count offset.1 offset.2 =
        .ok (count + if counted board.rows i j offset then 1 else 0) := by
    rintro count hcount ⟨x, y⟩ hoffset
    obtain ⟨hx, hy⟩ := List.mem_product.mp hoffset
    exact countNeighbour_eq board hi hj hx hy hcount
  rw [foldlM_countP hround (by decide), Nat.zero_add]

end Counting

section Generation

theorem nodup_cells (size : Nat) : (List.range size ×ˢ List.range size).Nodup :=
  List.nodup_range.product List.nodup_range

theorem mem_cells {cell : Nat × Nat} :
    cell ∈ List.range size ×ˢ List.range size ↔ cell.1 < size ∧ cell.2 < size := by
  rw [List.mem_product, List.mem_range, List.mem_range]

/-- A round brings a cell of the next generation to life, or leaves it as it is. -/
theorem processCell_spec (board : Board) (hi : i < board.rows.length)
    (hj : j < board.rows.length) (hsquare : Square board.rows.length rows) :
    ∃ rows', processCell board.rows.length board.rows rows i j = .ok rows' ∧
      Square board.rows.length rows' ∧
      ∀ cell, cellAt rows' cell = if cell = (i, j) then
        decide (Lives (cellAt board.rows (i, j)) (liveNeighbours board i j)) ||
          cellAt rows (i, j)
      else cellAt rows cell := by
  have halive := boardAt_eq_cellAt (.of_board board) hi hj
  obtain ⟨rows', hset, hsquare', hcell⟩ := setAt_spec hsquare hi hj true
  rw [processCell, count_eq board hi hj, Rust.ok_bind, halive, Rust.ok_bind]
  by_cases hlives : Lives (cellAt board.rows (i, j)) (liveNeighbours board i j)
  · refine ⟨rows', ?_, hsquare', ?_⟩
    · rw [← hset]
      obtain ⟨halive, hcount⟩ | ⟨hdead, hcount⟩ := hlives
      · rw [halive, if_pos rfl, if_pos hcount]
      · rw [hdead, if_neg Bool.false_ne_true, if_pos hcount]
    · rw [decide_eq_true hlives]
      exact hcell
  · refine ⟨rows, ?_, hsquare, ?_⟩
    · rw [Lives] at hlives
      push Not at hlives
      cases halive : cellAt board.rows (i, j) with
      | true =>
          have hcount := hlives.1 halive
          rw [if_pos rfl, if_neg (by omega)]
          rfl
      | false =>
          rw [if_neg Bool.false_ne_true, if_neg (hlives.2 halive)]
          rfl
    · intro cell
      rw [decide_eq_false hlives, Bool.false_or]
      split
      next heq => rw [heq]
      next => rfl

/-- The next generation, collected from the old one. -/
theorem nextBoard_spec (board : Board) :
    ∃ next, (List.range board.rows.length).foldlM (fun next i =>
        (List.range board.rows.length).foldlM (fun next j =>
          processCell board.rows.length board.rows next i j) next)
        (.replicate board.rows.length (.replicate board.rows.length false)) = .ok next ∧
      Square board.rows.length next ∧
      ∀ i j, i < board.rows.length → j < board.rows.length → cellAt next (i, j) =
        decide (Lives (cellAt board.rows (i, j)) (liveNeighbours board i j)) := by
  rw [foldlM_foldlM _ _ (processCell board.rows.length board.rows)]
  obtain ⟨next, hloop, hsquare, hview⟩ := foldlM_visit (Square board.rows.length) cellAt
    (fun cell alive =>
      decide (Lives (cellAt board.rows cell) (liveNeighbours board cell.1 cell.2)) || alive)
    (nodup_cells board.rows.length)
    (fun rows hrows cell hcell =>
      processCell_spec board (mem_cells.mp hcell).1 (mem_cells.mp hcell).2 hrows)
    (Square.replicate board.rows.length)
  refine ⟨next, hloop, hsquare, fun i j hi hj => ?_⟩
  rw [hview, if_pos (mem_cells.mpr ⟨hi, hj⟩), cellAt_replicate, Bool.or_false]

/-- Copying the next generation replaces every cell. -/
theorem copy_spec {next : List (List Bool)} (hrows : Square size rows) (hnext : Square size next) :
    ∃ rows', (List.range size).foldlM (fun board i =>
        (List.range size).foldlM (fun board j => do setAt board i j (← boardAt next i j)) board)
        rows = .ok rows' ∧
      Square size rows' ∧
      ∀ i j, i < size → j < size → cellAt rows' (i, j) = cellAt next (i, j) := by
  have hround : ∀ rows, Square size rows → ∀ cell ∈ List.range size ×ˢ List.range size,
      ∃ rows', (do setAt rows cell.1 cell.2 (← boardAt next cell.1 cell.2)) = Except.ok rows' ∧
        Square size rows' ∧
        ∀ other, cellAt rows' other = if other = cell then cellAt next cell
          else cellAt rows other := by
    rintro rows hrows ⟨i, j⟩ hcell
    obtain ⟨hi, hj⟩ := mem_cells.mp hcell
    rw [boardAt_eq_cellAt hnext hi hj, Rust.ok_bind]
    exact setAt_spec hrows hi hj (cellAt next (i, j))
  rw [foldlM_foldlM _ _ fun rows i j => do setAt rows i j (← boardAt next i j)]
  obtain ⟨rows', hloop, hsquare, hview⟩ := foldlM_visit (Square size) cellAt
    (fun cell _ => cellAt next cell) (nodup_cells size) hround hrows
  refine ⟨rows', hloop, hsquare, fun i j hi hj => ?_⟩
  rw [hview, if_pos (mem_cells.mpr ⟨hi, hj⟩)]

/-- `process` returns, and the new board is the next generation: a cell is alive iff it was
alive with two or three live neighbours, or dead with three. -/
theorem process_spec (board : Board) :
    ∃ next : Board, process board.rows.length board.rows = .ok next.rows ∧
      next.rows.length = board.rows.length ∧
      ∀ i j, i < board.rows.length → j < board.rows.length →
        (next.alive j i = true ↔
          board.alive j i = true ∧ (liveNeighbours board i j = 2 ∨ liveNeighbours board i j = 3) ∨
          board.alive j i = false ∧ liveNeighbours board i j = 3) := by
  obtain ⟨nextBoard, hnext, hsquare, hlives⟩ := nextBoard_spec board
  obtain ⟨rows, hcopy, hrows, hcell⟩ := copy_spec (.of_board board) hsquare
  have hlength := hrows.length_eq
  refine ⟨⟨rows, fun row hrow => hlength ▸ hrows.row_length row hrow, hlength ▸ board.length_lt⟩,
    ?_, hlength, fun i j hi hj => ?_⟩
  · rw [process, hnext, Rust.ok_bind]
    exact hcopy
  · change cellAt rows (i, j) = true ↔ Lives (cellAt board.rows (i, j)) (liveNeighbours board i j)
    rw [hcell i j hi hj, hlives i j hi hj, decide_eq_true_iff]

end Generation

end LemolaOs.Lifegame
