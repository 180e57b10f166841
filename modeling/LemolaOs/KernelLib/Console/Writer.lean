import LemolaOs.KernelLib.Pixel

/-!
# The character console

`Writer<N_ROW, N_COLUMN>` of `kernel-lib/src/lib.rs`. Characters go into a buffer
of rows; `new_line` redraws the whole buffer through the `AsciiWriter` behind the
console. Scrolling is lazy: after the last row the cursor rests at row `N_ROW`,
outside the buffer, until the next character or newline arrives.

The reference to the `dyn AsciiWriter` is a parameter: a screen state and the
effect of one `write_ascii` call on it. Buffer accesses are bounds-checked as in
the source, so a result `.ok` also says that no index was out of range. The lemmas at
the end say what each operation does to the buffer and the cursor.
-/

namespace LemolaOs.Console

/-- The trait object behind a console: what one `write_ascii` call does to it. -/
structure AsciiWriter (σ : Type) where
  writeAscii : σ → (x y : Nat) → Char → (bgColor fgColor : Color) → σ

structure CursorPosition where
  x : Nat
  y : Nat
  deriving DecidableEq, Repr

def CursorPosition.justNewLine (p : CursorPosition) : CursorPosition := ⟨0, p.y + 1⟩

/-- `[[char; N_COLUMN]; N_ROW]`. -/
abbrev Buffer (nRow nColumn : Nat) := Vector (Vector Char nColumn) nRow

structure Writer (σ : Type) (nRow nColumn : Nat) where
  writer : σ
  position : CursorPosition
  backgroundColor : Color
  foregroundColor : Color
  buffer : Buffer nRow nColumn
  deriving DecidableEq

namespace Buffer

variable {nRow nColumn : Nat}

/-- `[' '; N_COLUMN]`. -/
def blankRow (nColumn : Nat) : Vector Char nColumn := Vector.replicate nColumn ' '

def blank (nRow nColumn : Nat) : Buffer nRow nColumn := Vector.replicate nRow (blankRow nColumn)

/-- `self.buffer[y]`. -/
def row (b : Buffer nRow nColumn) (y : Nat) : Rust (Vector Char nColumn) :=
  if h : y < nRow then .ok b[y] else .error .outOfRange

/-- `self.buffer[y] = row`. -/
def setRow (b : Buffer nRow nColumn) (y : Nat) (r : Vector Char nColumn) :
    Rust (Buffer nRow nColumn) :=
  if h : y < nRow then .ok (b.set y r) else .error .outOfRange

/-- `self.buffer[y][x] = c`. -/
def setCell (b : Buffer nRow nColumn) (y x : Nat) (c : Char) : Rust (Buffer nRow nColumn) := do
  let r ← b.row y
  if h : x < nColumn then b.setRow y (r.set x c) else .error .outOfRange

/-- First loop of `scroll`: `for y in 0..n { buffer[y] = buffer[y + dy] }`. -/
def moveUp (dy : Nat) (b : Buffer nRow nColumn) (n : Nat) : Rust (Buffer nRow nColumn) :=
  (List.range n).foldlM (fun b y => do b.setRow y (← b.row (y + dy))) b

/-- Second loop of `scroll`: `for y in n..(n + k) { buffer[y] = [' '; N_COLUMN] }`. -/
def clearRows (b : Buffer nRow nColumn) (n k : Nat) : Rust (Buffer nRow nColumn) :=
  (List.range' n k).foldlM (fun b y => b.setRow y (blankRow nColumn)) b

/-- The contents after scrolling by `dy` rows. -/
def scrolled (b : Buffer nRow nColumn) (dy : Nat) : Buffer nRow nColumn :=
  Vector.ofFn fun i => if h : i.val + dy < nRow then b[i.val + dy] else blankRow nColumn

theorem setRow_eq (b : Buffer nRow nColumn) {y : Nat} (h : y < nRow) (r : Vector Char nColumn) :
    b.setRow y r = .ok (b.set y r) := by
  simp [setRow, h]

theorem row_eq (b : Buffer nRow nColumn) {y : Nat} (h : y < nRow) : b.row y = .ok b[y] := by
  simp [row, h]

theorem setCell_eq (b : Buffer nRow nColumn) {y x : Nat} (hy : y < nRow) (hx : x < nColumn)
    (c : Char) : b.setCell y x c = .ok (b.set y (b[y].set x c)) := by
  simp [setCell, row_eq b hy, hx, setRow_eq b hy, bind, Except.bind]

/-- After `n` rounds the first `n` rows hold their successors and the rest is as it
was: the loop reads only rows it has not yet overwritten. -/
theorem moveUp_eq {dy : Nat} (hdy : 0 < dy) (b : Buffer nRow nColumn) (n : Nat)
    (hn : n + dy ≤ nRow) :
    moveUp dy b n = .ok (Vector.ofFn fun i =>
      if h : i.val < n then b[i.val + dy] else b[i.val]) := by
  induction n with
  | zero =>
      simp only [moveUp, List.range_zero, List.foldlM_nil, pure, Except.pure]
      congr 1
      ext i hi
      simp
  | succ n ih =>
      have hprev := ih (by omega)
      rw [moveUp] at hprev ⊢
      rw [List.range_succ, List.foldlM_append, hprev]
      simp only [bind, Except.bind, List.foldlM_cons, List.foldlM_nil,
        row_eq _ (show n + dy < nRow by omega), setRow_eq _ (show n < nRow by omega)]
      simp only [pure, Except.pure]
      congr 1
      ext i hi j hj
      simp only [Vector.getElem_set, Vector.getElem_ofFn]
      by_cases hin : n = i
      · subst hin
        simp [show ¬ n + dy < n by omega]
      · by_cases hlt : i < n
        · simp [hin, hlt, show i < n + 1 by omega]
        · simp [hin, hlt, show ¬ i < n + 1 by omega]

theorem clearRows_eq (b : Buffer nRow nColumn) (n k : Nat) (hk : n + k ≤ nRow) :
    b.clearRows n k = .ok (Vector.ofFn fun i =>
      if n ≤ i.val ∧ i.val < n + k then blankRow nColumn else b[i.val]) := by
  induction k with
  | zero =>
      simp only [clearRows, List.range'_zero, List.foldlM_nil, pure, Except.pure]
      congr 1
      ext i hi
      simp [show ¬ (n ≤ i ∧ i < n) by omega]
  | succ k ih =>
      have hprev := ih (by omega)
      rw [clearRows] at hprev ⊢
      rw [List.range'_1_concat, List.foldlM_append, hprev]
      simp only [bind, Except.bind, List.foldlM_cons, List.foldlM_nil,
        setRow_eq _ (show n + k < nRow by omega), pure, Except.pure]
      congr 1
      ext i hi j hj
      simp only [Vector.getElem_set, Vector.getElem_ofFn]
      by_cases hik : n + k = i
      · subst hik
        simp
      · by_cases hin : n ≤ i ∧ i < n + k
        · simp [hik, hin, show i < n + (k + 1) by omega]
        · simp [hik, hin, show ¬ (n ≤ i ∧ i < n + (k + 1)) by omega]

/-- `buffer[i][j]` at indices in range. -/
def cell (b : Buffer nRow nColumn) (i : Fin nRow) (j : Fin nColumn) : Char := b[i][j]

theorem cell_set (b : Buffer nRow nColumn) {y x : Nat} (hy : y < nRow) (hx : x < nColumn)
    (c : Char) (i : Fin nRow) (j : Fin nColumn) :
    cell (b.set y (b[y].set x c)) i j = if y = i.val ∧ x = j.val then c else b.cell i j := by
  by_cases hi : y = i.val
  · subst hi
    by_cases hj : x = j.val
    · simp [cell, hj]
    · simp [cell, hj]
  · simp [cell, hi]

theorem scrolled_row (b : Buffer nRow nColumn) (dy i : Nat) (hi : i < nRow) :
    (b.scrolled dy)[i] = if h : i + dy < nRow then b[i + dy] else blankRow nColumn := by
  simp [scrolled]

theorem cell_scrolled (b : Buffer nRow nColumn) (dy : Nat) (i : Fin nRow) (j : Fin nColumn) :
    (b.scrolled dy).cell i j =
      if h : i.val + dy < nRow then b.cell ⟨i.val + dy, h⟩ j else ' ' := by
  by_cases hin : i.val + dy < nRow
  · simp [cell, scrolled_row, hin]
  · simp [cell, scrolled_row, hin, blankRow]

/-- The two loops of `scroll` together. -/
theorem moveUp_clearRows {dy : Nat} (hdy : 0 < dy) (hle : dy ≤ nRow)
    (b : Buffer nRow nColumn) :
    (moveUp dy b (nRow - dy) >>= fun m => clearRows m (nRow - dy) dy) = .ok (b.scrolled dy) := by
  rw [moveUp_eq hdy b (nRow - dy) (by omega)]
  simp only [bind, Except.bind]
  rw [clearRows_eq _ _ _ (by omega)]
  congr 1
  ext i hi j hj
  simp only [Vector.getElem_ofFn, scrolled_row]
  by_cases hin : i + dy < nRow
  · simp [hin, show i < nRow - dy by omega, show ¬ nRow ≤ i + dy by omega]
  · simp [hin, show nRow - dy ≤ i by omega, show i < nRow - dy + dy by omega]

end Buffer

namespace Writer

variable {σ : Type} {nRow nColumn : Nat} (dev : AsciiWriter σ)

def new (screen : σ) : Writer σ nRow nColumn where
  writer := screen
  position := ⟨0, 0⟩
  backgroundColor := Color.black
  foregroundColor := Color.white
  buffer := Buffer.blank nRow nColumn

def store (w : Writer σ nRow nColumn) (c : Char) : Rust (Writer σ nRow nColumn) := do
  let buffer ← w.buffer.setCell w.position.y w.position.x c
  return { w with buffer := buffer }

/-- Redraw every cell, row by row. -/
def flush (w : Writer σ nRow nColumn) : Writer σ nRow nColumn :=
  let drawRow := fun (screen : σ) (y : Fin nRow) =>
    (List.finRange nColumn).foldl (fun screen (x : Fin nColumn) =>
      dev.writeAscii screen (x * 8) (y * 16) w.buffer[y][x] w.backgroundColor w.foregroundColor)
      screen
  { w with writer := (List.finRange nRow).foldl drawRow w.writer }

def scroll (w : Writer σ nRow nColumn) (dy : Nat) : Rust (Writer σ nRow nColumn) := do
  let n ← usizeSub nRow dy
  let buffer ← Buffer.moveUp dy w.buffer n
  let buffer ← buffer.clearRows n dy
  let y ← usizeSub w.position.y dy
  return { w with buffer := buffer, position := ⟨0, y⟩ }

def newLine (w : Writer σ nRow nColumn) : Rust (Writer σ nRow nColumn) := do
  if w.position.y < nRow then
    return flush dev { w with position := w.position.justNewLine }
  else
    return flush dev (← w.scroll 1)

/-- `self.store(c); self.position.x += 1;`, the last two lines of both branches. -/
def storeAndAdvance (w : Writer σ nRow nColumn) (c : Char) : Rust (Writer σ nRow nColumn) := do
  let w ← w.store c
  return { w with position := ⟨w.position.x + 1, w.position.y⟩ }

/-- `if self.position.y == N_ROW { self.scroll(1); }`. -/
def scrollIfBelow (w : Writer σ nRow nColumn) : Rust (Writer σ nRow nColumn) :=
  if w.position.y = nRow then w.scroll 1 else .ok w

def putChar (w : Writer σ nRow nColumn) (c : Char) : Rust (Writer σ nRow nColumn) := do
  if c = '\n' then
    w.newLine dev
  else if w.position.x < nColumn ∧ w.position.y < nRow then
    w.storeAndAdvance c
  else
    let w ← w.newLine dev
    let w ← w.scrollIfBelow
    w.storeAndAdvance c

def putString (w : Writer σ nRow nColumn) (s : List Char) : Rust (Writer σ nRow nColumn) :=
  s.foldlM (fun w c => w.putChar dev c) w

/-- `fmt::Write::write_str`, which always returns `Ok(())`. -/
def writeStr (w : Writer σ nRow nColumn) (s : List Char) : Rust (Writer σ nRow nColumn) :=
  w.putString dev s

/-- One call of the text interface. -/
inductive Call where
  | putChar (c : Char)
  | putString (s : List Char)
  | writeStr (s : List Char)

/-- The characters a call hands over. -/
def Call.text : Call → List Char
  | .putChar c => [c]
  | .putString s => s
  | .writeStr s => s

def call (w : Writer σ nRow nColumn) : Call → Rust (Writer σ nRow nColumn)
  | .putChar c => w.putChar dev c
  | .putString s => w.putString dev s
  | .writeStr s => w.writeStr dev s

/-- A sequence of calls in order. -/
def run (w : Writer σ nRow nColumn) (calls : List Call) : Rust (Writer σ nRow nColumn) :=
  calls.foldlM (fun w k => w.call dev k) w

/-- However the text is cut into calls, the console receives its characters. -/
theorem run_eq_putString (w : Writer σ nRow nColumn) (calls : List Call) :
    w.run dev calls = w.putString dev (calls.flatMap Call.text) := by
  induction calls generalizing w with
  | nil => rfl
  | cons k calls ih =>
      have hcall : w.call dev k = w.putString dev k.text := by
        cases k with
        | putChar c => simp [call, Call.text, putString]
        | putString s => rfl
        | writeStr s => rfl
      rw [run, List.foldlM_cons, hcall, List.flatMap_cons, putString, putString,
        List.foldlM_append]
      congr 1
      funext w'
      exact ih w'

theorem putString_append (w : Writer σ nRow nColumn) (s t : List Char) :
    w.putString dev (s ++ t) = w.putString dev s >>= fun w' => w'.putString dev t :=
  List.foldlM_append

/-- The cursor is inside the buffer, or at the start of the row below it. -/
structure WellFormed (w : Writer σ nRow nColumn) : Prop where
  y_le : w.position.y ≤ nRow
  x_le : w.position.x ≤ nColumn
  x_eq : w.position.y = nRow → w.position.x = 0

theorem WellFormed.new (screen : σ) : (new screen : Writer σ nRow nColumn).WellFormed :=
  ⟨Nat.zero_le _, Nat.zero_le _, fun _ => rfl⟩

theorem scroll_eq {w : Writer σ nRow nColumn} (dy : Nat) (hdy : 0 < dy) (hle : dy ≤ nRow)
    (hy : dy ≤ w.position.y) :
    w.scroll dy =
      .ok { w with buffer := w.buffer.scrolled dy, position := ⟨0, w.position.y - dy⟩ } := by
  have hloops := Buffer.moveUp_clearRows hdy hle w.buffer
  have hrow : usizeSub nRow dy = .ok (nRow - dy) := usizeSub_eq_ok.mpr ⟨hle, rfl⟩
  have hpos : usizeSub w.position.y dy = .ok (w.position.y - dy) := usizeSub_eq_ok.mpr ⟨hy, rfl⟩
  obtain ⟨moved, hmoved, hcleared⟩ := Rust.bind_eq_ok.mp hloops
  simp [scroll, hrow, hpos, hmoved, hcleared, bind, Except.bind, pure, Except.pure]

/-- Redrawing changes neither the cursor nor the buffer. -/
@[simp] theorem flush_position (w : Writer σ nRow nColumn) :
    (w.flush dev).position = w.position := rfl

theorem newLine_of_lt {w : Writer σ nRow nColumn} (h : w.position.y < nRow) :
    w.newLine dev = .ok (flush dev { w with position := w.position.justNewLine }) := by
  simp [newLine, h, pure, Except.pure]

/-- With the cursor below the buffer, `new_line` only carries out the pending scroll. -/
theorem newLine_of_eq {w : Writer σ nRow nColumn} (hrow : 0 < nRow) (h : w.position.y = nRow) :
    w.newLine dev = .ok (flush dev
      { w with buffer := w.buffer.scrolled 1, position := ⟨0, nRow - 1⟩ }) := by
  have hscroll := scroll_eq (w := w) 1 (by decide) hrow (by omega)
  simp [newLine, h, hscroll, bind, Except.bind, pure, Except.pure]

theorem storeAndAdvance_eq {w : Writer σ nRow nColumn} (hy : w.position.y < nRow)
    (hx : w.position.x < nColumn) (c : Char) :
    w.storeAndAdvance c = .ok { w with
      buffer := w.buffer.set w.position.y (w.buffer[w.position.y].set w.position.x c)
      position := ⟨w.position.x + 1, w.position.y⟩ } := by
  simp [storeAndAdvance, store, Buffer.setCell_eq _ hy hx, bind, Except.bind, pure, Except.pure]

end Writer

end LemolaOs.Console
