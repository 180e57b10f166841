import LemolaOs.KernelLib.Console.Writer

/-!
# The console and the terminal it stands for

`Terminal` is what a console is for: a page of unbounded height on which a newline
goes to the next row and a character wraps at the last column. A `Writer` shows a
window of that page, `N_ROW` rows from some scroll offset on.

Each operation of the console is matched with one of the terminal. The wrap and
the pending scroll match. A newline that arrives while the cursor waits below the
buffer does not: it carries out the pending scroll and is then used up, so the
cursor stays one row behind. `LosesNewline` is that situation with something
visible on the rows that move; `simulates_iff` shows that it is the only one in
which the console and the terminal part.
-/

namespace LemolaOs.Console

/-- A page of unbounded height with its cursor. -/
structure Terminal where
  rows : Nat → Nat → Char
  row : Nat
  col : Nat

namespace Terminal

def blank : Terminal := ⟨fun _ _ => ' ', 0, 0⟩

def newLine (t : Terminal) : Terminal := { t with row := t.row + 1, col := 0 }

def store (t : Terminal) (c : Char) : Terminal where
  rows i j := if i = t.row ∧ j = t.col then c else t.rows i j
  row := t.row
  col := t.col + 1

/-- One character on a terminal of `nColumn` columns. -/
def put (nColumn : Nat) (t : Terminal) (c : Char) : Terminal :=
  if c = '\n' then t.newLine
  else if t.col = nColumn then t.newLine.store c
  else t.store c

def run (nColumn : Nat) (text : List Char) : Terminal := text.foldl (put nColumn) blank

/-- Nothing is written at or after the cursor. -/
def Tidy (t : Terminal) : Prop :=
  ∀ i j, t.row < i ∨ i = t.row ∧ t.col ≤ j → t.rows i j = ' '

theorem Tidy.newLine {t : Terminal} (h : t.Tidy) : t.newLine.Tidy := by
  intro i j hij
  refine h i j (.inl ?_)
  simp only [Terminal.newLine] at hij
  omega

theorem Tidy.store {t : Terminal} (h : t.Tidy) (c : Char) : (t.store c).Tidy := by
  intro i j hij
  simp only [Terminal.store] at hij ⊢
  rw [if_neg (by omega)]
  exact h i j (by omega)

theorem Tidy.put {t : Terminal} (h : t.Tidy) (nColumn : Nat) (c : Char) :
    (t.put nColumn c).Tidy := by
  unfold Terminal.put
  split
  · exact h.newLine
  · split
    · exact h.newLine.store c
    · exact h.store c

theorem run_concat (nColumn : Nat) (text : List Char) (c : Char) :
    run nColumn (text ++ [c]) = (run nColumn text).put nColumn c := by
  simp [run]

theorem tidy_run (nColumn : Nat) (text : List Char) : (run nColumn text).Tidy := by
  induction text using List.reverseRecOn with
  | nil => exact fun _ _ _ => rfl
  | append_singleton text c ih =>
      rw [run_concat]
      exact ih.put nColumn c

end Terminal

namespace Writer

variable {σ : Type} {nRow nColumn : Nat} {d : AsciiWriter σ}
variable {w w' : Writer σ nRow nColumn} {t : Terminal} {off : Nat}

/-- The buffer is the window of the page from row `off` on, and the cursors agree. -/
structure SimulatesAt (off : Nat) (w : Writer σ nRow nColumn) (t : Terminal) : Prop where
  cells : ∀ (i : Fin nRow) (j : Fin nColumn), w.buffer.cell i j = t.rows (off + i) j
  row : off + w.position.y = t.row
  col : w.position.x = t.col

/-- Some scroll offset makes the console a window of the terminal. -/
def Simulates (w : Writer σ nRow nColumn) (t : Terminal) : Prop :=
  ∃ off, SimulatesAt off w t

/-- A newline that finds the cursor waiting below the buffer, with a character
on one of the rows below the first. -/
def LosesNewline (w : Writer σ nRow nColumn) (c : Char) : Prop :=
  c = '\n' ∧ w.position.y = nRow ∧
    ∃ (i : Fin nRow) (j : Fin nColumn), 0 < i.val ∧ w.buffer.cell i j ≠ ' '

instance (w : Writer σ nRow nColumn) (c : Char) : Decidable (w.LosesNewline c) :=
  inferInstanceAs (Decidable (_ ∧ _ ∧ _))

theorem SimulatesAt.justNewLine (sim : SimulatesAt off w t) :
    SimulatesAt off { w with position := w.position.justNewLine } t.newLine where
  cells := sim.cells
  row := by have := sim.row; simp only [CursorPosition.justNewLine, Terminal.newLine]; omega
  col := rfl

theorem SimulatesAt.flush (sim : SimulatesAt off w t) : SimulatesAt off (w.flush d) t :=
  ⟨sim.cells, sim.row, sim.col⟩

/-- A row of the scrolled buffer is the page one row further on. The row that
enters at the bottom is the cursor's own row, on which nothing is written yet. -/
theorem SimulatesAt.scrolled (sim : SimulatesAt off w t) (tidy : t.Tidy)
    (hy : w.position.y = nRow) (hx : w.position.x = 0) (i : Fin nRow) (j : Fin nColumn) :
    (w.buffer.scrolled 1).cell i j = t.rows (off + 1 + i) j := by
  have hrow := sim.row
  have hcol := sim.col
  have hi := i.isLt
  rw [Buffer.cell_scrolled]
  by_cases hin : i.val + 1 < nRow
  · rw [dif_pos hin, sim.cells ⟨i.val + 1, hin⟩ j]
    congr 1
    dsimp only
    omega
  · rw [dif_neg hin]
    exact (tidy _ _ (.inr ⟨by omega, by omega⟩)).symm

theorem SimulatesAt.scroll (sim : SimulatesAt off w t) (tidy : t.Tidy) (hrow : 0 < nRow)
    (hy : w.position.y = nRow) (hx : w.position.x = 0) :
    SimulatesAt (off + 1)
      { w with buffer := w.buffer.scrolled 1, position := ⟨0, nRow - 1⟩ } t where
  cells := sim.scrolled tidy hy hx
  row := by have := sim.row; dsimp only; omega
  col := by rw [← sim.col, hx]

theorem SimulatesAt.store (sim : SimulatesAt off w t) (hy : w.position.y < nRow)
    (hx : w.position.x < nColumn) (c : Char) :
    SimulatesAt off { w with
      buffer := w.buffer.set w.position.y (w.buffer[w.position.y].set w.position.x c)
      position := ⟨w.position.x + 1, w.position.y⟩ } (t.store c) where
  cells i j := by
    have hrow := sim.row
    have hcol := sim.col
    simp only [Buffer.cell_set, Terminal.store]
    by_cases hij : w.position.y = i.val ∧ w.position.x = j.val
    · rw [if_pos hij, if_pos (by omega)]
    · rw [if_neg hij, if_neg (by omega)]
      exact sim.cells i j
  row := sim.row
  col := by have := sim.col; simp only [Terminal.store]; omega

/-- Storing after a newline that wrapped into row `y`: the cursor is at column
zero, in the buffer or, after one more scroll, on its last row. -/
theorem SimulatesAt.storeAtStart (sim : SimulatesAt off w t) (tidy : t.Tidy) (hrow : 0 < nRow)
    (hcol : 0 < nColumn) (hy : w.position.y ≤ nRow) (hx : w.position.x = 0) (c : Char) :
    ∃ w', (w.scrollIfBelow >>= fun v => v.storeAndAdvance c) = .ok w' ∧ w'.WellFormed ∧
      Simulates w' (t.store c) := by
  unfold scrollIfBelow
  by_cases hlast : w.position.y = nRow
  · have hscroll := scroll_eq (w := w) 1 (by decide) hrow (by omega)
    have hsim := sim.scroll tidy hrow hlast hx
    rw [hlast] at hscroll
    rw [if_pos hlast, hscroll]
    rw [Rust.ok_bind, storeAndAdvance_eq (by dsimp only; omega) hcol]
    exact ⟨_, rfl, ⟨by dsimp only; omega, by dsimp only; omega, by dsimp only; omega⟩,
      off + 1, hsim.store (by dsimp only; omega) hcol c⟩
  · have hlt : w.position.y < nRow := by omega
    rw [if_neg hlast]
    rw [Rust.ok_bind, storeAndAdvance_eq hlt (by omega)]
    exact ⟨_, rfl, ⟨hy, by dsimp only; omega, by dsimp only; omega⟩,
      off, sim.store hlt (by omega) c⟩

/-- A newline with the cursor below the buffer, when every row that moves is blank:
the page is blank there too, so the window may as well be one row further on. -/
theorem SimulatesAt.newLine_blank (sim : SimulatesAt off w t) (tidy : t.Tidy) (hrow : 0 < nRow)
    (hy : w.position.y = nRow) (hx : w.position.x = 0)
    (hblank : ∀ (i : Fin nRow) (j : Fin nColumn), 0 < i.val → w.buffer.cell i j = ' ') :
    SimulatesAt (off + 2)
      { w with buffer := w.buffer.scrolled 1, position := ⟨0, nRow - 1⟩ } t.newLine where
  cells i j := by
    have hr := sim.row
    have hscrolled := sim.scrolled tidy hy hx i j
    dsimp only [Terminal.newLine]
    have hleft : (w.buffer.scrolled 1).cell i j = ' ' := by
      rw [Buffer.cell_scrolled]
      by_cases hin : i.val + 1 < nRow
      · rw [dif_pos hin]
        exact hblank ⟨i.val + 1, hin⟩ j (Nat.succ_pos _)
      · rw [dif_neg hin]
    rw [hleft]
    by_cases hin : i.val + 2 < nRow
    · have hcell := sim.cells ⟨i.val + 2, hin⟩ j
      rw [hblank ⟨i.val + 2, hin⟩ j (Nat.succ_pos _)] at hcell
      rw [hcell]
      congr 1
      dsimp only
      omega
    · have hcol := sim.col
      exact (tidy _ _ (by omega)).symm
  row := by have := sim.row; simp only [Terminal.newLine]; omega
  col := rfl

/-- One character that does not lose a newline keeps the simulation, and no
buffer access of `put_char` is out of range. -/
theorem putChar_simulates (hrow : 0 < nRow) (hcol : 0 < nColumn) (wf : w.WellFormed)
    (tidy : t.Tidy) (sim : Simulates w t) {c : Char} (hc : ¬ w.LosesNewline c) :
    ∃ w', w.putChar d c = .ok w' ∧ w'.WellFormed ∧ Simulates w' (t.put nColumn c) := by
  obtain ⟨off, sim⟩ := sim
  have hyle := wf.y_le
  have hxle := wf.x_le
  by_cases hnl : c = '\n'
  · subst hnl
    have hterm : t.put nColumn '\n' = t.newLine := by simp [Terminal.put]
    rw [hterm, putChar, if_pos rfl]
    by_cases hy : w.position.y = nRow
    · have hblank : ∀ (i : Fin nRow) (j : Fin nColumn), 0 < i.val → w.buffer.cell i j = ' ' := by
        intro i j hi
        by_contra hne
        exact hc ⟨rfl, hy, i, j, hi, hne⟩
      rw [newLine_of_eq d hrow hy]
      refine ⟨_, rfl, ⟨?_, Nat.zero_le _, fun _ => rfl⟩, off + 2,
        (sim.newLine_blank tidy hrow hy (wf.x_eq hy) hblank).flush⟩
      simp only [flush_position]
      omega
    · rw [newLine_of_lt d (by omega)]
      refine ⟨_, rfl, ⟨?_, Nat.zero_le _, fun _ => rfl⟩, off, sim.justNewLine.flush⟩
      simp only [flush_position, CursorPosition.justNewLine]
      omega
  · rw [putChar, if_neg hnl]
    by_cases hin : w.position.x < nColumn ∧ w.position.y < nRow
    · have hne : t.col ≠ nColumn := by have := sim.col; omega
      rw [if_pos hin, storeAndAdvance_eq hin.2 hin.1]
      simp only [Terminal.put, if_neg hnl, if_neg hne]
      exact ⟨_, rfl, ⟨by dsimp only; omega, by dsimp only; omega, by dsimp only; omega⟩,
        off, sim.store hin.2 hin.1 c⟩
    · rw [if_neg hin]
      by_cases hy : w.position.y = nRow
      · -- the pending scroll is carried out; the terminal does not wrap
        have hne : t.col ≠ nColumn := by have := sim.col; have := wf.x_eq hy; omega
        have hsim := (sim.scroll tidy hrow hy (wf.x_eq hy)).flush (d := d)
        rw [newLine_of_eq d hrow hy]
        simp only [Rust.ok_bind, Terminal.put, if_neg hnl, if_neg hne]
        exact hsim.storeAtStart tidy hrow hcol (by simp only [flush_position]; omega) rfl c
      · -- a full row: both sides go to the start of the next row
        have heq : t.col = nColumn := by have := sim.col; omega
        have hsim := sim.justNewLine.flush (d := d)
        rw [newLine_of_lt d (by omega)]
        simp only [Rust.ok_bind, Terminal.put, if_neg hnl, if_pos heq]
        exact hsim.storeAtStart tidy.newLine hrow hcol
          (by simp only [flush_position, CursorPosition.justNewLine]; omega) rfl c

/-- When the window one row further on still matches, every row that moved is blank:
each equals the row below it and the page is blank from the cursor's row on. -/
theorem SimulatesAt.blank_of_newLine (sim : SimulatesAt off w t) (tidy : t.Tidy)
    (hy : w.position.y = nRow) (hx : w.position.x = 0)
    (next : ∀ (i : Fin nRow) (j : Fin nColumn),
      (w.buffer.scrolled 1).cell i j = t.rows (off + 2 + i) j)
    (k : Nat) (j : Fin nColumn) : ∀ (i : Fin nRow), 0 < i.val → i.val + k + 1 = nRow →
      w.buffer.cell i j = ' ' := by
  have hrow := sim.row
  have hcol := sim.col
  have hshift : ∀ (i : Fin nRow), 0 < i.val → w.buffer.cell i j = t.rows (off + 1 + i) j := by
    intro i hi
    have hprev := next ⟨i.val - 1, by omega⟩ j
    rw [Buffer.cell_scrolled, dif_pos (by dsimp only; omega)] at hprev
    simp only [Nat.sub_add_cancel hi] at hprev
    rw [hprev]
    congr 1
    omega
  induction k with
  | zero =>
      intro i hi hlast
      rw [hshift i hi]
      exact tidy _ _ (.inr ⟨by omega, by omega⟩)
  | succ k ih =>
      intro i hi hlast
      have hbelow := ih ⟨i.val + 1, by omega⟩ (Nat.succ_pos _) (by dsimp only; omega)
      rw [sim.cells] at hbelow
      rw [hshift i hi, ← hbelow]
      congr 1
      dsimp only
      omega

/-- A lost newline breaks the simulation at once. -/
theorem not_simulates_of_losesNewline (hrow : 0 < nRow) (wf : w.WellFormed) (tidy : t.Tidy)
    (sim : Simulates w t) {c : Char} (hc : w.LosesNewline c) (h : w.putChar d c = .ok w') :
    ¬ Simulates w' (t.put nColumn c) := by
  obtain ⟨off, sim⟩ := sim
  obtain ⟨rfl, hy, i, j, hi, hne⟩ := hc
  rintro ⟨off', sim'⟩
  rw [putChar, if_pos rfl, newLine_of_eq d hrow hy, Except.ok.injEq] at h
  subst h
  have hterm : t.put nColumn '\n' = t.newLine := by simp [Terminal.put]
  rw [hterm] at sim'
  -- the cursors alone fix the offset
  have hoff : off' = off + 2 := by
    have hbefore := sim.row
    have hafter := sim'.row
    simp only [flush_position, Terminal.newLine] at hafter
    omega
  subst hoff
  exact hne (sim.blank_of_newLine tidy hy (wf.x_eq hy) sim'.cells (nRow - 1 - i.val) j i hi
    (by omega))

/-- The console after a text that never loses a newline. -/
theorem putString_simulates (hrow : 0 < nRow) (hcol : 0 < nColumn) (screen : σ)
    (text : List Char)
    (hok : ∀ (before : List Char) (c : Char) (w : Writer σ nRow nColumn),
      before ++ [c] <+: text → (new screen).putString d before = .ok w →
        ¬ w.LosesNewline c) :
    ∃ w : Writer σ nRow nColumn, (new screen).putString d text = .ok w ∧ w.WellFormed ∧
      Simulates w (Terminal.run nColumn text) := by
  induction text using List.reverseRecOn with
  | nil =>
      refine ⟨new screen, rfl, .new screen, 0, ⟨?_, rfl, rfl⟩⟩
      intro i j
      simp [Buffer.cell, new, Buffer.blank, Buffer.blankRow, Terminal.run, Terminal.blank]
  | append_singleton text c ih =>
      obtain ⟨w, hw, wf, sim⟩ := ih fun before ch v hpre =>
        hok before ch v (hpre.trans (List.prefix_append text [c]))
      obtain ⟨w', hw', wf', sim'⟩ := putChar_simulates (d := d) hrow hcol wf
        (Terminal.tidy_run nColumn text) sim (hok text c w List.prefix_rfl hw)
      refine ⟨w', ?_, wf', by rwa [Terminal.run_concat]⟩
      rw [putString_append, hw, Rust.ok_bind]
      simpa [putString] using hw'

/-- While the console follows the terminal no newline has been lost. -/
theorem not_losesNewline_of_simulates (hrow : 0 < nRow) (hcol : 0 < nColumn) (screen : σ)
    (text : List Char)
    (hsim : ∀ before, before <+: text → ∃ w : Writer σ nRow nColumn,
      (new screen).putString d before = .ok w ∧ Simulates w (Terminal.run nColumn before)) :
    ∀ (before : List Char) (c : Char) (w : Writer σ nRow nColumn), before ++ [c] <+: text →
      (new screen).putString d before = .ok w → ¬ w.LosesNewline c := by
  induction text using List.reverseRecOn with
  | nil =>
      intro before c w hpre
      simp at hpre
  | append_singleton text ch ih =>
      have hok := ih fun before hpre => hsim before (hpre.trans (List.prefix_append text [ch]))
      intro before c w hpre hw hlost
      rw [List.prefix_concat_iff] at hpre
      rcases hpre with heq | hpre
      · -- the last character of the text: everything before it went well
        obtain ⟨rfl, hcd⟩ := List.append_inj' heq rfl
        obtain rfl : c = ch := List.singleton_inj.mp hcd
        obtain ⟨v, hv, wf, sim⟩ := putString_simulates hrow hcol screen before hok
        obtain rfl : v = w := Except.ok.inj (hv.symm.trans hw)
        obtain ⟨v', hv', sim'⟩ := hsim (before ++ [c]) List.prefix_rfl
        rw [putString_append, hw, Rust.ok_bind] at hv'
        rw [Terminal.run_concat] at sim'
        exact not_simulates_of_losesNewline (d := d) hrow wf
          (Terminal.tidy_run nColumn before) sim hlost (by simpa [putString] using hv') sim'
      · exact hok before c w hpre hw hlost

/-- The calls of a text interface amount to the concatenated text, and at every point
of it the console is a window of the terminal exactly when no newline so far came
while the cursor waited below a buffer with text on the rows that then move. -/
theorem simulates_iff (nRow nColumn : Nat) (hrow : 1 ≤ nRow) (hcol : 1 ≤ nColumn)
    (d : AsciiWriter σ) (screen : σ) (calls : List Call) :
    (new screen : Writer σ nRow nColumn).run d calls =
        (new screen).putString d (calls.flatMap Call.text) ∧
      ((∀ text, text <+: calls.flatMap Call.text →
          ∃ w : Writer σ nRow nColumn, (new screen).putString d text = .ok w ∧
            Simulates w (Terminal.run nColumn text)) ↔
        ∀ (text : List Char) (c : Char) (w : Writer σ nRow nColumn),
          text ++ [c] <+: calls.flatMap Call.text →
            (new screen).putString d text = .ok w → ¬ w.LosesNewline c) := by
  refine ⟨run_eq_putString d _ calls, ?_, ?_⟩
  · intro hsim
    exact not_losesNewline_of_simulates (d := d) hrow hcol screen _ hsim
  · intro hok text hpre
    obtain ⟨w, hw, _, sim⟩ := putString_simulates (d := d) hrow hcol screen text
      fun before c w hbefore => hok before c w (hbefore.trans hpre)
    exact ⟨w, hw, sim⟩

/-- A console without a screen behind it. -/
def blind : AsciiWriter Unit := ⟨fun s _ _ _ _ _ => s⟩

theorem simulates_iff_one_row :
    ∃ w : Writer Unit 1 3, (new ()).putString blind ['a', '\n'] = .ok w ∧
      Simulates w (Terminal.run 3 ['a', '\n']) := by
  refine (simulates_iff 1 3 (by decide) (by decide) blind ()
    [.putChar 'a', .putString ['\n']]).2.mpr ?_ ['a', '\n'] List.prefix_rfl
  rintro text c w hpre hw ⟨rfl, hy, _⟩
  have htext : text = ['a'] := by
    rcases text with _ | ⟨x, _ | ⟨y, text⟩⟩
    · simp [Call.text] at hpre
    · simp [Call.text] at hpre; rw [hpre]
    · have := hpre.length_le; simp [Call.text] at this
  subst htext
  rw [show (new () : Writer Unit 1 3).putString blind ['a'] =
    .ok ⟨(), ⟨1, 0⟩, Color.black, Color.white, #v[#v['a', ' ', ' ']]⟩ from by rfl,
    Except.ok.injEq] at hw
  subst hw
  exact absurd hy (by decide)

/-- On two rows, a blank line after two lines of text is not shown: the window
keeps the row `b` where the terminal has moved past it. -/
theorem blank_line_lost :
    ¬ ∃ w : Writer Unit 2 1, (new ()).run blind [.writeStr ['a', '\n', 'b', '\n', '\n']] = .ok w ∧
      Simulates w (Terminal.run 1 ['a', '\n', 'b', '\n', '\n']) := by
  rintro ⟨w, hw, off, sim⟩
  rw [show (new () : Writer Unit 2 1).run blind [.writeStr ['a', '\n', 'b', '\n', '\n']] =
    .ok ⟨(), ⟨0, 1⟩, Color.black, Color.white, #v[#v['b'], #v[' ']]⟩ from by rfl,
    Except.ok.injEq] at hw
  subst hw
  obtain rfl : off = 2 := by
    have hrow : off + 1 = 3 := sim.row
    omega
  exact absurd (sim.cells 0 0) (by decide)

end Writer

end LemolaOs.Console
