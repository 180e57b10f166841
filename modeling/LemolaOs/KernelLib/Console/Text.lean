import LemolaOs.KernelLib.Console.Cursor
import LemolaOs.KernelLib.Console.Terminal

/-!
# The text of a console

What a console holds, its characters and its cursor, depends on the text that it was given and
not on the screen behind it, nor on when it was drawn. `Holds` compares a console with one that
was given the same text at once and has no screen. A console that holds a text is a window of the
terminal that was given the text, as long as no newline is lost (`Holds.simulates`).
-/

namespace LemolaOs.Console.Writer

variable {σ : Type} {nRow nColumn : Nat} {d : AsciiWriter σ} {w w' : Writer σ nRow nColumn}
  {text s : List Char}

/-- The console without its screen. -/
def forget (w : Writer σ nRow nColumn) : Writer Unit nRow nColumn where
  writer := ()
  position := w.position
  backgroundColor := w.backgroundColor
  foregroundColor := w.foregroundColor
  buffer := w.buffer

theorem scroll_forget (w : Writer σ nRow nColumn) (dy : Nat) :
    w.forget.scroll dy = (w.scroll dy).map forget := by
  rw [scroll, scroll]
  cases usizeSub nRow dy with
  | error e => rfl
  | ok n =>
      change (Buffer.moveUp dy w.buffer n >>= _) = ((Buffer.moveUp dy w.buffer n >>= _).map _)
      cases Buffer.moveUp dy w.buffer n with
      | error e => rfl
      | ok moved =>
          change (moved.clearRows n dy >>= _) = ((moved.clearRows n dy >>= _).map _)
          cases moved.clearRows n dy with
          | error e => rfl
          | ok cleared =>
              change (usizeSub w.position.y dy >>= _) = ((usizeSub w.position.y dy >>= _).map _)
              cases usizeSub w.position.y dy <;> rfl

theorem newLine_forget (w : Writer σ nRow nColumn) :
    w.forget.newLine blind = (w.newLine d).map forget := by
  rw [newLine, newLine]
  change (if w.position.y < nRow then _ else _) = _
  split
  · rfl
  · rw [scroll_forget]
    cases w.scroll 1 <;> rfl

theorem storeAndAdvance_forget (w : Writer σ nRow nColumn) (c : Char) :
    w.forget.storeAndAdvance c = (w.storeAndAdvance c).map forget := by
  rw [storeAndAdvance, storeAndAdvance, store, store]
  change ((w.buffer.setCell w.position.y w.position.x c >>= _) >>= _) =
    (((w.buffer.setCell w.position.y w.position.x c >>= _) >>= _).map _)
  cases w.buffer.setCell w.position.y w.position.x c <;> rfl

theorem scrollIfBelow_forget (w : Writer σ nRow nColumn) :
    w.forget.scrollIfBelow = w.scrollIfBelow.map forget := by
  rw [scrollIfBelow, scrollIfBelow, scroll_forget]
  change (if w.position.y = nRow then _ else _) = _
  split <;> rfl

theorem putChar_forget (w : Writer σ nRow nColumn) (c : Char) :
    w.forget.putChar blind c = (w.putChar d c).map forget := by
  rw [putChar, putChar, @newLine_forget _ _ _ d, storeAndAdvance_forget]
  change (if c = '\n' then _ else if w.position.x < nColumn ∧ w.position.y < nRow then _ else _) = _
  split
  · rfl
  · split
    · rfl
    · cases w.newLine d with
      | error e => rfl
      | ok below =>
          change (below.forget.scrollIfBelow >>= _) = ((below.scrollIfBelow >>= _).map _)
          rw [scrollIfBelow_forget]
          cases below.scrollIfBelow with
          | error e => rfl
          | ok inside => exact storeAndAdvance_forget inside c

theorem putString_forget (w : Writer σ nRow nColumn) (s : List Char) :
    w.forget.putString blind s = (w.putString d s).map forget := by
  induction s generalizing w with
  | nil => rfl
  | cons c s ih =>
      rw [putString, putString, List.foldlM_cons, List.foldlM_cons, @putChar_forget _ _ _ d]
      cases w.putChar d c with
      | error e => rfl
      | ok w₁ => exact ih w₁

/-- The console holds what the text leaves on a new one. -/
def Holds (w : Writer σ nRow nColumn) (text : List Char) : Prop :=
  (new () : Writer Unit nRow nColumn).putString blind text = .ok w.forget

theorem Holds.new (screen : σ) : (new screen : Writer σ nRow nColumn).Holds [] := rfl

theorem Holds.flush (h : w.Holds text) : (w.flush d).Holds text := h

theorem Holds.putString (h : w.Holds text) (hput : w.putString d s = .ok w') :
    w'.Holds (text ++ s) := by
  rw [Holds, putString_append, h, Rust.ok_bind, @putString_forget _ _ _ d, hput]
  rfl

theorem Holds.wellFormed (hrow : 0 < nRow) (hcol : 0 < nColumn) (h : w.Holds text) :
    w.WellFormed := by
  obtain ⟨v, hv, wf⟩ := putString_wellFormed (d := blind) hrow hcol (WellFormed.new ()) text
  obtain rfl : v = w.forget := Except.ok.inj (hv.symm.trans h)
  exact ⟨wf.y_le, wf.x_le, wf.x_eq⟩

/-- Text goes on behind the text that is there. -/
theorem Holds.exists_putString (hrow : 0 < nRow) (hcol : 0 < nColumn) (h : w.Holds text)
    (s : List Char) : ∃ w', w.putString d s = .ok w' ∧ w'.Holds (text ++ s) := by
  obtain ⟨w', hput, -⟩ := putString_wellFormed (d := d) hrow hcol (h.wellFormed hrow hcol) s
  exact ⟨w', hput, h.putString hput⟩

/-- What a console holds is what a terminal shows: the buffer is a window of the page of a terminal
that was given the text, if the text loses no newline. -/
theorem Holds.simulates (hrow : 0 < nRow) (hcol : 0 < nColumn) (h : w.Holds text)
    (hok : ∀ (before : List Char) (c : Char) (v : Writer Unit nRow nColumn),
      before ++ [c] <+: text → v.Holds before → ¬ v.LosesNewline c) :
    w.Simulates (Terminal.run nColumn text) := by
  obtain ⟨v, hput, -, off, hsim⟩ := putString_simulates (d := blind) hrow hcol () text hok
  obtain rfl : v = w.forget := Except.ok.inj (hput.symm.trans h)
  exact ⟨off, hsim.cells, hsim.row, hsim.col⟩

section Keeps

variable {P : Writer σ nRow nColumn → Prop}

/-- The console draws, and writes to its buffer and its cursor, and nothing else. -/
structure Kept (d : AsciiWriter σ) (P : Writer σ nRow nColumn → Prop) : Prop where
  flush : ∀ w, P w → P (w.flush d)
  edit : ∀ w position buffer, P w → P { w with position := position, buffer := buffer }

theorem scroll_edits {dy : Nat} (h : w.scroll dy = .ok w') :
    ∃ position buffer, w' = { w with position := position, buffer := buffer } := by
  simp only [scroll, Rust.bind_eq_ok] at h
  obtain ⟨_, -, _, -, buffer, -, y, -, h⟩ := h
  cases h
  exact ⟨_, _, rfl⟩

theorem storeAndAdvance_edits {c : Char} (h : w.storeAndAdvance c = .ok w') :
    ∃ position buffer, w' = { w with position := position, buffer := buffer } := by
  simp only [storeAndAdvance, store, Rust.bind_eq_ok] at h
  obtain ⟨_, ⟨buffer, -, hstore⟩, h⟩ := h
  cases hstore
  cases h
  exact ⟨_, _, rfl⟩

/-- A new line ends with a flush. -/
theorem newLine_flushes (h : w.newLine d = .ok w') :
    ∃ position buffer, w' = flush d { w with position := position, buffer := buffer } := by
  rw [newLine] at h
  split at h
  · cases h
    exact ⟨_, w.buffer, rfl⟩
  · obtain ⟨v, hscroll, h⟩ := Rust.bind_eq_ok.mp h
    cases h
    obtain ⟨position, buffer, rfl⟩ := scroll_edits hscroll
    exact ⟨position, buffer, rfl⟩

theorem Kept.newLine (hkept : Kept d P) (h : P w) (hcall : w.newLine d = .ok w') : P w' := by
  obtain ⟨position, buffer, rfl⟩ := newLine_flushes hcall
  exact hkept.flush _ (hkept.edit w position buffer h)

theorem Kept.putChar {c : Char} (hkept : Kept d P) (h : P w) (hcall : w.putChar d c = .ok w') :
    P w' := by
  rw [Writer.putChar] at hcall
  split at hcall
  · exact hkept.newLine h hcall
  split at hcall
  · obtain ⟨position, buffer, rfl⟩ := storeAndAdvance_edits hcall
    exact hkept.edit w position buffer h
  · obtain ⟨v, hline, hcall⟩ := Rust.bind_eq_ok.mp hcall
    obtain ⟨u, hscroll, hcall⟩ := Rust.bind_eq_ok.mp hcall
    obtain ⟨position, buffer, rfl⟩ := storeAndAdvance_edits hcall
    refine hkept.edit u position buffer ?_
    have hv := hkept.newLine h hline
    rw [scrollIfBelow] at hscroll
    split at hscroll
    · obtain ⟨position, buffer, rfl⟩ := scroll_edits hscroll
      exact hkept.edit v position buffer hv
    · cases hscroll
      exact hv

theorem Kept.putString (hkept : Kept d P) (h : P w) (hcall : w.putString d s = .ok w') :
    P w' := by
  induction s generalizing w with
  | nil =>
      cases hcall
      exact h
  | cons c s ih =>
      obtain ⟨v, hput, hcall⟩ := Rust.bind_eq_ok.mp (List.foldlM_cons.symm.trans hcall)
      exact ih (hkept.putChar h hput) hcall

/-- Text that ends in a newline is on the screen. -/
theorem Kept.putString_newline (hkept : Kept d P) (h : P w)
    (hcall : w.putString d (s ++ ['\n']) = .ok w') : ∃ v, P v ∧ w' = v.flush d := by
  rw [putString_append] at hcall
  obtain ⟨v, hput, hcall⟩ := Rust.bind_eq_ok.mp hcall
  obtain ⟨u, hline, hdone⟩ := Rust.bind_eq_ok.mp (List.foldlM_cons.symm.trans hcall)
  cases hdone
  obtain ⟨position, buffer, rfl⟩ := newLine_flushes hline
  exact ⟨_, hkept.edit v position buffer (hkept.putString h hput), rfl⟩

end Keeps

end LemolaOs.Console.Writer
