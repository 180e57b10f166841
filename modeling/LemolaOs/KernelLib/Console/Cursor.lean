import LemolaOs.KernelLib.Console.Writer

/-!
# The cursor stays in the buffer

The cursor may rest one past the last column, and at the start of the row below the
buffer. Every operation of the console has to take it back before it stores a
character: `putChar_wellFormed` goes through the branches of `put_char`, and
`runOps_wellFormed` through every sequence of calls, `new_line` and `flush` among
them. That a call returns says that no index was out of range and that the
subtractions of `scroll` did not underflow.
-/

namespace LemolaOs.Console.Writer

variable {σ : Type} {nRow nColumn : Nat} {d : AsciiWriter σ} {w : Writer σ nRow nColumn}

/-- One call of the console's interface. -/
inductive Op where
  | text (call : Call)
  | newLine
  | flush

def op (d : AsciiWriter σ) (w : Writer σ nRow nColumn) : Op → Rust (Writer σ nRow nColumn)
  | .text k => w.call d k
  | .newLine => w.newLine d
  | .flush => .ok (w.flush d)

/-- A sequence of calls in order. -/
def runOps (d : AsciiWriter σ) (w : Writer σ nRow nColumn) (ops : List Op) :
    Rust (Writer σ nRow nColumn) :=
  ops.foldlM (fun w o => w.op d o) w

theorem WellFormed.flush (wf : w.WellFormed) : (w.flush d).WellFormed := ⟨wf.y_le, wf.x_le, wf.x_eq⟩

theorem newLine_wellFormed (hrow : 0 < nRow) (wf : w.WellFormed) :
    ∃ w', w.newLine d = .ok w' ∧ w'.WellFormed ∧ w'.position.x = 0 := by
  have hy := wf.y_le
  by_cases hlast : w.position.y = nRow
  · rw [newLine_of_eq d hrow hlast]
    refine ⟨_, rfl, WellFormed.flush ⟨?_, Nat.zero_le _, fun _ => rfl⟩, rfl⟩
    dsimp only
    omega
  · rw [newLine_of_lt d (by omega)]
    refine ⟨_, rfl, WellFormed.flush ⟨?_, Nat.zero_le _, fun _ => rfl⟩, rfl⟩
    dsimp only [CursorPosition.justNewLine]
    omega

/-- The check behind `new_line` brings the cursor to the start of a row of the buffer. -/
theorem scrollIfBelow_inside (hrow : 0 < nRow) (wf : w.WellFormed) (hx : w.position.x = 0) :
    ∃ w', w.scrollIfBelow = .ok w' ∧ w'.position.y < nRow ∧ w'.position.x = 0 := by
  have hy := wf.y_le
  unfold scrollIfBelow
  by_cases hlast : w.position.y = nRow
  · rw [if_pos hlast, scroll_eq 1 (by decide) hrow (by omega)]
    refine ⟨_, rfl, ?_, rfl⟩
    dsimp only
    omega
  · rw [if_neg hlast]
    exact ⟨w, rfl, by omega, hx⟩

theorem storeAndAdvance_wellFormed (hy : w.position.y < nRow) (hx : w.position.x < nColumn)
    (c : Char) : ∃ w', w.storeAndAdvance c = .ok w' ∧ w'.WellFormed := by
  rw [storeAndAdvance_eq hy hx]
  refine ⟨_, rfl, Nat.le_of_lt hy, hx, ?_⟩
  dsimp only
  omega

theorem putChar_wellFormed (hrow : 0 < nRow) (hcol : 0 < nColumn) (wf : w.WellFormed) (c : Char) :
    ∃ w', w.putChar d c = .ok w' ∧ w'.WellFormed := by
  obtain ⟨w₁, hnewLine, wf₁, hx₁⟩ := newLine_wellFormed (d := d) hrow wf
  by_cases hc : c = '\n'
  · rw [putChar, if_pos hc]
    exact ⟨w₁, hnewLine, wf₁⟩
  · rw [putChar, if_neg hc]
    by_cases hin : w.position.x < nColumn ∧ w.position.y < nRow
    · rw [if_pos hin]
      exact storeAndAdvance_wellFormed hin.2 hin.1 c
    · obtain ⟨w₂, hscroll, hy₂, hx₂⟩ := scrollIfBelow_inside hrow wf₁ hx₁
      rw [if_neg hin, hnewLine, Rust.ok_bind, hscroll, Rust.ok_bind]
      exact storeAndAdvance_wellFormed hy₂ (by omega) c

theorem putString_wellFormed (hrow : 0 < nRow) (hcol : 0 < nColumn) (wf : w.WellFormed)
    (s : List Char) : ∃ w', w.putString d s = .ok w' ∧ w'.WellFormed :=
  Rust.foldlM_invariant (fun _ c wf => putChar_wellFormed hrow hcol wf c) s wf

theorem op_wellFormed (hrow : 0 < nRow) (hcol : 0 < nColumn) (wf : w.WellFormed) (o : Op) :
    ∃ w', w.op d o = .ok w' ∧ w'.WellFormed := by
  cases o with
  | text k =>
      cases k with
      | putChar c => exact putChar_wellFormed hrow hcol wf c
      | putString s => exact putString_wellFormed hrow hcol wf s
      | writeStr s => exact putString_wellFormed hrow hcol wf s
  | newLine =>
      obtain ⟨w', hnewLine, wf', _⟩ := newLine_wellFormed (d := d) hrow wf
      exact ⟨w', hnewLine, wf'⟩
  | flush => exact ⟨_, rfl, wf.flush⟩

/-- Whatever is called on a fresh console returns, and leaves the cursor in the buffer or at
the start of the row below it. -/
theorem runOps_wellFormed (nRow nColumn : Nat) (hrow : 1 ≤ nRow) (hcol : 1 ≤ nColumn)
    (d : AsciiWriter σ) (screen : σ) (ops : List Op) :
    ∃ w : Writer σ nRow nColumn, (new screen).runOps d ops = .ok w ∧
      w.position.y ≤ nRow ∧ w.position.x ≤ nColumn ∧ (w.position.y = nRow → w.position.x = 0) := by
  obtain ⟨w, hw, wf⟩ := Rust.foldlM_invariant
    (fun _ o wf => op_wellFormed (d := d) hrow hcol wf o) ops (WellFormed.new screen)
  exact ⟨w, hw, wf.y_le, wf.x_le, wf.x_eq⟩

/-- Two newlines on a console of one cell. -/
theorem runOps_wellFormed_newlines :
    ∃ w : Writer Unit 1 1, (new ()).runOps ⟨fun s _ _ _ _ _ => s⟩ [.newLine, .newLine] = .ok w ∧
      w.position.y ≤ 1 ∧ w.position.x ≤ 1 ∧ (w.position.y = 1 → w.position.x = 0) :=
  runOps_wellFormed 1 1 (by decide) (by decide) _ () _

end LemolaOs.Console.Writer
