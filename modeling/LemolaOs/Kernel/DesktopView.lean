import LemolaOs.Lifegame.Task
import LemolaOs.Usb.Callbacks

/-!
# What the desktop is for

The kernel has a mouse, a keyboard, a console and a game of life on one screen, and two tasks take
turns: one polls the host controller, calls back with the reports of the devices and flushes the
layers after each event, the other one is the game. `View` says what a user sees of that, without
layers, buffers and panics: where the cursor is, what has been typed, and what has happened on the
board.

A click waits until the game takes the clicks, and `births_append_pending` is what becomes of
them: those that have brought a cell to life and those that wait are, in order, exactly the clicks
on the board that were made.
-/

namespace LemolaOs.Kernel

open Lifegame Usb.Callbacks

/-- What the two tasks do, one at a time. -/
inductive Input where
  /-- A report of the mouse. -/
  | mouse (buf : List UInt8)
  /-- A report of the keyboard. -/
  | keyboard (buf : List UInt8)
  /-- `print!`. -/
  | print (text : List Char)
  /-- The flush that the other task makes after an event. -/
  | flush
  /-- The game is polled. -/
  | poll

/-- What has happened on the board. -/
inductive Event where
  | birth (cell : Nat × Nat)
  | generation

def Event.apply (life : Life) : Event → Life
  | .birth cell => life.births [cell]
  | .generation => life.generation

/-- The board after some events. -/
def replay (log : List Event) : Life := log.foldl Event.apply .initial

/-- The cells that were brought to life, in order. -/
def births (log : List Event) : List (Nat × Nat) :=
  log.filterMap fun
    | .birth cell => some cell
    | .generation => none

/-- Where the game stands: between two rounds of its inner loop, or at one of the two awaits
behind it. -/
inductive Phase where
  | unpolled
  | clicks (round : Nat)
  | flushed
  | rendered

structure View where
  cursor : Nat × Nat
  pending : List (Nat × Nat)
  log : List Event
  running : Bool
  text : List Char
  phase : Phase
  /-- The board that was drawn last. -/
  shown : Option Life

/-- The cell at a position of the screen. -/
def cellUnder (p : Nat × Nat) : Option (Nat × Nat) :=
  if p.1 / pixcelSize < size ∧ p.2 / pixcelSize < size then
    some (p.1 / pixcelSize, p.2 / pixcelSize)
  else none

/-- The cell that a report clicks on. -/
def clickOf (cursor : Nat × Nat) (buf : List UInt8) : Option (Nat × Nat) :=
  if buf.getD 0 0 &&& 1 ≠ 0 then cellUnder cursor else none

/-- By how much a report moves the cursor. -/
def motion (buf : List UInt8) : Int × Int := (asI8 (buf.getD 1 0), asI8 (buf.getD 2 0))

/-- The cursor stops at the left and at the upper edge. -/
def moved (cursor : Nat × Nat) (motion : Int × Int) : Nat × Nat :=
  ((cursor.1 + motion.1).toNat, (cursor.2 + motion.2).toNat)

namespace View

def start : View where
  cursor := (0, 0)
  pending := []
  log := []
  running := true
  text := []
  phase := .unpolled
  shown := none

/-- The board. -/
def life (v : View) : Life := replay v.log

/-- The clicks that wait are taken, and drawn if there are any. -/
def takeClicks (v : View) (round : Nat) : View :=
  let log := v.log ++ v.pending.map .birth
  { v with
    pending := []
    log := log
    phase := .clicks round
    shown := if v.pending.isEmpty then v.shown else some (replay log) }

/-- A generation passes if the game is running, and the board is drawn. -/
def pass (v : View) : View :=
  let log := if v.running then v.log ++ [.generation] else v.log
  { v with log := log, phase := .rendered, shown := some (replay log) }

def poll (v : View) : View :=
  match v.phase with
  | .unpolled => v.takeClicks 0
  | .clicks round =>
    if round + 1 < rounds then v.takeClicks (round + 1) else { v with phase := .flushed }
  | .flushed => v.pass
  | .rendered => v.takeClicks 0

def step (v : View) : Input → View
  | .mouse buf =>
    { v with
      pending := v.pending ++ (clickOf v.cursor buf).toList
      cursor := moved v.cursor (motion buf) }
  | .keyboard buf =>
    { v with running := runningAfter v.running (typed buf), text := v.text ++ typed buf }
  | .print text => { v with text := v.text ++ text }
  | .flush => v
  | .poll => v.poll

/-- The inputs that the kernel survives. The cursor stays below `isize::MAX`. -/
def Survives (v : View) : Input → Prop
  | .mouse buf => 3 ≤ buf.length ∧
      v.cursor.1 + (motion buf).1 < 2 ^ 63 ∧ v.cursor.2 + (motion buf).2 < 2 ^ 63
  | .keyboard buf => InTables buf
  | .print _ => True
  | .flush => True
  | .poll => True

def run (v : View) (inputs : List Input) : View := inputs.foldl step v

end View

/-- After how many polls the clicks are taken. -/
def Phase.pollsLeft : Phase → Nat
  | .unpolled => 1
  | .clicks round => if round + 1 < rounds then 1 else 3
  | .flushed => 2
  | .rendered => 1

/-- How often the game is polled. -/
def polls : List Input → Nat
  | [] => 0
  | .poll :: inputs => polls inputs + 1
  | _ :: inputs => polls inputs

/-- The clicks on the board that some inputs make, with the cursor at `cursor` before them. -/
def clicks : (cursor : Nat × Nat) → List Input → List (Nat × Nat)
  | _, [] => []
  | cursor, .mouse buf :: inputs =>
    (clickOf cursor buf).toList ++ clicks (moved cursor (motion buf)) inputs
  | cursor, _ :: inputs => clicks cursor inputs

section Clicks

variable {v : View} {i : Input} {inputs : List Input}

theorem births_append (first second : List Event) :
    births (first ++ second) = births first ++ births second := List.filterMap_append ..

theorem births_map_birth (cells : List (Nat × Nat)) : births (cells.map .birth) = cells := by
  rw [births, List.filterMap_map]
  exact List.filterMap_some

theorem births_generation : births [.generation] = [] := rfl

/-- Cells that are brought to life one after another are brought to life together. -/
theorem foldl_birth (life : Life) (cells : List (Nat × Nat)) :
    (cells.map Event.birth).foldl Event.apply life = life.births cells := by
  induction cells generalizing life with
  | nil =>
      funext x y
      simp [Life.births]
  | cons cell cells ih =>
      rw [List.map_cons, List.foldl_cons, ih]
      funext x y
      simp [Life.births, Event.apply, Bool.or_assoc, Bool.or_left_comm]

theorem replay_births (log : List Event) (cells : List (Nat × Nat)) :
    replay (log ++ cells.map .birth) = (replay log).births cells := by
  rw [replay, List.foldl_append, foldl_birth]
  rfl

theorem replay_generation (log : List Event) :
    replay (log ++ [.generation]) = (replay log).generation := by
  rw [replay, List.foldl_append]
  rfl

theorem poll_cursor (v : View) : v.poll.cursor = v.cursor := by
  rw [View.poll]
  split
  · rfl
  · split <;> rfl
  · rfl
  · rfl

/-- A poll takes the clicks in order, or leaves them where they are. -/
theorem births_append_pending_poll (v : View) :
    births v.poll.log ++ v.poll.pending = births v.log ++ v.pending := by
  have htake : ∀ round, births (v.takeClicks round).log ++ (v.takeClicks round).pending =
      births v.log ++ v.pending := by
    intro round
    rw [View.takeClicks]
    dsimp only
    rw [births_append, births_map_birth, List.append_nil]
  rw [View.poll]
  split
  · exact htake 0
  · split
    · exact htake _
    · rfl
  · rw [View.pass]
    dsimp only
    split
    · rw [births_append, births_generation, List.append_nil]
    · rfl
  · exact htake 0

theorem births_append_pending_step (v : View) (i : Input) (inputs : List Input) :
    births (v.step i).log ++ (v.step i).pending ++ clicks (v.step i).cursor inputs =
      births v.log ++ v.pending ++ clicks v.cursor (i :: inputs) := by
  cases i with
  | mouse buf =>
      simp only [View.step, clicks, List.append_assoc]
  | keyboard buf => rfl
  | print text => rfl
  | flush => rfl
  | poll =>
      rw [View.step, births_append_pending_poll, poll_cursor]
      rfl

/-- Whatever happens in between, every click is taken once and in order, or waits. -/
theorem births_append_pending (v : View) (inputs : List Input) :
    births (v.run inputs).log ++ (v.run inputs).pending =
      births v.log ++ v.pending ++ clicks v.cursor inputs := by
  induction inputs generalizing v with
  | nil => exact (List.append_nil _).symm
  | cons i inputs ih =>
      rw [← births_append_pending_step, ← ih]
      rfl

/-- A poll takes the clicks that wait, or brings the poll nearer that does. -/
theorem poll_cases (v : View) :
    births v.poll.log = births v.log ++ v.pending ∨
      births v.poll.log = births v.log ∧ v.poll.pending = v.pending ∧
        v.poll.phase.pollsLeft + 1 = v.phase.pollsLeft := by
  have htake : ∀ round, births (v.takeClicks round).log = births v.log ++ v.pending := by
    intro round
    rw [View.takeClicks]
    dsimp only
    rw [births_append, births_map_birth]
  rw [View.poll]
  split
  · exact .inl (htake 0)
  next round hphase =>
    split
    · exact .inl (htake _)
    next hlast => exact .inr ⟨rfl, rfl, by rw [hphase, Phase.pollsLeft, if_neg hlast]; rfl⟩
  next hphase =>
    refine .inr ⟨?_, rfl, by rw [hphase]; rfl⟩
    rw [View.pass]
    dsimp only
    split
    · rw [births_append, births_generation, List.append_nil]
    · rfl
  · exact .inl (htake 0)

/-- No birth is taken back. -/
theorem births_prefix (v : View) (inputs : List Input) :
    births v.log <+: births (v.run inputs).log := by
  induction inputs generalizing v with
  | nil => exact List.prefix_rfl
  | cons i inputs ih =>
      refine List.IsPrefix.trans ?_ (ih (v.step i))
      cases i with
      | mouse buf => exact List.prefix_rfl
      | keyboard buf => exact List.prefix_rfl
      | print text => exact List.prefix_rfl
      | flush => exact List.prefix_rfl
      | poll =>
          rw [View.step]
          obtain htaken | ⟨hkept, -, -⟩ := poll_cases v
          · rw [htaken]
            exact List.prefix_append ..
          · rw [hkept]

/-- With enough polls everything that waits is on the board. -/
theorem births_append_pending_prefix (v : View) (inputs : List Input)
    (hpolls : v.phase.pollsLeft ≤ polls inputs) :
    births v.log ++ v.pending <+: births (v.run inputs).log := by
  induction inputs generalizing v with
  | nil =>
      exfalso
      have hpos : 0 < v.phase.pollsLeft := by
        cases v.phase with
        | clicks round =>
            rw [Phase.pollsLeft]
            split <;> decide
        | _ => decide
      rw [polls] at hpolls
      omega
  | cons i inputs ih =>
      cases i with
      | mouse buf =>
          refine List.IsPrefix.trans ?_ (ih (v.step (.mouse buf)) hpolls)
          rw [View.step]
          exact ⟨(clickOf v.cursor buf).toList, by simp⟩
      | keyboard buf => exact ih (v.step (.keyboard buf)) hpolls
      | print text => exact ih (v.step (.print text)) hpolls
      | flush => exact ih v hpolls
      | poll =>
          obtain htaken | ⟨hkept, hpending, hleft⟩ := poll_cases v
          · rw [← htaken]
            exact births_prefix v.poll inputs
          · rw [← hkept, ← hpending]
            refine ih v.poll ?_
            rw [polls] at hpolls
            omega

theorem Phase.pollsLeft_le (phase : Phase) : phase.pollsLeft ≤ 3 := by
  cases phase with
  | clicks round =>
      rw [Phase.pollsLeft]
      split <;> decide
  | _ => decide

end Clicks

end LemolaOs.Kernel
