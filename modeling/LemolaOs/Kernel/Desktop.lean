import LemolaOs.Kernel.DesktopView
import LemolaOs.Library.Simulation

/-!
# The desktop

The state that the callbacks of the two class drivers and the game of life share: the layers, the
queue of clicks, `RUNNING` and the console. The executor runs one task at a time and a task gives
way only where it awaits, so the state changes by one `Input` after the other. The frame buffer is
the memory that both the console and a flush of the layers write to; what `write_ascii` does there
is a parameter.

`Follows` is how this state stands for a `View`. One input keeps the two together, and the kernel
survives an input exactly when `View.Survives` says so (`simulation`). A flush of the layers would
be the one step of the game that can panic; with the cursor below `isize::MAX` and a screen all of
whose offsets are words it never does.
-/

namespace LemolaOs.Kernel

open Graphics Console Lifegame Usb.Callbacks

/-- `N_CHAR_PER_LINE`. -/
def nCharPerLine : Nat := 80

/-- `N_WRITEABLE_LINE`. -/
def nWriteableLine : Nat := 25

structure Desktop where
  manager : LayerManager
  mouseLayerId : LayerId
  queue : List (Nat × Nat)
  running : Bool
  console : Writer (Nat → UInt8) nWriteableLine nCharPerLine
  lifegame : Lifegame.Task

namespace Desktop

/-- The state in which the executor starts, with `screen` on the frame buffer. -/
def boot (g : PixcelWriter) (screen : Nat → UInt8) : Rust Desktop := do
  let (id, m) ← initMouseCursorLayer (.new g)
  return {
    manager := m
    mouseLayerId := id
    queue := []
    running := true
    console := .new screen
    lifegame := .unpolled }

def call (dev : AsciiWriter (Nat → UInt8)) (d : Desktop) : Input → Rust Desktop
  | .mouse buf => do
    let (m, queue) ← mouse d.manager d.mouseLayerId buf d.queue
    return { d with manager := m, queue := queue }
  | .keyboard buf => do
    let (running, console) ← keyboard dev buf (d.running, d.console)
    return { d with running := running, console := console }
  | .print text => do
    let console ← d.console.writeStr dev text
    return { d with console := console }
  | .flush =>
    match d.manager.flush.ended with
    | some e => .error e
    | none => .ok { d with console := {
        d.console with writer := applyWrites d.console.writer d.manager.flush.effects } }
  | .poll => do
    let polled ← poll d.manager d.queue d.running d.lifegame
    return { d with
      manager := polled.manager
      queue := polled.queue
      lifegame := polled.task
      console := { d.console with writer := applyWrites d.console.writer polled.drawn } }

def run (dev : AsciiWriter (Nat → UInt8)) (d : Desktop) (inputs : List Input) : Rust Desktop :=
  inputs.foldlM (call dev) d

end Desktop

/-- The layer of the game, drawn below the cursor. -/
structure LifeLayer (g : PixcelWriter) (m : LayerManager) (shown : Option Life) : Prop where
  layerStack : m.layerStack = [1, 0]
  layer : ∃ w, m.layers 1 = some ⟨1, w⟩ ∧ LifeWindow g shown w

/-- Where the task stands, with its board. -/
inductive TaskFollows (g : PixcelWriter) (m : LayerManager) (v : View) :
    Lifegame.Task → Phase → Prop where
  | unpolled (stack : m.layerStack = [0]) (fresh : m.latestUnusedId = 1) (log : v.log = [])
      (shown : v.shown = none) : TaskFollows g m v .unpolled .unpolled
  | clicks {rows : List (List Bool)} (round : Nat) (layer : LifeLayer g m v.shown)
      (board : IsBoard rows v.life) : TaskFollows g m v (.clicks 1 round rows) (.clicks round)
  | flushed {rows : List (List Bool)} (layer : LifeLayer g m v.shown)
      (board : IsBoard rows v.life) : TaskFollows g m v (.flushed 1 rows) .flushed
  | rendered {rows : List (List Bool)} (layer : LifeLayer g m v.shown)
      (board : IsBoard rows v.life) : TaskFollows g m v (.rendered 1 rows) .rendered

/-- The layer of the cursor. -/
def CursorLayer (g : PixcelWriter) (m : LayerManager) (cursor : Nat × Nat) : Prop :=
  ∃ w, m.layers 0 = some ⟨0, w⟩ ∧ CursorWindow g ⟨cursor.1, cursor.2⟩ w

/-- The desktop stands for the view. -/
structure Follows (g : PixcelWriter) (d : Desktop) (v : View) : Prop where
  mouseLayerId : d.mouseLayerId = 0
  queue : d.queue = v.pending
  running : d.running = v.running
  console : d.console.Holds v.text
  writer : d.manager.writer = g
  cursor : CursorLayer g d.manager v.cursor
  task : TaskFollows g d.manager v d.lifegame v.phase
  cursor_lt : v.cursor.1 < 2 ^ 63 ∧ v.cursor.2 < 2 ^ 63
  pending_lt : ∀ click ∈ v.pending, click.1 < size ∧ click.2 < size

variable {g : PixcelWriter} {dev : AsciiWriter (Nat → UInt8)} {d d' : Desktop} {v : View}
  {m m' : LayerManager}

section Mouse

variable {buf : List UInt8} {cursor : Nat × Nat} {queue queue' : List (Nat × Nat)}

theorem asI8_bounds (byte : UInt8) : -128 ≤ asI8 byte ∧ asI8 byte < 128 := by
  have hlt := byte.toNat_lt
  rw [asI8]
  split
  next h =>
    have hsmall : byte.toNat < 128 := h
    omega
  next h =>
    have hlarge : ¬ byte.toNat < 128 := h
    omega

theorem moveCoordinate_eq_ok {a p : Nat} {diff : Int} (ha : a < 2 ^ 63) (hdiff : -128 ≤ diff) :
    Window.moveCoordinate a diff = .ok p ↔ a + diff < 2 ^ 63 ∧ p = (a + diff).toNat := by
  rw [Window.moveCoordinate, if_pos ha]
  by_cases h : (a : Int) + diff < 2 ^ 63
  · rw [if_pos ⟨by omega, h⟩]
    exact ⟨fun heq => ⟨h, (Except.ok.inj heq).symm⟩, fun heq => congrArg Except.ok heq.2.symm⟩
  · rw [if_neg fun hin => h hin.2]
    exact iff_of_false nofun fun hin => h hin.1

theorem cellUnder_eq_some {p cell : Nat × Nat} (h : cellUnder p = some cell) :
    cell.1 < size ∧ cell.2 < size := by
  rw [cellUnder] at h
  split at h
  next hin =>
    cases h
    exact hin
  next => cases h

/-- Below `isize::MAX` the two subtractions of the hit test subtract nothing. -/
theorem frameBufferPositionToBoardPosition_eq {p : Vector2D} (hx : p.x < 2 ^ 63)
    (hy : p.y < 2 ^ 63) :
    frameBufferPositionToBoardPosition p = .ok (cellUnder (p.x, p.y)) := by
  have hxword : p.x < usizeSize := hx.trans (by decide)
  have hyword : p.y < usizeSize := hy.trans (by decide)
  rw [frameBufferPositionToBoardPosition]
  simp only [boardPos, isizeSub_boardPos hxword, isizeSub_boardPos hyword, Rust.ok_bind,
    asUsize_asIsize hxword, asUsize_asIsize hyword, cellUnder]
  have hneg : ¬ (asIsize p.x < 0 ∨ asIsize p.y < 0) := by
    rw [asIsize_of_lt hx, asIsize_of_lt hy]
    omega
  rw [if_neg hneg]
  by_cases hin : p.x / pixcelSize < size ∧ p.y / pixcelSize < size
  · have hnot : ¬ (p.x / pixcelSize ≥ size ∨ p.y / pixcelSize ≥ size) := by omega
    rw [if_neg hnot, if_pos hin]
    rfl
  · have hout : p.x / pixcelSize ≥ size ∨ p.y / pixcelSize ≥ size := by omega
    rw [if_pos hout, if_neg hin]
    rfl

theorem index_eq_getD {i : Nat} {byte : UInt8} (h : Usb.index buf i = .ok byte) :
    i < buf.length ∧ byte = buf.getD i 0 := by
  have hget := Usb.index_eq_ok.mp h
  obtain ⟨hlt, -⟩ := List.getElem?_eq_some_iff.mp hget
  exact ⟨hlt, by rw [List.getD_eq_getElem?_getD, hget]; rfl⟩

theorem index_eq {i : Nat} (h : i < buf.length) : Usb.index buf i = .ok (buf.getD i 0) := by
  rw [Usb.index_eq_ok, List.getD_eq_getElem?_getD, List.getElem?_eq_getElem h]
  rfl

/-- A click goes into the queue if the cursor is on the board. -/
theorem click_eq {w : Window} (hlayer : m.layers 0 = some ⟨0, w⟩)
    (hw : CursorWindow g ⟨cursor.1, cursor.2⟩ w) (hcursor : cursor.1 < 2 ^ 63 ∧ cursor.2 < 2 ^ 63) :
    (if buf.getD 0 0 &&& 1 ≠ 0 then pushClick m 0 queue else pure queue) =
      .ok (queue ++ (clickOf cursor buf).toList) := by
  rw [clickOf]
  split
  · exact pushClick_eq (p := ⟨cursor.1, cursor.2⟩) hlayer hw.position
      (frameBufferPositionToBoardPosition_eq hcursor.1 hcursor.2) queue
  · exact congrArg Except.ok (List.append_nil queue).symm

/-- The callback, with the click in one piece. -/
theorem mouse_eq (m : LayerManager) (id : LayerId) (buf : List UInt8) (queue : List (Nat × Nat)) :
    mouse m id buf queue = Usb.index buf 1 >>= fun xDiff => Usb.index buf 2 >>= fun yDiff =>
      Usb.index buf 0 >>= fun button =>
        (if button &&& 1 ≠ 0 then pushClick m id queue else pure queue) >>= fun queue =>
          m.moveRelative id (asI8 xDiff) (asI8 yDiff) >>= fun m => pure (m, queue) := by
  rw [mouse]
  refine congrArg _ (funext fun xDiff => congrArg _ (funext fun yDiff =>
    congrArg _ (funext fun button => ?_)))
  split <;> rfl

/-- The motion of a report, as far as it goes. -/
theorem moveRelative_eq_ok (buf : List UInt8) {w w' : Window}
    (hw : CursorWindow g ⟨cursor.1, cursor.2⟩ w)
    (hcursor : cursor.1 < 2 ^ 63 ∧ cursor.2 < 2 ^ 63) :
    w.moveRelative (motion buf).1 (motion buf).2 = .ok w' ↔
      (cursor.1 + (motion buf).1 < 2 ^ 63 ∧ cursor.2 + (motion buf).2 < 2 ^ 63) ∧
        w' = w.moveTo ⟨(moved cursor (motion buf)).1, (moved cursor (motion buf)).2⟩ := by
  have hx := (asI8_bounds (buf.getD 1 0)).1
  have hy := (asI8_bounds (buf.getD 2 0)).1
  simp only [Window.moveRelative, hw.position, Rust.bind_eq_ok, motion,
    moveCoordinate_eq_ok hcursor.1 hx, moveCoordinate_eq_ok hcursor.2 hy, pure, Except.pure,
    Except.ok.injEq, moved]
  constructor
  · rintro ⟨_, ⟨hxlt, rfl⟩, _, ⟨hylt, rfl⟩, rfl⟩
    exact ⟨⟨hxlt, hylt⟩, rfl⟩
  · rintro ⟨⟨hxlt, hylt⟩, rfl⟩
    exact ⟨_, ⟨hxlt, rfl⟩, _, ⟨hylt, rfl⟩, rfl⟩

/-- What a report of the mouse does, and which ones are survived. -/
theorem mouse_eq_ok (queue : List (Nat × Nat)) {w : Window} (hlayer : m.layers 0 = some ⟨0, w⟩)
    (hw : CursorWindow g ⟨cursor.1, cursor.2⟩ w) (hcursor : cursor.1 < 2 ^ 63 ∧ cursor.2 < 2 ^ 63) :
    mouse m 0 buf queue = .ok (m', queue') ↔
      (3 ≤ buf.length ∧ cursor.1 + (motion buf).1 < 2 ^ 63 ∧ cursor.2 + (motion buf).2 < 2 ^ 63) ∧
        queue' = queue ++ (clickOf cursor buf).toList ∧
        m' = { m with layers := Function.update m.layers 0 (some ⟨0,
          w.moveTo ⟨(moved cursor (motion buf)).1, (moved cursor (motion buf)).2⟩⟩) } := by
  constructor
  · intro h
    rw [mouse_eq] at h
    obtain ⟨xDiff, hxDiff, h⟩ := Rust.bind_eq_ok.mp h
    obtain ⟨yDiff, hyDiff, h⟩ := Rust.bind_eq_ok.mp h
    obtain ⟨button, hbutton, h⟩ := Rust.bind_eq_ok.mp h
    obtain ⟨-, rfl⟩ := index_eq_getD hxDiff
    obtain ⟨hlength, rfl⟩ := index_eq_getD hyDiff
    obtain ⟨-, rfl⟩ := index_eq_getD hbutton
    rw [click_eq hlayer hw hcursor, Rust.ok_bind] at h
    obtain ⟨m₁, hmove, h⟩ := Rust.bind_eq_ok.mp h
    cases h
    rw [LayerManager.moveRelative, hlayer] at hmove
    obtain ⟨w', hw', hmove⟩ := Rust.bind_eq_ok.mp hmove
    cases hmove
    obtain ⟨hlt, rfl⟩ := (moveRelative_eq_ok buf hw hcursor).mp hw'
    exact ⟨⟨hlength, hlt⟩, rfl, rfl⟩
  · rintro ⟨⟨hlength, hlt⟩, rfl, rfl⟩
    have hmove := (moveRelative_eq_ok buf hw hcursor).mpr ⟨hlt, rfl⟩
    rw [mouse_eq, index_eq (by omega : 1 < buf.length), index_eq (by omega : 2 < buf.length),
      index_eq (by omega : 0 < buf.length), Rust.ok_bind, Rust.ok_bind, Rust.ok_bind,
      click_eq hlayer hw hcursor, Rust.ok_bind]
    refine (congrArg (· >>= _) (LayerManager.moveRelative_eq hlayer hmove)).trans ?_
    rfl

end Mouse

section Layers

variable {cursor : Nat × Nat} {shown : Option Life} {life : Life} {rows : List (List Bool)}
  {task : Lifegame.Task} {phase : Phase} {round : Nat}

/-- The game leaves the rest of the layer manager as it is. -/
structure CursorKept (m m' : LayerManager) : Prop where
  writer : m'.writer = m.writer
  cursor : m'.layers 0 = m.layers 0

theorem CursorLayer.of_kept (h : CursorLayer g m cursor) (hkept : CursorKept m m') :
    CursorLayer g m' cursor := by
  obtain ⟨w, hlayer, hw⟩ := h
  exact ⟨w, hkept.cursor.trans hlayer, hw⟩

theorem LifeLayer.render (h : LifeLayer g m shown) (hboard : IsBoard rows life) :
    ∃ m', render m 1 rows = .ok m' ∧ LifeLayer g m' (some life) ∧ CursorKept m m' := by
  obtain ⟨w, hlayer, hw⟩ := h.layer
  obtain ⟨w', hpaint, hw'⟩ := hw.render hboard
  refine ⟨_, LayerManager.paintLayer_eq hlayer hpaint, ⟨h.layerStack, w', ?_, hw'⟩, rfl, ?_⟩
  · dsimp only
    rw [Function.update_self]
  · dsimp only
    rw [Function.update_of_ne Nat.zero_ne_one]

/-- A round takes what is in the queue, and draws the board if there was anything. -/
theorem LifeLayer.clickRound (h : LifeLayer g m v.shown) (hboard : IsBoard rows v.life)
    (hpending : ∀ click ∈ v.pending, click.1 < size ∧ click.2 < size) (round : Nat) :
    ∃ m' rows', clickRound m v.pending 1 round rows = .ok ⟨.clicks 1 round rows', m', [], []⟩ ∧
      LifeLayer g m' (v.takeClicks round).shown ∧ IsBoard rows' (v.takeClicks round).life ∧
      CursorKept m m' := by
  obtain ⟨rows', htake, hboard'⟩ := hboard.takeClicks hpending
  rw [View.life, ← replay_births] at hboard'
  rw [Lifegame.clickRound, htake, Rust.ok_bind]
  cases hempty : v.pending.isEmpty with
  | true =>
      refine ⟨m, rows', rfl, ?_, hboard', rfl, rfl⟩
      rw [View.takeClicks, hempty]
      exact h
  | false =>
      obtain ⟨m', hrender, hlayer, hkept⟩ := h.render hboard'
      refine ⟨m', rows', ?_, ?_, hboard', hkept⟩
      · rw [if_neg Bool.false_ne_true, hrender]
        rfl
      · rw [View.takeClicks, hempty]
        exact hlayer

/-- A generation passes if the game is running, and the board is drawn. -/
theorem LifeLayer.pass (h : LifeLayer g m v.shown) (hboard : IsBoard rows v.life)
    (queue : List (Nat × Nat)) :
    ∃ m' rows', poll m queue v.running (.flushed 1 rows) =
        .ok ⟨.rendered 1 rows', m', queue, []⟩ ∧
      LifeLayer g m' v.pass.shown ∧ IsBoard rows' v.pass.life ∧ CursorKept m m' := by
  cases hrunning : v.running with
  | false =>
      obtain ⟨m', hrender, hlayer, hkept⟩ := h.render hboard
      rw [View.pass, View.life, hrunning, poll, if_neg Bool.false_ne_true, pure_bind]
      dsimp only
      rw [hrender]
      exact ⟨m', rows, rfl, hlayer, hboard, hkept⟩
  | true =>
      obtain ⟨rows', hprocess, hboard'⟩ := hboard.process
      rw [View.life, ← replay_generation] at hboard'
      obtain ⟨m', hrender, hlayer, hkept⟩ := h.render hboard'
      rw [View.pass, View.life, hrunning, poll, if_pos rfl, hprocess, Rust.ok_bind]
      dsimp only
      rw [hrender]
      exact ⟨m', rows', rfl, hlayer, hboard', hkept⟩

/-- A new layer for the game goes below the cursor. -/
theorem exists_newLayer (hwriter : m.writer = g) (hstack : m.layerStack = [0])
    (hfresh : m.latestUnusedId = 1) :
    ∃ w m', Window.new (size * pixcelSize) (size * pixcelSize) m.writer.pixcelFormat none ⟨0, 0⟩ =
        .ok w ∧ m.newLayer w = .ok (1, m') ∧ LifeLayer g m' none ∧ CursorKept m m' := by
  obtain ⟨w, hnew⟩ : ∃ w, Window.new (size * pixcelSize) (size * pixcelSize) m.writer.pixcelFormat
      none ⟨0, 0⟩ = .ok w := ⟨_, dif_pos (by decide)⟩
  have hw : LifeWindow g none w := .new (hwriter ▸ hnew)
  have hid : m.latestUnusedId < uninitialized := by
    rw [hfresh]
    decide
  have hlayer : m.newLayer w = .ok (1, { m with
      layerStack := [1, 0]
      layers := Function.update m.layers 1 (some ⟨1, w⟩)
      latestUnusedId := 2 }) := by
    rw [LayerManager.newLayer, if_pos hid, hfresh, hstack]
  refine ⟨w, _, hnew, hlayer, ⟨rfl, w, ?_, hw⟩, rfl, ?_⟩
  · dsimp only
    rw [Function.update_self]
  · dsimp only
    rw [Function.update_of_ne Nat.zero_ne_one]

theorem flushable_lifeWindow {w : Window} (h : LifeWindow g shown w) : w.Flushable g := by
  have hposition : w.position.x = 0 ∧ w.position.y = 0 := by
    rw [h.frame.position]
    exact ⟨rfl, rfl⟩
  have hsmall : size * pixcelSize < usizeSize := by decide
  have hpos : 0 < size * pixcelSize := by decide
  have hwidth := h.frame.width
  have hrows := h.frame.rows
  exact ⟨by omega, by omega, fun _ => by omega, fun _ => by omega⟩

theorem flushable_cursorWindow {w : Window} (h : CursorWindow g ⟨cursor.1, cursor.2⟩ w)
    (hcursor : cursor.1 < 2 ^ 63 ∧ cursor.2 < 2 ^ 63) : w.Flushable g := by
  have hposition : w.position.x = cursor.1 ∧ w.position.y = cursor.2 := by
    rw [h.position]
    exact ⟨rfl, rfl⟩
  have hwidth : w.width = 15 := h.width
  have hrows : w.rows = 24 := h.rows
  have hword : usizeSize = 2 ^ 64 := rfl
  refine ⟨by omega, by omega, fun _ => by omega, fun hsolid => ?_⟩
  rw [h.transparentColor] at hsolid
  exact absurd hsolid.1 (Option.some_ne_none _)

theorem flushLayer_cursor (fits : g.Fits) (hwriter : m.writer = g)
    (hcursor : CursorLayer g m cursor) (hlt : cursor.1 < 2 ^ 63 ∧ cursor.2 < 2 ^ 63) :
    (m.flushLayer 0).ended = none := by
  obtain ⟨w, hlayer, hw⟩ := hcursor
  rw [LayerManager.flushLayer, hlayer, hwriter]
  exact (Window.flush_complete fits (flushable_cursorWindow hw hlt)).1

/-- A flush returns before the game is polled for the first time. -/
theorem flush_ended_alone (fits : g.Fits) (hwriter : m.writer = g) (hstack : m.layerStack = [0])
    (hcursor : CursorLayer g m cursor) (hlt : cursor.1 < 2 ^ 63 ∧ cursor.2 < 2 ^ 63) :
    m.flush.ended = none := by
  rw [LayerManager.flush, hstack]
  refine Emit.forEach_ended_eq_none.mpr fun id hmem => ?_
  obtain rfl := List.mem_singleton.mp hmem
  exact flushLayer_cursor fits hwriter hcursor hlt

/-- A flush of the cursor and the game returns. -/
theorem flush_ended (fits : g.Fits) (hwriter : m.writer = g) (hlife : LifeLayer g m shown)
    (hcursor : CursorLayer g m cursor) (hlt : cursor.1 < 2 ^ 63 ∧ cursor.2 < 2 ^ 63) :
    m.flush.ended = none := by
  obtain ⟨w₁, hlayer₁, hw₁⟩ := hlife.layer
  rw [LayerManager.flush, hlife.layerStack]
  refine Emit.forEach_ended_eq_none.mpr fun id hmem => ?_
  rw [List.mem_cons, List.mem_singleton] at hmem
  obtain rfl | rfl := hmem
  · rw [LayerManager.flushLayer, hlayer₁, hwriter]
    exact (Window.flush_complete fits (flushable_lifeWindow hw₁)).1
  · exact flushLayer_cursor fits hwriter hcursor hlt

end Layers

section Simulation

theorem TaskFollows.frame {v' : View} {task : Lifegame.Task} {phase : Phase}
    (h : TaskFollows g m v task phase) (hstack : m'.layerStack = m.layerStack)
    (hfresh : m'.latestUnusedId = m.latestUnusedId) (hlayer : m'.layers 1 = m.layers 1)
    (hlog : v'.log = v.log) (hshown : v'.shown = v.shown) : TaskFollows g m' v' task phase := by
  have hlife : LifeLayer g m v.shown → LifeLayer g m' v'.shown := by
    rintro ⟨hold, w, hw, hwindow⟩
    exact ⟨hstack.trans hold, w, hlayer.trans hw, hshown ▸ hwindow⟩
  have hboard : v'.life = v.life := by rw [View.life, View.life, hlog]
  cases h with
  | unpolled stack fresh log shown =>
      exact .unpolled (hstack.trans stack) (hfresh.trans fresh) (hlog.trans log)
        (hshown.trans shown)
  | clicks round layer board => exact .clicks round (hlife layer) (hboard ▸ board)
  | flushed layer board => exact .flushed (hlife layer) (hboard ▸ board)
  | rendered layer board => exact .rendered (hlife layer) (hboard ▸ board)

/-- Which layers there are. -/
theorem TaskFollows.layers {task : Lifegame.Task} {phase : Phase}
    (h : TaskFollows g m v task phase) :
    phase = .unpolled ∧ m.layerStack = [0] ∨ phase ≠ .unpolled ∧ LifeLayer g m v.shown := by
  cases h with
  | unpolled stack => exact .inl ⟨rfl, stack⟩
  | clicks _ layer | flushed layer | rendered layer =>
      exact .inr ⟨Phase.noConfusion, layer⟩

theorem Follows.mouse (h : Follows g d v) {buf : List UInt8}
    (hok : v.Survives (.mouse buf)) :
    ∃ d', d.call dev (.mouse buf) = .ok d' ∧ Follows g d' (v.step (.mouse buf)) := by
  obtain ⟨w, hlayer, hw⟩ := h.cursor
  have hmouse := (mouse_eq_ok d.queue hlayer hw h.cursor_lt).mpr ⟨hok, rfl, rfl⟩
  have hid := congrArg (Lifegame.mouse d.manager · buf d.queue) h.mouseLayerId
  have hcall : d.call dev (.mouse buf) = Lifegame.mouse d.manager d.mouseLayerId buf d.queue >>=
      fun p => .ok { d with manager := p.1, queue := p.2 } := rfl
  rw [hid.trans hmouse, Rust.ok_bind] at hcall
  obtain ⟨-, hxlt, hylt⟩ := hok
  refine ⟨_, hcall, ?_⟩
  exact {
    mouseLayerId := h.mouseLayerId
    queue := congrArg (· ++ _) h.queue
    running := h.running
    console := h.console
    writer := h.writer
    cursor := ⟨_, by dsimp only; rw [Function.update_self]; rfl, hw.moveTo _⟩
    task := h.task.frame rfl rfl (by dsimp only; rw [Function.update_of_ne Nat.one_ne_zero]) rfl rfl
    cursor_lt := by
      simp only [View.step, moved]
      omega
    pending_lt := by
      intro click hclick
      rcases List.mem_append.mp hclick with hclick | hclick
      · exact h.pending_lt click hclick
      · rw [Option.mem_toList, clickOf] at hclick
        split at hclick
        · exact cellUnder_eq_some hclick
        · cases hclick }

theorem Follows.keyboard (h : Follows g d v) {buf : List UInt8}
    (hok : v.Survives (.keyboard buf)) :
    ∃ d', d.call dev (.keyboard buf) = .ok d' ∧ Follows g d' (v.step (.keyboard buf)) := by
  obtain ⟨console, hkeyboard, hholds⟩ := keyboard_spec dev d.running (by decide)
    (by decide) h.console hok
  have hcall : d.call dev (.keyboard buf) =
      Usb.Callbacks.keyboard dev buf (d.running, d.console) >>=
        fun p => .ok { d with running := p.1, console := p.2 } := rfl
  rw [hkeyboard, Rust.ok_bind] at hcall
  refine ⟨_, hcall, ?_⟩
  exact { h with
    running := by rw [h.running]; rfl
    console := hholds
    task := h.task.frame rfl rfl rfl rfl rfl }

theorem Follows.print (h : Follows g d v) (text : List Char) :
    ∃ d', d.call dev (.print text) = .ok d' ∧ Follows g d' (v.step (.print text)) := by
  obtain ⟨console, hprint, hholds⟩ := h.console.exists_putString (d := dev) (by decide) (by decide)
    text
  have hcall : d.call dev (.print text) = d.console.writeStr dev text >>=
      fun console => .ok { d with console := console } := rfl
  rw [Writer.writeStr, hprint, Rust.ok_bind] at hcall
  refine ⟨_, hcall, ?_⟩
  exact { h with
    console := hholds
    task := h.task.frame rfl rfl rfl rfl rfl }

theorem Follows.flush_returns (fits : g.Fits) (h : Follows g d v) :
    d.manager.flush.ended = none := by
  obtain ⟨-, hstack⟩ | ⟨-, hlife⟩ := h.task.layers
  · exact flush_ended_alone fits h.writer hstack h.cursor h.cursor_lt
  · exact flush_ended fits h.writer hlife h.cursor h.cursor_lt

theorem call_flush (hended : d.manager.flush.ended = none) :
    d.call dev .flush = .ok { d with console := {
      d.console with writer := applyWrites d.console.writer d.manager.flush.effects } } := by
  rw [Desktop.call, hended]

theorem Follows.flush (fits : g.Fits) (h : Follows g d v) :
    ∃ d', d.call dev .flush = .ok d' ∧ Follows g d' (v.step .flush) :=
  ⟨_, call_flush (h.flush_returns fits), { h with console := h.console }⟩

/-- What a poll leaves, when the clicks are taken. -/
theorem Follows.takeClicks (h : Follows g d v) {rows : List (List Bool)}
    (hlife : LifeLayer g m v.shown) (hkept : CursorKept d.manager m) (hboard : IsBoard rows v.life)
    (round : Nat) :
    ∃ polled, clickRound m d.queue 1 round rows = .ok polled ∧
      Follows g { d with
        manager := polled.manager
        queue := polled.queue
        lifegame := polled.task
        console := { d.console with writer := applyWrites d.console.writer polled.drawn } }
        (v.takeClicks round) := by
  obtain ⟨m', rows', hround, hlayer, hboard', hkept'⟩ := hlife.clickRound hboard h.pending_lt round
  rw [h.queue]
  refine ⟨_, hround, ?_⟩
  exact {
    mouseLayerId := h.mouseLayerId
    queue := rfl
    running := h.running
    console := h.console
    writer := hkept'.writer.trans (hkept.writer.trans h.writer)
    cursor := (h.cursor.of_kept hkept).of_kept hkept'
    task := .clicks round hlayer hboard'
    cursor_lt := h.cursor_lt
    pending_lt := fun _ hmem => absurd hmem List.not_mem_nil }

theorem Follows.poll (fits : g.Fits) (h : Follows g d v) :
    ∃ d', d.call dev .poll = .ok d' ∧ Follows g d' (v.step .poll) := by
  have hcall : d.call dev .poll = Lifegame.poll d.manager d.queue d.running d.lifegame >>=
      fun polled => .ok { d with
        manager := polled.manager
        queue := polled.queue
        lifegame := polled.task
        console := { d.console with writer := applyWrites d.console.writer polled.drawn } } := rfl
  rw [View.step, View.poll]
  have htask := h.task
  generalize htaskeq : d.lifegame = task at htask hcall
  generalize hphase : v.phase = phase at htask ⊢
  cases htask with
  | unpolled stack fresh log shown =>
      obtain ⟨w, m', hnew, hlayer, hlife, hkept⟩ := exists_newLayer h.writer stack fresh
      have hboard : IsBoard firstBoard v.life := by
        rw [View.life, log]
        exact isBoard_first
      obtain ⟨polled, hround, hfollows⟩ := h.takeClicks (shown.symm ▸ hlife) hkept hboard 0
      have hpoll : Lifegame.poll d.manager d.queue d.running .unpolled = .ok polled := by
        rw [Lifegame.poll, hnew, Rust.ok_bind, hlayer, Rust.ok_bind]
        exact hround
      rw [hpoll, Rust.ok_bind] at hcall
      exact ⟨_, hcall, hfollows⟩
  | clicks round layer board =>
      dsimp only
      rw [Lifegame.poll] at hcall
      by_cases hround : round + 1 < rounds
      · obtain ⟨polled, hpoll, hfollows⟩ := h.takeClicks layer ⟨rfl, rfl⟩ board (round + 1)
        rw [if_pos hround, hpoll, Rust.ok_bind] at hcall
        rw [if_pos hround]
        exact ⟨_, hcall, hfollows⟩
      · rw [if_neg hround, flush_ended fits h.writer layer h.cursor h.cursor_lt,
          Rust.ok_bind] at hcall
        rw [if_neg hround]
        refine ⟨_, hcall, ?_⟩
        exact { h with
          console := h.console
          task := .flushed layer board }
  | flushed layer board =>
      obtain ⟨m', rows', hpoll, hlayer, hboard, hkept⟩ := layer.pass board d.queue
      rw [h.running, hpoll, Rust.ok_bind] at hcall
      refine ⟨_, hcall, ?_⟩
      exact {
        mouseLayerId := h.mouseLayerId
        queue := h.queue
        running := rfl
        console := h.console
        writer := hkept.writer.trans h.writer
        cursor := h.cursor.of_kept hkept
        task := .rendered hlayer hboard
        cursor_lt := h.cursor_lt
        pending_lt := h.pending_lt }
  | rendered layer board =>
      obtain ⟨polled, hround, hfollows⟩ := h.takeClicks layer ⟨rfl, rfl⟩ board 0
      have hpoll : Lifegame.poll d.manager d.queue d.running (.rendered 1 _) = .ok polled := hround
      rw [hpoll, Rust.ok_bind] at hcall
      exact ⟨_, hcall, hfollows⟩

/-- One input keeps the desktop together with what it stands for. -/
theorem simulation (dev : AsciiWriter (Nat → UInt8)) (fits : g.Fits) :
    Simulation (Follows g) (Desktop.call dev) View.Survives View.step where
  returns d v i h hok := by
    cases i with
    | mouse buf => exact h.mouse hok
    | keyboard buf => exact h.keyboard hok
    | print text => exact h.print text
    | flush => exact h.flush fits
    | poll => exact h.poll fits
  onlyIf d v i d' h hcall := by
    cases i with
    | mouse buf =>
        obtain ⟨w, hlayer, hw⟩ := h.cursor
        obtain ⟨⟨m, queue⟩, hmouse, -⟩ := Rust.bind_eq_ok.mp hcall
        rw [h.mouseLayerId] at hmouse
        exact ((mouse_eq_ok d.queue hlayer hw h.cursor_lt).mp hmouse).1
    | keyboard buf =>
        obtain ⟨state, hkeyboard, -⟩ := Rust.bind_eq_ok.mp hcall
        exact keyboard_returns hkeyboard
    | print text => trivial
    | flush => trivial
    | poll => trivial

theorem follows_start (g : PixcelWriter) (screen : Nat → UInt8) :
    ∃ d, Desktop.boot g screen = .ok d ∧ Follows g d .start := by
  obtain ⟨w, hw, hinit⟩ := initMouseCursorLayer_spec g
  have hboot : Desktop.boot g screen = initMouseCursorLayer (.new g) >>= fun p => .ok {
      manager := p.2
      mouseLayerId := p.1
      queue := []
      running := true
      console := .new screen
      lifegame := .unpolled } := rfl
  rw [hinit, Rust.ok_bind] at hboot
  refine ⟨_, hboot, ?_⟩
  exact {
    mouseLayerId := rfl
    queue := rfl
    running := rfl
    console := .new screen
    writer := rfl
    cursor := ⟨w, by simp [oneLayer], hw⟩
    task := .unpolled rfl rfl rfl rfl
    cursor_lt := ⟨by decide, by decide⟩
    pending_lt := fun _ hmem => absurd hmem List.not_mem_nil }

end Simulation

section Runs

/-- The board of the game, once it has begun. -/
def taskBoard : Lifegame.Task → Option (List (List Bool))
  | .unpolled => none
  | .clicks _ _ board => some board
  | .flushed _ board => some board
  | .rendered _ board => some board

theorem TaskFollows.isBoard {task : Lifegame.Task} {phase : Phase}
    (h : TaskFollows g m v task phase) {rows : List (List Bool)}
    (hrows : taskBoard task = some rows) :
    IsBoard rows v.life := by
  cases h with
  | unpolled => cases hrows
  | clicks _ _ board | flushed _ board | rendered _ board =>
      cases hrows
      exact board

/-- From the boot on the kernel gets through a sequence of inputs exactly when every one of them is
a report that can be read: a report of the mouse has three bytes and leaves the cursor below
`isize::MAX`, and one of the keyboard has a modifier and key codes of the tables. The desktop then
stands for what the user sees. -/
theorem desktop_survives_iff (g : PixcelWriter) (fits : g.Fits) (dev : AsciiWriter (Nat → UInt8))
    (screen : Nat → UInt8) (inputs : List Input) :
    ∃ d₀, Desktop.boot g screen = .ok d₀ ∧
      ((∃ d, d₀.run dev inputs = .ok d) ↔ Admissible View.Survives View.step .start inputs) ∧
      ∀ d, d₀.run dev inputs = .ok d → Follows g d (View.start.run inputs) := by
  obtain ⟨d₀, hboot, hstart⟩ := follows_start g screen
  have hsim := simulation dev fits
  refine ⟨d₀, hboot, ⟨?_, ?_⟩, fun d hrun => (hsim.run_rel hstart hrun).2⟩
  · rintro ⟨d, hrun⟩
    exact (hsim.run_rel hstart hrun).1
  · intro hinputs
    obtain ⟨d, hrun, -⟩ := hsim.run_returns hstart hinputs
    exact ⟨d, hrun⟩

/-- A screen of 800 by 600 pixels. -/
def svga : PixcelWriter := ⟨800, 800, 600, .rgb⟩

/-- A click into the corner of the board, a space, and three polls of the game. -/
def clickAndSpace : List Input := [.poll, .mouse [1, 2, 3], .keyboard [0, 0, 44], .poll, .poll]

theorem svga_fits : svga.Fits := by
  rw [PixcelWriter.Fits]
  decide

/-- A console whose characters are not drawn. -/
def dark : AsciiWriter (Nat → UInt8) := ⟨fun screen _ _ _ _ _ => screen⟩

theorem admissible_clickAndSpace : Admissible View.Survives View.step .start clickAndSpace := by
  have hkeys : InTables [0, 0, 44] := by
    rw [InTables, List.forall_mem_cons, List.forall_mem_singleton]
    exact ⟨by decide, by decide⟩
  exact ⟨trivial, ⟨by decide, by decide, by decide⟩, hkeys, trivial, trivial, trivial⟩

theorem desktop_survives_iff_clickAndSpace : ∃ d₀ d, Desktop.boot svga (fun _ => 0) = .ok d₀ ∧
    d₀.run dark clickAndSpace = .ok d ∧ Follows svga d (View.start.run clickAndSpace) := by
  obtain ⟨d₀, hboot, hiff, hfollows⟩ := desktop_survives_iff svga svga_fits dark (fun _ => 0)
    clickAndSpace
  obtain ⟨d, hrun⟩ := hiff.mpr admissible_clickAndSpace
  exact ⟨d₀, d, hboot, hrun, hfollows d hrun⟩

/-- Whatever comes in between, every click on the board brings its cell to life exactly once and in
its turn, or is still in the queue, and the board shows what has happened on it, as the log of the
view has it. Three polls of the game are enough for every click made before them. -/
theorem clicks_come_to_life (g : PixcelWriter) (fits : g.Fits) (dev : AsciiWriter (Nat → UInt8))
    (screen : Nat → UInt8) (before after : List Input) (d₀ d : Desktop)
    (hboot : Desktop.boot g screen = .ok d₀) (hrun : d₀.run dev (before ++ after) = .ok d) :
    births (View.start.run (before ++ after)).log ++ d.queue = clicks (0, 0) (before ++ after) ∧
      (∀ rows, taskBoard d.lifegame = some rows → ∀ x y,
        cellAt rows (y, x) = replay (View.start.run (before ++ after)).log x y) ∧
      (3 ≤ polls after →
        clicks (0, 0) before <+: births (View.start.run (before ++ after)).log) := by
  obtain ⟨d₁, hboot₁, hstart⟩ := follows_start g screen
  obtain rfl : d₁ = d₀ := Except.ok.inj (hboot₁.symm.trans hboot)
  have hfollows := ((simulation dev fits).run_rel hstart hrun).2
  refine ⟨?_, ?_, ?_⟩
  · rw [hfollows.queue]
    exact births_append_pending .start (before ++ after)
  · exact fun rows hrows x y => (hfollows.task.isBoard hrows).alive x y
  · intro hpolls
    have hbefore := births_append_pending .start before
    have hprefix := births_append_pending_prefix (View.start.run before) after
      ((Phase.pollsLeft_le _).trans hpolls)
    rw [hbefore, View.run, View.run, ← List.foldl_append] at hprefix
    exact hprefix

/-- After one more poll the click is on the board. -/
theorem clicks_come_to_life_clickAndSpace : ∃ d : Desktop,
    births (View.start.run (clickAndSpace ++ [.poll])).log ++ d.queue =
        clicks (0, 0) (clickAndSpace ++ [.poll]) ∧
      ∀ rows, taskBoard d.lifegame = some rows → ∀ x y,
        cellAt rows (y, x) = replay (View.start.run (clickAndSpace ++ [.poll])).log x y := by
  obtain ⟨d₀, hboot, hstart⟩ := follows_start svga fun _ => 0
  have hpoll : Admissible View.Survives View.step (clickAndSpace.foldl View.step .start) [.poll] :=
    ⟨trivial, trivial⟩
  obtain ⟨d, hrun, -⟩ := (simulation dark svga_fits).run_returns hstart
    (Admissible.append.mpr ⟨admissible_clickAndSpace, hpoll⟩)
  obtain ⟨hlog, hboard, -⟩ := clicks_come_to_life svga svga_fits dark (fun _ => 0)
    clickAndSpace [.poll] d₀ d hboot hrun
  exact ⟨d, hlog, hboard⟩

end Runs

end LemolaOs.Kernel
