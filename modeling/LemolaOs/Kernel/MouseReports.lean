import LemolaOs.Kernel.Desktop
import LemolaOs.Xhci.InterruptWindows

/-!
# From the mouse to the board

The host controller writes the reports of the mouse to the data buffers of an interrupt ring and
posts an event for each; `process_transfer_event` hands one after the other to the callback, which
moves the cursor and queues the clicks of the game. `MouseSystem` is both ends together: the ring
of the endpoint, and the desktop, to which the keyboard, the console, the flushes of the layers and
the polls of the game happen in between, in any order.

`InTurn` says that the events are processed in the order in which they were posted. They are
as long as no `TransferEventFuture` has put them back on the stack of the event ring. Then the
reports that the callback was given, and behind them those that are still on their way, are exactly
the reports that the mouse has made (`Linked`), and the desktop stands where they have brought it.
-/

namespace LemolaOs.Kernel

open Graphics Lifegame Usb.Callbacks Xhci

/-- `mouse::N_IN_TRANSFER_BYTES`. -/
def mouseReportBytes : Nat := 3

/-- The reports among the inputs. -/
def mouseReports (inputs : List Input) : List (List UInt8) :=
  inputs.filterMap fun
    | .mouse buf => some buf
    | _ => none

/-- The reports of the endpoint that the callback has not been given: the one whose TRB has been
returned to the controller, and those whose events no call has taken. -/
def waiting (s : InterruptRing) : List (List UInt8) :=
  s.delivering.toList.map (fun p => p.1.bytes) ++ s.posted.map (·.bytes)

/-- Where some reports bring the cursor. -/
def cursorAfter (reports : List (List UInt8)) : Nat × Nat :=
  reports.foldl (fun cursor buf => moved cursor (motion buf)) (0, 0)

/-- The endpoint of the mouse and the desktop, with what the mouse has reported and what the
desktop has been given. -/
structure MouseSystem where
  endpoint : InterruptRing
  desktop : Desktop
  reports : List (List UInt8)
  inputs : List Input

namespace MouseSystem

inductive Label where
  | endpoint (label : InterruptRing.Label)
  | desktop (i : Input)

/-- What the mouse reports in a step. -/
def reported : InterruptRing.Label → List (List UInt8)
  | .execute bytes => [bytes]
  | _ => []

/-- The calls of the callback in a step from `s` to `t`. -/
def callbacks (s t : InterruptRing) : List Input :=
  (t.delivered.drop s.delivered.length).map fun p => .mouse p.2

/-- The callback is called within the step that hands over a data buffer. -/
inductive Step (links : LinkTrb) (normals : NormalTrb links)
    (dev : Console.AsciiWriter (Nat → UInt8)) : MouseSystem → Label → MouseSystem → Prop where
  | endpoint {s : MouseSystem} {label : InterruptRing.Label} {t : InterruptRing} {d : Desktop}
      (h : InterruptRing.Step links normals mouseReportBytes s.endpoint label t)
      (called : s.desktop.run dev (callbacks s.endpoint t) = .ok d) :
      Step links normals dev s (.endpoint label)
        ⟨t, d, s.reports ++ reported label, s.inputs ++ callbacks s.endpoint t⟩
  | desktop {s : MouseSystem} {i : Input} {d : Desktop} (other : mouseReports [i] = [])
      (called : s.desktop.call dev i = .ok d) :
      Step links normals dev s (.desktop i) { s with desktop := d, inputs := s.inputs ++ [i] }

/-- From a filled ring and the boot of the desktop. -/
def system (links : LinkTrb) (normals : NormalTrb links) (buffer : TrbBuffer)
    (alloc : Nat → UInt64) (g : PixcelWriter) (dev : Console.AsciiWriter (Nat → UInt8))
    (screen : Nat → UInt8) : System MouseSystem Label where
  init s := (InterruptRing.system links normals buffer alloc mouseReportBytes).init s.endpoint ∧
    Desktop.boot g screen = .ok s.desktop ∧ s.reports = [] ∧ s.inputs = []
  step := Step links normals dev

/-- The events of the endpoint are taken in the order in which they were posted. -/
def inTurn (s : InterruptRing) : InterruptRing.Label → Bool
  | .process event => s.posted.head? == some event
  | _ => true

def orderly (s : MouseSystem) : Label → Bool
  | .endpoint label => s.endpoint.reportTaken label && inTurn s.endpoint label
  | .desktop _ => true

end MouseSystem

section Inputs

variable {v : View} {inputs : List Input}

theorem mouseReports_append (first second : List Input) :
    mouseReports (first ++ second) = mouseReports first ++ mouseReports second :=
  List.filterMap_append ..

/-- Only the reports move the cursor. -/
theorem cursor_run (v : View) (inputs : List Input) :
    (v.run inputs).cursor =
      (mouseReports inputs).foldl (fun cursor buf => moved cursor (motion buf)) v.cursor := by
  induction inputs generalizing v with
  | nil => rfl
  | cons i inputs ih =>
      refine (ih (v.step i)).trans ?_
      cases i with
      | mouse buf => rfl
      | keyboard buf => rfl
      | print text => rfl
      | flush => rfl
      | poll =>
          rw [View.step, poll_cursor]
          rfl

/-- Only the reports click. -/
theorem clicks_mouseReports (cursor : Nat × Nat) (inputs : List Input) :
    clicks cursor inputs = clicks cursor ((mouseReports inputs).map .mouse) := by
  induction inputs generalizing cursor with
  | nil => rfl
  | cons i inputs ih =>
      cases i with
      | mouse buf => exact congrArg (_ ++ ·) (ih _)
      | _ => exact ih cursor

end Inputs

namespace MouseSystem

section Endpoint

variable {links : LinkTrb} {normals : NormalTrb links} {buffer : TrbBuffer} {alloc : Nat → UInt64}
  {m : Nat} {s t : InterruptRing}

theorem callbacks_of_eq (h : t.delivered = s.delivered) : callbacks s t = [] := by
  rw [callbacks, h, List.drop_length]
  rfl

theorem callbacks_of_append {event : Report} {bytes : List UInt8}
    (h : t.delivered = s.delivered ++ [(event, bytes)]) : callbacks s t = [.mouse bytes] := by
  rw [callbacks, h, List.drop_left]
  rfl

theorem callbacks_eq_nil {label : InterruptRing.Label} (hne : label ≠ .deliver)
    (h : InterruptRing.Step links normals mouseReportBytes s label t) : callbacks s t = [] := by
  cases h with
  | execute | follow | process | write => exact callbacks_of_eq rfl
  | deliver => exact absurd rfl hne

/-- A step of the endpoint loses no report: what it hands over was the first of those that waited,
and what the mouse reports joins them at the end. -/
theorem callbacks_append_waiting (inv : InterruptRing.Inv links normals buffer alloc
      mouseReportBytes m s) (held : InterruptRing.Held normals buffer alloc mouseReportBytes m s)
    {label : InterruptRing.Label} (hturn : inTurn s label = true)
    (h : InterruptRing.Step links normals mouseReportBytes s label t) :
    mouseReports (callbacks s t) ++ waiting t = waiting s ++ reported label := by
  have hnil := fun hne => callbacks_eq_nil hne h
  cases h with
  | execute owned notLink size =>
      rw [hnil InterruptRing.Label.noConfusion]
      simp only [waiting, mouseReports, List.filterMap_nil, List.nil_append, List.map_append,
        List.map_singleton, reported, List.append_assoc]
  | follow owned link =>
      rw [hnil InterruptRing.Label.noConfusion]
      exact (List.append_nil _).symm
  | @process event writes ring trb idle free taken h =>
      obtain ⟨i, hi, hslot⟩ := inv.posted event taken
      rw [hslot, InterruptRing.processTransferEvent_eq_ok inv.sameBuffer (inv.trbs i hi)] at h
      obtain ⟨-, rfl⟩ := h
      -- the event is the first one
      obtain ⟨rest, hposted⟩ : ∃ rest, s.posted = event :: rest :=
        List.head?_eq_some_iff.mp (eq_of_beq hturn)
      rw [hnil InterruptRing.Label.noConfusion]
      simp only [waiting, free, hposted, List.erase_cons_head, mouseReports, reported,
        List.filterMap_nil, List.nil_append, List.append_nil, Option.map_some, Option.toList_some,
        Option.toList_none, List.map_cons, List.map_nil, List.cons_append]
  | write h =>
      rw [hnil InterruptRing.Label.noConfusion]
      exact (List.append_nil _).symm
  | @deliver event trb idle h =>
      obtain ⟨-, htrb, hbytes⟩ := held.delivering event trb h
      rw [callbacks_of_append rfl, htrb, hbytes]
      simp only [waiting, h, mouseReports, reported, List.filterMap_cons, List.filterMap_nil,
        Option.toList_none, Option.toList_some, List.map_nil, List.map_cons, List.nil_append,
        List.append_nil, List.cons_append]

theorem held_of_reachable {bufSize : Nat} (hm : buffer.len = m + 1) (hpos : 0 < m)
    (hapart : InterruptRing.Apart alloc bufSize m)
    (hs : ((InterruptRing.system links normals buffer alloc bufSize).guard
      fun s label => s.reportTaken label).Reachable s) :
    InterruptRing.Held normals buffer alloc bufSize m s := by
  refine hs.invariant ?_ ?_
  · rintro s ⟨writes, ring, -, rfl⟩
    exact ⟨by simp [InterruptRing.start], by simp [InterruptRing.start],
      by simp [InterruptRing.start]⟩
  · rintro s label t hs held ⟨hok, h⟩
    exact held.step (.of_reachable hm hpos hs.of_guard) hapart hok h

end Endpoint

section System

variable {links : LinkTrb} {normals : NormalTrb links} {buffer : TrbBuffer} {alloc : Nat → UInt64}
  {g : PixcelWriter} {dev : Console.AsciiWriter (Nat → UInt8)} {screen : Nat → UInt8}
  {s t : MouseSystem} {m : Nat}

/-- The endpoint alone takes steps of its own. -/
theorem endpoint_reachable
    (hs : ((system links normals buffer alloc g dev screen).guard
      fun s label => s.orderly label).Reachable s) :
    ((InterruptRing.system links normals buffer alloc mouseReportBytes).guard
      fun s label => s.reportTaken label).Reachable s.endpoint := by
  induction hs with
  | init h => exact .init h.1
  | step _ h ih =>
      obtain ⟨hok, h⟩ := h
      cases h with
      | endpoint h called =>
          rw [orderly, Bool.and_eq_true] at hok
          exact ih.step ⟨hok.1, h⟩
      | desktop other called => exact ih

/-- What holds between any two steps: no report is lost, made twice or overtaken on its way to the
desktop, and the desktop stands for what it has been given. -/
structure Linked (g : PixcelWriter) (s : MouseSystem) : Prop where
  reports : mouseReports s.inputs ++ waiting s.endpoint = s.reports
  desktop : Follows g s.desktop (View.start.run s.inputs)

theorem Linked.endpoint (fits : g.Fits) (linked : Linked g s)
    (inv : InterruptRing.Inv links normals buffer alloc mouseReportBytes m s.endpoint)
    (held : InterruptRing.Held normals buffer alloc mouseReportBytes m s.endpoint)
    {label : InterruptRing.Label} (hturn : inTurn s.endpoint label = true) {t : InterruptRing}
    (h : InterruptRing.Step links normals mouseReportBytes s.endpoint label t) {d : Desktop}
    (called : s.desktop.run dev (callbacks s.endpoint t) = .ok d) :
    Linked g ⟨t, d, s.reports ++ reported label, s.inputs ++ callbacks s.endpoint t⟩ where
  reports := by
    dsimp only
    rw [mouseReports_append, List.append_assoc, callbacks_append_waiting inv held hturn h,
      ← List.append_assoc, linked.reports]
  desktop := by
    have hfollows := ((simulation dev fits).run_rel linked.desktop called).2
    rw [View.run, ← List.foldl_append] at hfollows
    exact hfollows

theorem Linked.input (fits : g.Fits) (linked : Linked g s) {i : Input}
    (other : mouseReports [i] = []) {d : Desktop} (called : s.desktop.call dev i = .ok d) :
    Linked g { s with desktop := d, inputs := s.inputs ++ [i] } where
  reports := by
    dsimp only
    rw [mouseReports_append, other, List.append_nil]
    exact linked.reports
  desktop := by
    have hfollows := ((simulation dev fits).step_rel linked.desktop called).2
    rw [View.run, List.foldl_append]
    exact hfollows

theorem Linked.of_reachable (hm : buffer.len = m + 1) (hpos : 0 < m)
    (hapart : InterruptRing.Apart alloc mouseReportBytes m) (fits : g.Fits)
    (hs : ((system links normals buffer alloc g dev screen).guard
      fun s label => s.orderly label).Reachable s) : Linked g s := by
  refine hs.invariant ?_ ?_
  · rintro ⟨endpoint, desktop, reports, inputs⟩
      ⟨⟨writes, ring, -, hstart⟩, hboot, hreports, hinputs⟩
    dsimp only at hstart hboot hreports hinputs
    subst hstart hreports hinputs
    obtain ⟨d, hboot', hfollows⟩ := follows_start g screen
    obtain rfl := Except.ok.inj (hboot'.symm.trans hboot)
    exact ⟨rfl, hfollows⟩
  · rintro s label t hs linked ⟨hok, h⟩
    have hendpoint := endpoint_reachable hs
    cases h with
    | endpoint h called =>
        rw [orderly, Bool.and_eq_true] at hok
        exact linked.endpoint fits (.of_reachable hm hpos hendpoint.of_guard)
          (held_of_reachable hm hpos hapart hendpoint) hok.2 h called
    | desktop other called => exact linked.input fits other called

/-- As long as every report is taken before the next one of its slot and the events are processed
in turn, whatever the order in which the two ends and the rest of the kernel take their steps
otherwise: the reports that the desktop was given and those that wait are, in order, the reports the
mouse has made. The cursor stands where the former have moved it, and every click among them has
brought its cell to life, in its turn, or is queued. The next report reaches the callback as the
mouse has made it, and the callback returns unless it leads the cursor out of `isize`. -/
theorem mouse_moves_desktop (links : LinkTrb) (normals : NormalTrb links) (buffer : TrbBuffer)
    (hlen : 2 ≤ buffer.len) (alloc : Nat → UInt64)
    (hapart : InterruptRing.Apart alloc mouseReportBytes (buffer.len - 1)) (g : PixcelWriter)
    (fits : g.Fits) (dev : Console.AsciiWriter (Nat → UInt8)) (screen : Nat → UInt8)
    (s : MouseSystem) (hs : ((system links normals buffer alloc g dev screen).guard
      fun s label => s.orderly label).Reachable s) :
    mouseReports s.inputs ++ waiting s.endpoint = s.reports ∧
      CursorLayer g s.desktop.manager (cursorAfter (mouseReports s.inputs)) ∧
      births (View.start.run s.inputs).log ++ s.desktop.queue =
        clicks (0, 0) ((mouseReports s.inputs).map .mouse) ∧
      (∀ rows, taskBoard s.desktop.lifegame = some rows →
        ∀ x y, cellAt rows (y, x) = replay (View.start.run s.inputs).log x y) ∧
      ∀ event trb, s.endpoint.delivering = some (event, trb) →
        readBytes s.endpoint.bytes (normals.dataBufferPointer trb).toNat mouseReportBytes =
            event.bytes ∧
          ((∃ d, s.desktop.call dev (.mouse event.bytes) = .ok d) ↔
            (cursorAfter (mouseReports s.inputs)).1 + (motion event.bytes).1 < 2 ^ 63 ∧
              (cursorAfter (mouseReports s.inputs)).2 + (motion event.bytes).2 < 2 ^ 63) := by
  obtain ⟨m, hm⟩ := Nat.exists_eq_add_of_le' (by omega : 1 ≤ buffer.len)
  have hpos : 0 < m := by omega
  rw [hm, Nat.add_sub_cancel] at hapart
  have linked := Linked.of_reachable hm hpos hapart fits hs
  have held := held_of_reachable hm hpos hapart (endpoint_reachable hs)
  have hcursor : (View.start.run s.inputs).cursor = cursorAfter (mouseReports s.inputs) :=
    cursor_run .start s.inputs
  refine ⟨linked.reports, ?_, ?_, ?_, ?_⟩
  · rw [← hcursor]
    exact linked.desktop.cursor
  · rw [linked.desktop.queue, ← clicks_mouseReports]
    exact births_append_pending .start s.inputs
  · exact fun rows hrows x y => (linked.desktop.task.isBoard hrows).alive x y
  · intro event trb hdelivering
    obtain ⟨-, htrb, hbytes⟩ := held.delivering event trb hdelivering
    have hread := htrb ▸ hbytes
    refine ⟨hread, ?_⟩
    rw [← hcursor]
    constructor
    · rintro ⟨d, hcall⟩
      exact ((simulation dev fits).onlyIf _ _ _ _ linked.desktop hcall).2
    · intro hbounds
      have hsize : event.bytes.length = mouseReportBytes := by
        rw [← hread, readBytes, List.length_map, List.length_range]
      obtain ⟨d, hcall, -⟩ := (simulation dev fits).returns _ _ (.mouse event.bytes) linked.desktop
        ⟨hsize.ge, hbounds⟩
      exact ⟨d, hcall⟩

theorem reachable_endpoint {label : InterruptRing.Label} {t : InterruptRing} {d : Desktop}
    (hs : ((system links normals buffer alloc g dev screen).guard
      fun s label => s.orderly label).Reachable s)
    (hok : s.endpoint.reportTaken label && inTurn s.endpoint label)
    (hnext : s.endpoint.next links normals mouseReportBytes label = some t)
    (called : s.desktop.run dev (callbacks s.endpoint t) = .ok d) :
    ((system links normals buffer alloc g dev screen).guard
      fun s label => s.orderly label).Reachable
      ⟨t, d, s.reports ++ reported label, s.inputs ++ callbacks s.endpoint t⟩ := by
  have hok : s.orderly (.endpoint label) = true := hok
  have hstep := Step.endpoint (InterruptRing.Step.of_next hnext) called
  exact hs.step ⟨hok, hstep⟩

/-- The endpoint takes steps that hand over nothing. -/
theorem reachable_silent {history : List InterruptRing.Label} (hsilent : .deliver ∉ history)
    {u : InterruptRing} (hs : ((system links normals buffer alloc g dev screen).guard
      fun s label => s.orderly label).Reachable s)
    (hrun : history.foldlM (fun t label => if t.reportTaken label && inTurn t label then
      t.next links normals mouseReportBytes label else none) s.endpoint = some u) :
    ((system links normals buffer alloc g dev screen).guard
      fun s label => s.orderly label).Reachable
      ⟨u, s.desktop, s.reports ++ history.flatMap reported, s.inputs⟩ := by
  induction history generalizing s with
  | nil =>
      cases hrun
      rw [List.flatMap_nil, List.append_nil]
      exact hs
  | cons label history ih =>
      rw [List.mem_cons, not_or] at hsilent
      rw [List.foldlM_cons, Option.bind_eq_bind, Option.bind_eq_some_iff] at hrun
      obtain ⟨t, hnext, hrun⟩ := hrun
      rw [Option.ite_none_right_eq_some] at hnext
      have hnil := callbacks_eq_nil (Ne.symm hsilent.1) (InterruptRing.Step.of_next hnext.2)
      have hcalls : s.desktop.run dev (callbacks s.endpoint t) = .ok s.desktop := by
        rw [hnil]
        rfl
      have hreach := reachable_endpoint hs hnext.1 hnext.2 hcalls
      rw [hnil, List.append_nil] at hreach
      rw [List.flatMap_cons, ← List.append_assoc]
      exact ih hsilent.2 hreach hrun

/-- The steps before the data buffer of the first report is handed over. -/
def firstSteps : List InterruptRing.Label :=
  [.execute [0, 1, 1], .follow, .process InterruptRing.firstReport, .write, .write, .write, .write,
    .write]

/-- One report, from the mouse to the cursor. -/
theorem mouse_moves_desktop_once : ∃ s : MouseSystem, s.reports = [[0, 1, 1]] ∧
    waiting s.endpoint = [] ∧ CursorLayer svga s.desktop.manager (1, 1) := by
  have hrun : (InterruptRing.run .xhci .xhci InterruptRing.mouseBuffer InterruptRing.mousePages
      mouseReportBytes (fun t label => t.reportTaken label && inTurn t label) firstSteps).any
        (fun u => u.posted = [] ∧ u.delivered = [] ∧
          (u.next .xhci .xhci mouseReportBytes .deliver).any
            (fun t => t.delivering = none ∧ t.posted = [] ∧
              t.delivered = [(InterruptRing.firstReport, [0, 1, 1])])) = true := by
    decide +kernel
  obtain ⟨u, hu, hstate⟩ := (Option.any_eq_true _ _).mp hrun
  obtain ⟨-, hnone, hdeliver⟩ := of_decide_eq_true hstate
  obtain ⟨t, ht, hstate⟩ := (Option.any_eq_true _ _).mp hdeliver
  obtain ⟨hdelivering, hposted, hdelivered⟩ := of_decide_eq_true hstate
  rw [InterruptRing.run] at hu
  split at hu
  next writes ring hfill =>
    obtain ⟨d₀, hboot, hstart⟩ := follows_start svga fun _ => 0
    have hmouse : View.start.Survives (.mouse [0, 1, 1]) := ⟨by decide, by decide, by decide⟩
    have hadmissible : Admissible View.Survives View.step .start [.mouse [0, 1, 1]] :=
      ⟨hmouse, trivial⟩
    obtain ⟨d, hcall, -⟩ := (simulation dark svga_fits).run_returns hstart hadmissible
    have hinit : ((system .xhci .xhci InterruptRing.mouseBuffer InterruptRing.mousePages svga dark
        fun _ => 0).guard fun s label => s.orderly label).Reachable
          ⟨InterruptRing.start ring writes, d₀, [], []⟩ :=
      .init ⟨⟨writes, ring, hfill, rfl⟩, hboot, rfl, rfl⟩
    have hreach := reachable_silent (by decide) hinit hu
    have happend : t.delivered = u.delivered ++ [(InterruptRing.firstReport, [0, 1, 1])] := by
      rw [hnone, hdelivered]
      rfl
    have hcalls : callbacks u t = [.mouse [0, 1, 1]] := callbacks_of_append happend
    have hrun : d₀.run dark (callbacks u t) = .ok d := by
      rw [hcalls]
      exact hcall
    have hreach := reachable_endpoint hreach rfl ht hrun
    have hapart : InterruptRing.Apart InterruptRing.mousePages mouseReportBytes
        (InterruptRing.mouseBuffer.len - 1) := by
      intro i hi j hj hne
      have hlen : InterruptRing.mouseBuffer.len - 1 = 1 := rfl
      omega
    obtain ⟨-, hcursor, -⟩ := mouse_moves_desktop .xhci .xhci
      InterruptRing.mouseBuffer (by decide) InterruptRing.mousePages hapart svga svga_fits dark
      (fun _ => 0) _ hreach
    dsimp only at hcursor
    rw [hcalls] at hcursor
    have hwaiting : waiting t = [] := by
      rw [waiting, hdelivering, hposted]
      rfl
    exact ⟨⟨t, d, [[0, 1, 1]], [.mouse [0, 1, 1]]⟩, rfl, hwaiting, hcursor⟩
  next => cases hu

end System

end MouseSystem

end LemolaOs.Kernel
