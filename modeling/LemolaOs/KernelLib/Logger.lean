import LemolaOs.Library.Lines

/-!
# Decorated log output

`kernel-lib/src/logger.rs`. `DecoratedLog` passes a message on to a writer and puts a
decoration in front of every line. The message comes in pieces, cut wherever the
format machinery cuts it: inside a line, at a newline, into empty pieces. A line that
begins with a piece gets the header, and a line that begins behind a newline inside a
piece gets the short form.

`Decorates` relates the text so far to the output so far, and `writeStr_decorates` is
the step of one piece. `run_decorates` follows for every sequence of pieces: all that
is added to the text is one decoration a line. Which of the two forms a line gets
depends on the cuts, and `splitIndependent_iff` says when there is nothing to see of
that.

The writer is the text that it was given; no write fails.
-/

namespace LemolaOs.Logger

/-- `log::Level`. -/
inductive Level where
  | error
  | warn
  | info
  | debug
  | trace
  deriving DecidableEq

/-- `Level::as_str` of `log`. -/
def Level.asStr : Level → List Char
  | .error => "ERROR".toList
  | .warn => "WARN".toList
  | .info => "INFO".toList
  | .debug => "DEBUG".toList
  | .trace => "TRACE".toList

structure DecoratedLog where
  writer : List Char
  level : Level
  atLineStart : Bool
  file : List Char
  line : UInt32
  deriving DecidableEq

namespace DecoratedLog

/-- `"[{:>5}]: {:>12}@{:03}: "`. -/
def header (log : DecoratedLog) : List Char :=
  "[".toList ++ log.level.asStr.leftpad 5 ' ' ++ "]: ".toList ++ log.file.leftpad 12 ' ' ++
    "@".toList ++ (Nat.toDigits 10 log.line.toNat).leftpad 3 '0' ++ ": ".toList

/-- `"{}: "` in front of the other lines of a piece. -/
def short (log : DecoratedLog) : List Char := log.level.asStr ++ ": ".toList

/-- `write!` to the inner writer. -/
def emit (log : DecoratedLog) (s : List Char) : DecoratedLog :=
  { log with writer := log.writer ++ s }

def writeStr (log : DecoratedLog) (s : List Char) : DecoratedLog :=
  let ls := lines s
  let first := ls.head?.getD []
  let log := if log.atLineStart then { log.emit log.header with atLineStart := false } else log
  let log := log.emit first
  let log := ls.tail.foldl (fun log line => log.emit ('\n' :: log.short ++ line)) log
  if s.getLast? = some '\n' then { log.emit ['\n'] with atLineStart := true } else log

/-- A sequence of calls of `write_str`. -/
def run (log : DecoratedLog) (pieces : List (List Char)) : DecoratedLog := pieces.foldl writeStr log

/-- The log that `write` builds. -/
def opened (writer : List Char) (level : Level) (file : List Char) (line : UInt32) : DecoratedLog :=
  { writer, level, atLineStart := true, file, line }

/-- `DecoratedLog::write`: the pieces of the arguments, and the newline of `writeln!`. -/
def write (writer : List Char) (level : Level) (args : List (List Char)) (file : List Char)
    (line : UInt32) : DecoratedLog :=
  (opened writer level file line).run (args ++ [['\n']])

end DecoratedLog

section decorations

variable {log : DecoratedLog}

theorem Level.newline_not_mem (level : Level) : '\n' ∉ level.asStr := by
  cases level <;> decide

theorem newline_not_mem_toDigits (n : Nat) : '\n' ∉ Nat.toDigits 10 n := by
  intro hmem
  exact absurd (Nat.isDigit_of_mem_toDigits (by omega) (by omega) hmem) (by decide)

theorem newline_not_mem_header (hfile : '\n' ∉ log.file) : '\n' ∉ log.header := by
  simp [DecoratedLog.header, log.level.newline_not_mem, hfile, newline_not_mem_toDigits]

theorem newline_not_mem_short : '\n' ∉ log.short := by
  simp [DecoratedLog.short, log.level.newline_not_mem]

end decorations

section pieces

variable {log : DecoratedLog} {short a b s : List Char}

/-- What a piece becomes behind the decoration of its first line. -/
def body (short s : List Char) : List Char :=
  (lines s).head?.getD [] ++ (lines s).tail.flatMap (fun line => '\n' :: short ++ line) ++
    if s.getLast? = some '\n' then ['\n'] else []

theorem foldl_emit (log : DecoratedLog) (ls : List (List Char)) :
    ls.foldl (fun log line => log.emit ('\n' :: log.short ++ line)) log =
      log.emit (ls.flatMap fun line => '\n' :: log.short ++ line) := by
  induction ls generalizing log with
  | nil => simp [DecoratedLog.emit]
  | cons line ls ih =>
      rw [List.foldl_cons, ih, List.flatMap_cons]
      simp [DecoratedLog.emit, DecoratedLog.short]

/-- The effect of one piece. -/
theorem writeStr_eq (log : DecoratedLog) (s : List Char) :
    log.writeStr s =
      { log with
        writer := log.writer ++ (if log.atLineStart then log.header else []) ++ body log.short s
        atLineStart := s.getLast? = some '\n' } := by
  simp only [DecoratedLog.writeStr, foldl_emit]
  cases hstart : log.atLineStart <;> by_cases hlast : s.getLast? = some '\n' <;>
    simp [body, hlast, hstart, DecoratedLog.emit, DecoratedLog.short]

@[simp] theorem writer_writeStr (log : DecoratedLog) (s : List Char) :
    (log.writeStr s).writer =
      log.writer ++ (if log.atLineStart then log.header else []) ++ body log.short s := by
  rw [writeStr_eq]

@[simp] theorem atLineStart_writeStr (log : DecoratedLog) (s : List Char) :
    (log.writeStr s).atLineStart = decide (s.getLast? = some '\n') := by
  rw [writeStr_eq]

@[simp] theorem header_writeStr (log : DecoratedLog) (s : List Char) :
    (log.writeStr s).header = log.header := by
  rw [writeStr_eq]
  rfl

@[simp] theorem short_writeStr (log : DecoratedLog) (s : List Char) :
    (log.writeStr s).short = log.short := by
  rw [writeStr_eq]
  rfl

theorem body_plain (h : '\n' ∉ s) : body short s = s := by
  have hlast : s.getLast? ≠ some '\n' := fun hlast => h (List.mem_of_getLast? hlast)
  rw [body, if_neg hlast]
  cases s with
  | nil => rfl
  | cons c s => simp [lines_of_not_mem (List.cons_ne_nil c s) h]

theorem body_terminated (hnl : '\n' ∉ a) (hcr : '\r' ∉ a) :
    body short (a ++ ['\n']) = a ++ ['\n'] := by
  rw [body, lines_terminated hnl hcr]
  simp

theorem getLast?_append_newline (a : List Char) (hb : b ≠ []) :
    (a ++ '\n' :: b).getLast? = b.getLast? := by
  obtain ⟨c, b, rfl⟩ := List.exists_cons_of_ne_nil hb
  rw [List.getLast?_append_of_ne_nil a (List.cons_ne_nil _ _), List.getLast?_cons_cons]

/-- Behind a newline inside the piece stands the short decoration. -/
theorem body_append (a : List Char) (hb : b ≠ []) :
    body short (a ++ '\n' :: b) = body short (a ++ ['\n']) ++ short ++ body short b := by
  obtain ⟨first, before, hfirst⟩ := List.exists_cons_of_ne_nil (lines_ne_nil (s := a ++ ['\n'])
    (by simp))
  obtain ⟨next, after, hnext⟩ := List.exists_cons_of_ne_nil (lines_ne_nil hb)
  simp only [body, lines_append, hfirst, hnext, getLast?_append_newline a hb]
  simp

end pieces

section decorates

variable {head short s input output : List Char} {started : Bool}

/--
The output against the text, as both grow: a decoration begins a line, text goes
through as it is, and a newline ends the line. The flag says whether the line has its
decoration.
-/
inductive Decorates (head short : List Char) : Bool → List Char → List Char → Prop where
  | nothing : Decorates head short false [] []
  | decoration {input output d : List Char} (h : Decorates head short false input output)
      (hd : d = head ∨ d = short) : Decorates head short true input (output ++ d)
  | text {input output a : List Char} (h : Decorates head short true input output)
      (ha : '\n' ∉ a) : Decorates head short true (input ++ a) (output ++ a)
  | newline {input output : List Char} (h : Decorates head short true input output) :
      Decorates head short false (input ++ ['\n']) (output ++ ['\n'])

/-- A piece behind the decoration of its first line. -/
theorem Decorates.body (hcr : '\r' ∉ s) (h : Decorates head short true input output) :
    Decorates head short (s.getLast? ≠ some '\n') (input ++ s) (output ++ body short s) := by
  induction s using newline_induction generalizing input output with
  | plain s hs =>
      have hlast : s.getLast? ≠ some '\n' := fun hlast => hs (List.mem_of_getLast? hlast)
      rw [body_plain hs, decide_eq_true hlast]
      exact h.text hs
  | terminated a ha =>
      rw [body_terminated ha (by simp_all), ← List.append_assoc, ← List.append_assoc]
      simpa using (h.text ha).newline
  | more a b ha hb ih =>
      simp only [List.mem_append, List.mem_cons, not_or] at hcr
      have hnext := (h.text ha).newline.decoration (.inr rfl)
      rw [body_append a hb, body_terminated ha hcr.1, getLast?_append_newline a hb]
      simpa using ih hcr.2.2 hnext

theorem writeStr_decorates {log : DecoratedLog} (hcr : '\r' ∉ s)
    (h : Decorates log.header log.short (!log.atLineStart) input output) :
    ∃ out, (log.writeStr s).writer = log.writer ++ out ∧
      Decorates log.header log.short (!(log.writeStr s).atLineStart) (input ++ s)
        (output ++ out) := by
  refine ⟨(if log.atLineStart then log.header else []) ++ body log.short s, ?_, ?_⟩
  · rw [writer_writeStr, List.append_assoc]
  · have hbegun : Decorates log.header log.short true input
        (output ++ if log.atLineStart then log.header else []) := by
      cases hstart : log.atLineStart with
      | false => simpa [hstart] using h
      | true => exact Decorates.decoration (by simpa [hstart] using h) (.inl rfl)
    rw [← List.append_assoc]
    simpa using hbegun.body hcr

/-- Every sequence of pieces. -/
theorem run_step {log : DecoratedLog} {pieces : List (List Char)} (hcr : ∀ s ∈ pieces, '\r' ∉ s)
    (h : Decorates log.header log.short (!log.atLineStart) input output) :
    ∃ out, (log.run pieces).writer = log.writer ++ out ∧
      Decorates log.header log.short (!(log.run pieces).atLineStart) (input ++ pieces.flatten)
        (output ++ out) := by
  induction pieces generalizing log input output with
  | nil => exact ⟨[], by simp [DecoratedLog.run], by simpa [DecoratedLog.run] using h⟩
  | cons s pieces ih =>
      obtain ⟨out, hwriter, hs⟩ := writeStr_decorates (hcr s List.mem_cons_self) h
      rw [← header_writeStr log s, ← short_writeStr log s] at hs
      obtain ⟨out', hwriter', hrun⟩ := ih (fun s hs => hcr s (List.mem_cons_of_mem _ hs)) hs
      refine ⟨out ++ out', ?_, ?_⟩
      · rw [DecoratedLog.run, List.foldl_cons, ← DecoratedLog.run, hwriter', hwriter,
          List.append_assoc]
      · simpa [DecoratedLog.run] using hrun

/-- A line of the output is a line of the text behind one decoration. -/
def IsDecorated (head short line out : List Char) : Prop := out = head ++ line ∨ out = short ++ line

/-- The finished lines on both sides, and the lines begun. -/
theorem Decorates.exists_lines (hhead : '\n' ∉ head) (hshort : '\n' ∉ short)
    (h : Decorates head short started input output) :
    ∃ ins outs line out, input = terminated ins ++ line ∧ output = terminated outs ++ out ∧
      (∀ l ∈ line :: ins, '\n' ∉ l) ∧ (∀ l ∈ out :: outs, '\n' ∉ l) ∧
      List.Forall₂ (IsDecorated head short) ins outs ∧
      if started then IsDecorated head short line out else line = [] ∧ out = [] := by
  induction h with
  | nothing => exact ⟨[], [], [], [], by simp⟩
  | @decoration input output d _ hd ih =>
      obtain ⟨ins, outs, line, out, rfl, rfl, hins, houts, hlines, rfl, rfl⟩ := ih
      have hplain : '\n' ∉ d := by
        obtain rfl | rfl := hd
        · exact hhead
        · exact hshort
      refine ⟨ins, outs, [], d, rfl, by simp, hins, ?_, hlines, ?_⟩
      · simp_all
      · rw [if_pos rfl, IsDecorated, List.append_nil, List.append_nil]
        exact hd
  | @text input output a _ ha ih =>
      obtain ⟨ins, outs, line, out, rfl, rfl, hins, houts, hlines, hline⟩ := ih
      refine ⟨ins, outs, line ++ a, out ++ a, by simp, by simp, by simp_all, by simp_all, hlines,
        ?_⟩
      rw [if_pos rfl] at hline ⊢
      obtain rfl | rfl := hline
      · exact .inl (List.append_assoc _ _ _)
      · exact .inr (List.append_assoc _ _ _)
  | @newline input output _ ih =>
      obtain ⟨ins, outs, line, out, rfl, rfl, hins, houts, hlines, hline⟩ := ih
      refine ⟨ins ++ [line], outs ++ [out], [], [], ?_, ?_, ?_, ?_, ?_, by simp⟩
      · simp [terminated_append, terminated_singleton]
      · simp [terminated_append, terminated_singleton]
      · simp_all [or_imp, forall_and]
      · simp_all [or_imp, forall_and]
      · exact List.rel_append hlines (.cons hline .nil)

theorem Decorates.splitOn (hhead : '\n' ∉ head) (hshort : '\n' ∉ short)
    (h : Decorates head short started input output) :
    ∃ ins outs line out, input.splitOn '\n' = ins ++ [line] ∧ output.splitOn '\n' = outs ++ [out] ∧
      List.Forall₂ (IsDecorated head short) ins outs ∧
      if started then IsDecorated head short line out else line = [] ∧ out = [] := by
  obtain ⟨ins, outs, line, out, rfl, rfl, hins, houts, hlines, hline⟩ := h.exists_lines hhead hshort
  simp only [List.forall_mem_cons] at hins houts
  exact ⟨ins, outs, line, out, splitOn_terminated hins.2 hins.1, splitOn_terminated houts.2 houts.1,
    hlines, hline⟩

end decorates

section runs

variable {log : DecoratedLog} {pieces : List (List Char)}

/-- The log rests at a line start behind a piece that ends in a newline. -/
theorem atLineStart_run (hne : pieces ≠ []) :
    (log.run pieces).atLineStart = decide ((pieces.getLast hne).getLast? = some '\n') := by
  obtain ⟨before, s, rfl⟩ := (List.eq_nil_or_concat pieces).resolve_left hne
  simp [DecoratedLog.run]

theorem run_splitOn (log : DecoratedLog) (hstart : log.atLineStart = true) (hfile : '\n' ∉ log.file)
    (hcr : ∀ s ∈ pieces, '\r' ∉ s) :
    ∃ emitted, (log.run pieces).writer = log.writer ++ emitted ∧
      ∃ ins outs line out, pieces.flatten.splitOn '\n' = ins ++ [line] ∧
        emitted.splitOn '\n' = outs ++ [out] ∧
        List.Forall₂ (IsDecorated log.header log.short) ins outs ∧
        if (log.run pieces).atLineStart then line = [] ∧ out = []
        else IsDecorated log.header log.short line out := by
  have hbegin : Decorates log.header log.short (!log.atLineStart) [] [] := by
    rw [hstart]
    exact .nothing
  obtain ⟨emitted, hwriter, hrun⟩ := run_step hcr hbegin
  obtain ⟨ins, outs, line, out, hins, houts, hlines, hline⟩ :=
    hrun.splitOn (newline_not_mem_header hfile) newline_not_mem_short
  refine ⟨emitted, hwriter, ins, outs, line, out, hins, houts, hlines, ?_⟩
  cases hend : (log.run pieces).atLineStart with
  | false => simpa [hend] using hline
  | true => simpa [hend] using hline

/--
The lines of the output are the lines of the text, each behind one decoration; only a
last line that no piece has written to has none.
-/
theorem run_decorates (log : DecoratedLog) (pieces : List (List Char))
    (hstart : log.atLineStart = true) (hfile : '\n' ∉ log.file) (hne : pieces ≠ [])
    (hcr : ∀ s ∈ pieces, '\r' ∉ s) :
    ∃ emitted, (log.run pieces).writer = log.writer ++ emitted ∧
      (emitted.splitOn '\n').length = (pieces.flatten.splitOn '\n').length ∧
      ∃ ins outs line out, pieces.flatten.splitOn '\n' = ins ++ [line] ∧
        emitted.splitOn '\n' = outs ++ [out] ∧
        List.Forall₂ (IsDecorated log.header log.short) ins outs ∧
        if (pieces.getLast hne).getLast? = some '\n' then line = [] ∧ out = []
        else IsDecorated log.header log.short line out := by
  obtain ⟨emitted, hwriter, ins, outs, line, out, hins, houts, hlines, hline⟩ :=
    run_splitOn log hstart hfile hcr
  refine ⟨emitted, hwriter, ?_, ins, outs, line, out, hins, houts, hlines, ?_⟩
  · rw [hins, houts, List.length_append, List.length_append, hlines.length_eq]
    rfl
  · rw [atLineStart_run hne] at hline
    simpa using hline

theorem run_decorates_pieces :
    ∃ emitted, ((DecoratedLog.opened [] .info "a.rs".toList 7).run
        ["x".toList, "\n".toList, [], "y\n\nz".toList]).writer = emitted ∧
      (emitted.splitOn '\n').length = 4 := by
  obtain ⟨emitted, hwriter, hlength, -⟩ := run_decorates
    (.opened [] .info "a.rs".toList 7) ["x".toList, "\n".toList, [], "y\n\nz".toList] rfl
    (by decide) (by decide) (by decide)
  exact ⟨emitted, hwriter, hlength⟩

/-- A record of the log: every line of the message is decorated, and a newline ends the last. -/
theorem write_decorates (writer : List Char) (level : Level) {args : List (List Char)}
    {file : List Char} (line : UInt32) (hfile : '\n' ∉ file) (hcr : ∀ s ∈ args, '\r' ∉ s) :
    ∃ emitted outs, (DecoratedLog.write writer level args file line).writer = writer ++ emitted ∧
      emitted.splitOn '\n' = outs ++ [[]] ∧
      List.Forall₂ (IsDecorated (DecoratedLog.opened writer level file line).header
        (DecoratedLog.opened writer level file line).short) (args.flatten.splitOn '\n') outs := by
  have hpieces : ∀ s ∈ args ++ [['\n']], '\r' ∉ s := by
    intro s hs
    obtain hs | hs := List.mem_append.mp hs
    · exact hcr s hs
    · rw [List.mem_singleton.mp hs]
      decide
  obtain ⟨emitted, hwriter, ins, outs, line, out, hins, houts, hlines, hline⟩ :=
    run_splitOn (.opened writer level file line) rfl hfile hpieces
  rw [atLineStart_run (by simp), List.getLast_append_singleton] at hline
  obtain ⟨rfl, rfl⟩ : line = [] ∧ out = [] := by simpa using hline
  rw [List.flatten_append, List.flatten_singleton, List.splitOn_append_cons_self, List.splitOn_nil,
    List.append_cancel_right_eq] at hins
  exact ⟨emitted, outs, hwriter, houts, hins ▸ hlines⟩

end runs

section cuts

variable {log : DecoratedLog} {pieces : List (List Char)}

/-- The output does not show how the text was cut into pieces. -/
def SplitIndependent (log : DecoratedLog) (text : List Char) : Prop :=
  ∀ pieces pieces' : List (List Char), pieces.flatten = text → pieces'.flatten = text →
    (log.run pieces).writer = (log.run pieces').writer

/-- Without a newline, the pieces go through behind one header. -/
theorem writer_run_plain (hnl : '\n' ∉ pieces.flatten) (hne : pieces ≠ []) :
    (log.run pieces).writer =
      log.writer ++ (if log.atLineStart then log.header else []) ++ pieces.flatten := by
  induction pieces generalizing log with
  | nil => exact absurd rfl hne
  | cons s pieces ih =>
      rw [List.flatten_cons, List.mem_append, not_or] at hnl
      have hlast : s.getLast? ≠ some '\n' := fun hlast => hnl.1 (List.mem_of_getLast? hlast)
      have hs : (log.writeStr s).writer =
          log.writer ++ (if log.atLineStart then log.header else []) ++ s := by
        rw [writer_writeStr, body_plain hnl.1]
      have hstart : (log.writeStr s).atLineStart = false := by
        rw [atLineStart_writeStr, decide_eq_false hlast]
      rw [DecoratedLog.run, List.foldl_cons, ← DecoratedLog.run]
      cases pieces with
      | nil => simpa [DecoratedLog.run] using hs
      | cons s' pieces =>
          rw [ih hnl.2 (List.cons_ne_nil _ _), hs, hstart]
          simp

theorem header_ne_nil : log.header ≠ [] := by simp [DecoratedLog.header]

/-- The two forms of the decoration differ in their first character. -/
theorem short_ne_header : log.short ≠ log.header := by
  intro heq
  have hlevel : log.short.head? ≠ some '[' := by
    rw [DecoratedLog.short]
    cases log.level <;> decide
  exact hlevel (congrArg List.head? heq)

/-- A cut behind a newline shows. -/
theorem writer_cut_ne (hstart : log.atLineStart = true) (a b : List Char) :
    (log.run [a ++ '\n' :: b]).writer ≠ (log.run [a ++ ['\n'], b]).writer := by
  intro heq
  have hwhole : (log.run [a ++ '\n' :: b]).writer =
      log.writer ++ log.header ++ body log.short (a ++ '\n' :: b) := by
    simp [DecoratedLog.run, hstart]
  have hcut : (log.run [a ++ ['\n'], b]).writer =
      log.writer ++ log.header ++ body log.short (a ++ ['\n']) ++ log.header ++
        body log.short b := by
    simp [DecoratedLog.run, hstart]
  rw [hwhole, hcut] at heq
  by_cases hb : b = []
  · -- the empty piece is given a header of its own
    subst hb
    simp [body, lines, splitInclusive, header_ne_nil] at heq
  · rw [body_append a hb] at heq
    simp only [List.append_assoc, List.append_cancel_left_eq] at heq
    exact short_ne_header (List.append_cancel_right heq)

/-- The pieces do not show if there is one line and something of it. -/
theorem splitIndependent_iff (writer : List Char) (level : Level) (file : List Char) (line : UInt32)
    (text : List Char) :
    SplitIndependent (.opened writer level file line) text ↔ text ≠ [] ∧ '\n' ∉ text := by
  constructor
  · intro h
    constructor
    · rintro rfl
      -- no piece at all, and an empty one
      have heq := h [] [[]] rfl rfl
      simp [DecoratedLog.run, DecoratedLog.opened, DecoratedLog.header] at heq
    · intro hnl
      obtain ⟨a, b, rfl⟩ := List.append_of_mem hnl
      exact writer_cut_ne rfl a b (h [a ++ '\n' :: b] [a ++ ['\n'], b] (by simp) (by simp))
  · rintro ⟨hne, hnl⟩ pieces pieces' rfl heq
    have hpieces : pieces ≠ [] := by
      rintro rfl
      exact hne rfl
    have hpieces' : pieces' ≠ [] := by
      rintro rfl
      exact hne heq.symm
    rw [writer_run_plain hnl hpieces, writer_run_plain (heq ▸ hnl) hpieces', heq]

/-- `"a\nb"`, and the same text cut behind the newline. -/
theorem cut_shows :
    ¬ ∀ writer level file line text, SplitIndependent (.opened writer level file line) text := by
  intro h
  have heq := h [] .info "a.rs".toList 7 "a\nb".toList ["a\nb".toList] ["a\n".toList, "b".toList]
    (by decide) (by decide)
  exact absurd heq (by decide)

end cuts

end LemolaOs.Logger
