import LemolaOs.KernelLib.Console.Text
import LemolaOs.KernelLib.Logger
import LemolaOs.Library.Transition

/-!
# The log on the serial line

`kernel/src/serial.rs` and `SerialAndVgaCharWriter` of `kernel/src/graphics.rs`. A record of the
log goes out on the serial line, and up to the level `Info` on the console too. On the line a
newline is sent as a carriage return and a newline, and every byte waits until the transmitter is
empty.

The port is a small machine of its own: it holds one byte, and sends it at some time. The driver
reads its status and writes the next byte, and a byte that is written while the last one is still
held would be lost. `Sending` is the driver and the port between two moves of either of them.
-/

namespace LemolaOs.Kernel.Serial

open Logger Console

/-- `ch.encode_utf8`. -/
abbrev encodeUtf8 : Char → List UInt8 := String.utf8EncodeChar

/-- `SerialWriter::write_str`: the bytes that are handed to `write_serial`. -/
def serialBytes (s : List Char) : List UInt8 :=
  s.flatMap fun ch => if ch = '\n' then encodeUtf8 '\r' ++ encodeUtf8 '\n' else encodeUtf8 ch

/-- `log::Record`. -/
structure Record where
  level : Level
  args : List (List Char)
  file : Option (List Char)
  line : Option UInt32

/-- What `DecoratedLog::write` makes of a record. -/
def Record.text (r : Record) : List Char :=
  (DecoratedLog.write [] r.level r.args (r.file.getD "<unknown>".toList) (r.line.getD 0)).writer

/-- `level <= LevelFilter::Info`. -/
def upToInfo : Level → Bool
  | .error | .warn | .info => true
  | .debug | .trace => false

/-- The bytes for the serial line, and `WRITER`. -/
structure Outputs (σ : Type) (nRow nColumn : Nat) where
  serial : List UInt8
  console : Option (Writer σ nRow nColumn)

/-- `WRITER.get_or_init` in `init_graphics`. -/
def Outputs.initGraphics {σ : Type} {nRow nColumn : Nat} (out : Outputs σ nRow nColumn)
    (screen : σ) : Outputs σ nRow nColumn :=
  { out with console := some (out.console.getD (.new screen)) }

/-- `SerialAndVgaCharWriter::log`. The closures of the two `InstantWriter` get the text in pieces,
which neither the line nor the console can tell. -/
def log {σ : Type} {nRow nColumn : Nat} (dev : AsciiWriter σ) (out : Outputs σ nRow nColumn)
    (r : Record) : Rust (Outputs σ nRow nColumn) :=
  match out.console with
  | none => return out
  | some console =>
      if upToInfo r.level then do
        let console ← console.writeStr dev r.text
        return ⟨out.serial ++ serialBytes r.text, some console⟩
      else return { out with serial := out.serial ++ serialBytes r.text }

/-- Reading what came over the line: a carriage return before a newline is dropped. -/
def dropReturns : List UInt8 → List UInt8
  | [] => []
  | b :: rest => if b = 13 ∧ rest.head? = some 10 then dropReturns rest else b :: dropReturns rest

section Bytes

variable {c : Char} {first second : List UInt8} {s : List Char}

theorem serialBytes_append (s t : List Char) :
    serialBytes (s ++ t) = serialBytes s ++ serialBytes t := List.flatMap_append

/-- The byte of a newline occurs in no other character. -/
theorem eq_newline_of_mem (h : (10 : UInt8) ∈ encodeUtf8 c) : c = '\n' := by
  rw [encodeUtf8, String.utf8EncodeChar] at h
  have hbyte : ∀ n, n < 256 → (10 : UInt8) = UInt8.ofNat n → n = 10 := by
    intro n hn heq
    have hnat : 10 = (UInt8.ofNat n).toNat := congrArg UInt8.toNat heq
    rw [UInt8.toNat_ofNat', Nat.mod_eq_of_lt hn] at hnat
    exact hnat.symm
  split at h
  next hsmall =>
    have hval := hbyte _ (by omega) (List.mem_singleton.mp h)
    exact Char.ext (UInt32.toNat_inj.mp hval)
  next =>
    exfalso
    split at h
    · simp only [List.mem_cons, List.not_mem_nil, or_false] at h
      obtain h | h := h
      all_goals
        have hten := hbyte _ (by omega) h
        omega
    · split at h
      · simp only [List.mem_cons, List.not_mem_nil, or_false] at h
        obtain h | h | h := h
        all_goals
          have hten := hbyte _ (by omega) h
          omega
      · simp only [List.mem_cons, List.not_mem_nil, or_false] at h
        obtain h | h | h | h := h
        all_goals
          have hten := hbyte _ (by omega) h
          omega

/-- Text on the line does not begin with the byte of a newline. -/
theorem head?_serialBytes (s : List Char) : (serialBytes s).head? ≠ some 10 := by
  induction s with
  | nil => exact nofun
  | cons c s ih =>
      rw [serialBytes, List.flatMap_cons, ← serialBytes]
      intro hhead
      split at hhead
      · cases hhead
      next hc =>
        cases hbytes : encodeUtf8 c with
        | nil => exact absurd hbytes String.utf8EncodeChar_ne_nil
        | cons b bytes =>
            rw [hbytes, List.cons_append, List.head?_cons, Option.some_inj] at hhead
            exact hc (eq_newline_of_mem (by rw [hbytes, hhead]; exact List.mem_cons_self))

theorem dropReturns_append (hfirst : (10 : UInt8) ∉ first) (hsecond : second.head? ≠ some 10) :
    dropReturns (first ++ second) = first ++ dropReturns second := by
  induction first with
  | nil => rfl
  | cons b first ih =>
      rw [List.mem_cons, not_or] at hfirst
      have hhead : (first ++ second).head? ≠ some 10 := by
        cases first with
        | nil => exact hsecond
        | cons b' first =>
            intro heq
            exact hfirst.2 (Option.some_inj.mp heq ▸ List.mem_cons_self)
      rw [List.cons_append, dropReturns, if_neg fun h => hhead h.2, ih hfirst.2]
      rfl

/-- Nothing of the text is lost on the line. -/
theorem dropReturns_serialBytes (s : List Char) :
    dropReturns (serialBytes s) = s.flatMap encodeUtf8 := by
  induction s with
  | nil => rfl
  | cons c s ih =>
      rw [serialBytes, List.flatMap_cons, ← serialBytes, List.flatMap_cons]
      split
      next hc =>
        subst hc
        have hnewline : dropReturns (13 :: 10 :: serialBytes s) =
            10 :: dropReturns (serialBytes s) := by
          rw [dropReturns, if_pos ⟨rfl, rfl⟩, dropReturns, if_neg (by simp)]
        exact hnewline.trans (congrArg (10 :: ·) ih)
      next hc =>
        rw [dropReturns_append (fun hmem => hc (eq_newline_of_mem hmem)) (head?_serialBytes s), ih]

end Bytes

/-- The driver, with the bytes that it has still to write, and the port. -/
structure Sending where
  rest : List UInt8
  /-- The last status that was read said that the transmitter is empty. -/
  ready : Bool
  /-- The transmitter holding register. -/
  holding : Option UInt8
  sent : List UInt8

inductive Move where
  /-- `inb(PORT + 5)`. -/
  | status (byte : UInt8)
  /-- `outb(PORT, byte)`. -/
  | out
  /-- The port sends what it holds. -/
  | shift

/-- `write_serial_str`, between moves of the port. -/
def sending (start : Sending) : System Sending Move where
  init s := s = start
  step s
    | .status byte, t => (byte &&& 0x20 ≠ 0 ↔ s.holding = none) ∧ s.rest ≠ [] ∧ s.ready = false ∧
        t = { s with ready := byte &&& 0x20 != 0 }
    | .out, t => s.ready = true ∧ ∃ b rest, s.rest = b :: rest ∧
        t = { s with rest := rest, ready := false, holding := some b }
    | .shift, t => ∃ b, s.holding = some b ∧ t = { s with holding := none, sent := s.sent ++ [b] }

/-- The bytes of a string, with the port empty. -/
def begin (bytes : List UInt8) : Sending := ⟨bytes, false, none, []⟩

/-- What holds between any two moves. -/
structure Sending.Keeps (bytes : List UInt8) (s : Sending) : Prop where
  all : s.sent ++ s.holding.toList ++ s.rest = bytes
  empty : s.ready = true → s.holding = none

theorem keeps_of_reachable {bytes : List UInt8} {s : Sending}
    (hs : (sending (begin bytes)).Reachable s) : s.Keeps bytes := by
  refine hs.invariant ?_ ?_
  · rintro s rfl
    exact ⟨rfl, fun _ => rfl⟩
  · intro s i t _ inv hstep
    cases i with
    | status byte =>
        obtain ⟨hstatus, -, -, rfl⟩ := hstep
        exact ⟨inv.all, fun h => hstatus.mp (bne_iff_ne.mp h)⟩
    | out =>
        obtain ⟨hready, b, rest, hrest, rfl⟩ := hstep
        refine ⟨?_, fun h => absurd h Bool.false_ne_true⟩
        have hall := inv.all
        rw [inv.empty hready, hrest] at hall
        simpa using hall
    | shift =>
        obtain ⟨b, hholding, rfl⟩ := hstep
        refine ⟨?_, fun _ => rfl⟩
        have hall := inv.all
        rw [hholding] at hall
        simpa using hall

/-- The driver or the port can move until everything is sent. -/
theorem exists_move {bytes : List UInt8} {s : Sending}
    (h : s.rest ≠ [] ∨ s.holding ≠ none) : ∃ i t, (sending (begin bytes)).step s i t := by
  cases hholding : s.holding with
  | some b => exact ⟨.shift, _, b, hholding, rfl⟩
  | none =>
      have hrest : s.rest ≠ [] := h.resolve_right (absurd hholding ·)
      cases hready : s.ready with
      | true =>
          obtain ⟨b, rest, hcons⟩ := List.exists_cons_of_ne_nil hrest
          exact ⟨.out, _, hready, b, rest, hcons, rfl⟩
      | false =>
          exact ⟨.status 0x20, _, iff_of_true (by decide) hholding, hrest, hready, rfl⟩

section Log

variable {σ : Type} {nRow nColumn : Nat}

/-- Without the console nothing is logged, not even on the line. -/
theorem log_early (dev : AsciiWriter σ) (records : List Record) (serial : List UInt8) :
    records.foldlM (log dev) (⟨serial, none⟩ : Outputs σ nRow nColumn) = .ok ⟨serial, none⟩ := by
  induction records with
  | nil => rfl
  | cons r records ih => exact ih

/-- What a sequence of records comes to. -/
theorem log_spec (dev : AsciiWriter σ) (hrow : 0 < nRow) (hcol : 0 < nColumn)
    (records : List Record) (serial : List UInt8) (console : Writer σ nRow nColumn)
    {text : List Char} (hholds : console.Holds text) :
    ∃ console', records.foldlM (log dev) ⟨serial, some console⟩ =
        .ok ⟨serial ++ serialBytes (records.flatMap Record.text), some console'⟩ ∧
      console'.Holds (text ++ (records.filter fun r => upToInfo r.level).flatMap Record.text) := by
  induction records generalizing serial console text with
  | nil =>
      refine ⟨console, ?_, by rwa [List.filter_nil, List.flatMap_nil, List.append_nil]⟩
      rw [List.flatMap_nil, serialBytes, List.flatMap_nil, List.append_nil]
      rfl
  | cons r records ih =>
      rw [List.foldlM_cons, List.flatMap_cons, serialBytes_append, ← List.append_assoc]
      cases hlevel : upToInfo r.level with
      | true =>
          obtain ⟨console₁, hwrite, hwritten⟩ := hholds.exists_putString (d := dev) hrow hcol r.text
          obtain ⟨console', hlogs, hheld⟩ := ih (serial ++ serialBytes r.text) console₁ hwritten
          refine ⟨console', ?_, ?_⟩
          · simp only [log, hlevel, if_true, Writer.writeStr, hwrite, Rust.ok_bind]
            exact hlogs
          · rw [List.filter_cons, if_pos hlevel, List.flatMap_cons, ← List.append_assoc]
            exact hheld
      | false =>
          obtain ⟨console', hlogs, hheld⟩ := ih (serial ++ serialBytes r.text) console hholds
          refine ⟨console', ?_, ?_⟩
          · simp only [log, hlevel, Bool.false_eq_true, if_false]
            exact hlogs
          · rw [List.filter_cons, if_neg (by rw [hlevel]; exact Bool.false_ne_true)]
            exact hheld

/-- Every record since `init_graphics` is sent on the serial line whole, once and in order, however
the port and the driver take turns: what was sent is always the beginning of it, as long as
something is missing one of the two can move, and at the end the text is read back by dropping
carriage returns. The console holds the records up to `Info`, in order. -/
theorem log_delivered (nRow nColumn : Nat) (hrow : 0 < nRow) (hcol : 0 < nColumn)
    (dev : AsciiWriter σ) (screen : σ) (early records : List Record) :
    ∃ (serial : List UInt8) (console : Writer σ nRow nColumn),
      (early.foldlM (log dev) ⟨[], none⟩ >>= fun out =>
        records.foldlM (log dev) (out.initGraphics screen)) = .ok ⟨serial, some console⟩ ∧
      console.Holds ((records.filter fun r => upToInfo r.level).flatMap Record.text) ∧
      ∀ s, (sending (begin serial)).Reachable s →
        s.sent <+: serial ∧
          ((s.rest = [] ∧ s.holding = none ∧
              dropReturns s.sent = (records.flatMap Record.text).flatMap encodeUtf8) ∨
            ∃ i t, (sending (begin serial)).step s i t) := by
  obtain ⟨console, hlogs, hheld⟩ := log_spec dev hrow hcol records [] (.new screen) (.new screen)
  refine ⟨serialBytes (records.flatMap Record.text), console, ?_, hheld, fun s hs => ?_⟩
  · rw [log_early, Rust.ok_bind]
    exact hlogs
  · have hkeeps := keeps_of_reachable hs
    refine ⟨⟨s.holding.toList ++ s.rest, by rw [← List.append_assoc]; exact hkeeps.all⟩, ?_⟩
    by_cases hdone : s.rest = [] ∧ s.holding = none
    · refine .inl ⟨hdone.1, hdone.2, ?_⟩
      have hall := hkeeps.all
      rw [hdone.1, hdone.2] at hall
      simp only [Option.toList_none, List.append_nil] at hall
      rw [hall, dropReturns_serialBytes]
    · exact .inr (exists_move (by rwa [not_and_or] at hdone))

/-- A warning before and a trace after `init_graphics`. -/
theorem log_delivered_trace :
    ∃ (serial : List UInt8) (console : Writer Unit 2 8),
      ([⟨.warn, ["early".toList], none, none⟩].foldlM (log ⟨fun s _ _ _ _ _ => s⟩) ⟨[], none⟩
        >>= fun out =>
        [⟨.trace, ["tick".toList], none, none⟩].foldlM (log ⟨fun s _ _ _ _ _ => s⟩)
          (out.initGraphics ())) = .ok ⟨serial, some console⟩ ∧
      console.Holds [] ∧
      ∀ s, (sending (begin serial)).Reachable s →
        s.sent <+: serial ∧
          ((s.rest = [] ∧ s.holding = none ∧
              dropReturns s.sent =
                (Record.text ⟨.trace, ["tick".toList], none, none⟩).flatMap encodeUtf8) ∨
            ∃ i t, (sending (begin serial)).step s i t) := by
  simpa [upToInfo] using log_delivered 2 8 (by decide) (by decide) ⟨fun s _ _ _ _ _ => s⟩ ()
    [⟨.warn, ["early".toList], none, none⟩] [⟨.trace, ["tick".toList], none, none⟩]

end Log

end LemolaOs.Kernel.Serial
