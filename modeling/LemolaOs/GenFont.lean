import LemolaOs.KernelLib.Console.Screen
import LemolaOs.Library.Lines
import LemolaOs.Library.Radix
import LemolaOs.Rust

/-!
# The font, from its text to the screen

`gen_font_impl` of `gen_font/src/lib.rs` is a macro. It reads a text in which every character has
18 lines: an empty one, one with its code, and 16 with its pixels. It expands to a constant `FONT`,
an array with an entry for every code up to the last, and `write_ascii` draws from that array.

The expansion is a list of tokens, and `IsConst` says that the compiler takes them for a constant.
That is more than the macro sees to: between two entries of the array stands one comma, and where
a code is missing the macro puts two. So the text has to have every code in turn
(`isConst_expand_iff`). A text that does is one that `fontText` writes, and what it draws is what
the console shows.
-/

namespace LemolaOs.GenFont

open Console

/-- The macro returns an error, which the compiler reports, or it panics. -/
inductive Failure where
  | bail (text : String)
  | panic (reason : Panic)
  deriving DecidableEq

structure Font where
  charCode : Nat
  bytes : List (List Char)
  deriving DecidableEq

/-- The variables of the loop over the lines. -/
structure Progress where
  fontData : List Font
  currentCharCode : Nat
  currentCharBytes : List (List Char)

/-- `char::is_whitespace`. -/
def isWhitespace (c : Char) : Bool :=
  (0x9 ≤ c.toNat && c.toNat ≤ 0xd) || (0x2000 ≤ c.toNat && c.toNat ≤ 0x200a) ||
    [0x20, 0x85, 0xa0, 0x1680, 0x2028, 0x2029, 0x202f, 0x205f, 0x3000].contains c.toNat

/-- `line.split_whitespace().next()`. -/
def firstWord (line : List Char) : Option (List Char) :=
  match (line.dropWhile isWhitespace).takeWhile (!isWhitespace ·) with
  | [] => none
  | word => some word

/-- `&s[index..]`, which panics inside a character and behind the end. -/
def sliceFrom : (index : Nat) → List Char → Option (List Char)
  | 0, s => some s
  | _ + 1, [] => none
  | index + 1, c :: s =>
      if c.utf8Size ≤ index + 1 then sliceFrom (index + 1 - c.utf8Size) s else none

def unwrapNone : Panic := .message "called `Option::unwrap()` on a `None` value"

/-- One round of the loop over the lines. -/
def readLine (st : Progress) (idx : Nat) (line : List Char) : Except Failure Progress :=
  if line = [] then return st
  else if idx % 18 = 1 then
    match firstWord line with
    | none => throw (.panic unwrapNone)
    | some strRepr =>
      match sliceFrom 2 strRepr with
      | none => throw (.panic .outOfRange)
      | some digits =>
        match fromStrRadix 16 usizeSize digits with
        | none => throw (.bail ("failed to parse char code in `" ++ String.ofList line ++ "`"))
        | some charCode => return { st with currentCharCode := charCode }
  else
    let chars := line.map fun c => if c = '.' then '0' else '1'
    if chars.length = 8 then
      let bytes := st.currentCharBytes ++ [chars]
      if idx % 18 = 17 then
        return { st with fontData := st.fontData ++ [⟨st.currentCharCode, bytes⟩],
                         currentCharBytes := [] }
      else return { st with currentCharBytes := bytes }
    else throw (.bail ("invalid font data `" ++ String.ofList chars ++ "`"))

/-- The loop over the lines from the given one on. -/
def readLines (st : Progress) (idx : Nat) (lines : List (List Char)) : Except Failure Progress :=
  (lines.zipIdx idx).foldlM (fun st line => readLine st line.2 line.1) st

/-- What the expansion is made of: `[0u8; 16]`, a row of numbers in brackets, and what stands
between. -/
inductive Token where
  | comma
  | zeros
  | row (bytes : List UInt8)
  deriving DecidableEq

/-- `const FONT: [[u8; 16]; #array_len] = [ #tokens ];` -/
structure Expansion where
  arrayLen : Nat
  tokens : List Token
  deriving DecidableEq

/-- `u8::from_str_radix(&bits, 2).unwrap()`. -/
def bitRow (bits : List Char) : Except Failure UInt8 :=
  match fromStrRadix 2 256 bits with
  | some value => .ok (.ofNat value)
  | none => .error (.panic (.message "called `Result::unwrap()` on an `Err` value"))

/-- The loop over the codes from `idx` on. Its counter is a `usize`, and it counts further before
the round begins. `#empty` ends in a comma, and the macro puts another behind it. -/
def expand (idx : Nat) (fonts : List Font) : Except Failure Expansion :=
  if _h : idx + 1 < usizeSize then
    match fonts with
    | [] => .ok ⟨idx, []⟩
    | font :: rest =>
      if idx = font.charCode then do
        let bytes ← font.bytes.mapM bitRow
        let expansion ← expand (idx + 1) rest
        return { expansion with tokens := .row bytes :: .comma :: expansion.tokens }
      else do
        let expansion ← expand (idx + 1) (font :: rest)
        return { expansion with tokens := .zeros :: .comma :: .comma :: expansion.tokens }
  else .error (.panic .overflow)
termination_by usizeSize - idx

/-- `gen_font_impl`, on the text of the font. -/
def genFontImpl (text : List Char) : Except Failure Expansion := do
  let progress ← readLines ⟨[], 0, []⟩ 0 (lines text)
  expand 0 progress.fontData

/-- The entries of an array expression: a comma behind each, and the last may do without. -/
def entries : List Token → Option (List (List UInt8))
  | [] => some []
  | [.row bytes] => some [bytes]
  | [.zeros] => some [.replicate 16 0]
  | .row bytes :: .comma :: rest => (entries rest).map (bytes :: ·)
  | .zeros :: .comma :: rest => (entries rest).map (.replicate 16 0 :: ·)
  | _ => none

/-- The expansion is a constant, and this is its value. -/
structure Expansion.IsConst {n : Nat} (expansion : Expansion) (font : Vector Glyph n) : Prop where
  arrayLen_eq : expansion.arrayLen = n
  entries_eq : entries expansion.tokens = some (font.toList.map Vector.toList)

section Expand

variable {idx : Nat} {font : Font} {fonts rest : List Font} {bits : List Char}
  {expansion : Expansion}

/-- A row as the loop over the lines leaves it: a digit for each of eight pixels. -/
structure RowOk (bits : List Char) : Prop where
  length_eq : bits.length = 8
  digit : ∀ c ∈ bits, c = '0' ∨ c = '1'

/-- The pixels of a row. -/
def pixelsOf (bits : List Char) : List Bool := bits.map (· = '1')

/-- The number that a row stands for. -/
def rowValue (bits : List Char) : UInt8 := .ofNat (horner 2 0 ((pixelsOf bits).map Bool.toNat))

/-- Every row of every glyph can be read as a number. -/
def RowsOk (fonts : List Font) : Prop := ∀ font ∈ fonts, ∀ bits ∈ font.bytes, RowOk bits

/-- The codes grow, from `idx` on, and stay below the largest counter. -/
def Increasing : (idx : Nat) → List Font → Prop
  | idx, [] => idx + 1 < usizeSize
  | idx, font :: rest => idx ≤ font.charCode ∧ Increasing (font.charCode + 1) rest

/-- Every code from `idx` on, in turn. -/
def Consecutive (idx : Nat) (fonts : List Font) : Prop :=
  fonts.map Font.charCode = List.range' idx fonts.length

/-- One past the last code. -/
def endOf (idx : Nat) (fonts : List Font) : Nat :=
  ((fonts.getLast?).map (·.charCode + 1)).getD idx

theorem bitRow_eq_ok (h : RowOk bits) : bitRow bits = .ok (rowValue bits) := by
  have hdigits : bits.map (toDigit 2) = ((pixelsOf bits).map Bool.toNat).map some := by
    rw [pixelsOf, List.map_map, List.map_map]
    refine List.map_congr_left fun c hc => ?_
    obtain rfl | rfl := h.digit c hc
    · rfl
    · rfl
  have hlength : (pixelsOf bits).length = 8 := by rw [pixelsOf, List.length_map, h.length_eq]
  have hlt : horner 2 0 ((pixelsOf bits).map Bool.toNat) < 256 := by
    have hpow := horner_two_lt (pixelsOf bits)
    rwa [hlength] at hpow
  have hne : bits ≠ [] := List.ne_nil_of_length_eq_add_one h.length_eq
  rw [bitRow, fromStrRadix_eq_some (by decide) hne hdigits hlt]
  rfl

theorem mapM_bitRow {rows : List (List Char)} (h : ∀ bits ∈ rows, RowOk bits) :
    rows.mapM bitRow = .ok (rows.map rowValue) := by
  induction rows with
  | nil => rfl
  | cons bits rows ih =>
      rw [List.mapM_cons, bitRow_eq_ok (h bits List.mem_cons_self),
        ih fun bits hbits => h bits (List.mem_cons_of_mem _ hbits)]
      rfl

theorem expand_nil (hidx : idx + 1 < usizeSize) : expand idx [] = .ok ⟨idx, []⟩ := by
  rw [expand, dif_pos hidx]

theorem expand_hit (hidx : idx + 1 < usizeSize) (hcode : idx = font.charCode)
    (hrows : ∀ bits ∈ font.bytes, RowOk bits) :
    expand idx (font :: rest) = (do
      let expansion ← expand (idx + 1) rest
      return { expansion with
        tokens := .row (font.bytes.map rowValue) :: .comma :: expansion.tokens }) := by
  rw [expand, dif_pos hidx, if_pos hcode, mapM_bitRow hrows]
  rfl

theorem expand_gap (hidx : idx + 1 < usizeSize) (hcode : idx ≠ font.charCode) :
    expand idx (font :: rest) = (do
      let expansion ← expand (idx + 1) (font :: rest)
      return { expansion with tokens := .zeros :: .comma :: .comma :: expansion.tokens }) := by
  rw [expand, dif_pos hidx, if_neg hcode]

theorem expand_overflow (hidx : ¬ idx + 1 < usizeSize) :
    expand idx fonts = .error (.panic .overflow) := by
  rw [expand.eq_def, dif_neg hidx]

theorem RowsOk.tail (h : RowsOk (font :: rest)) : RowsOk rest :=
  fun f hf => h f (List.mem_cons_of_mem _ hf)

theorem endOf_cons (idx : Nat) (font : Font) (rest : List Font) :
    endOf idx (font :: rest) = endOf (font.charCode + 1) rest := by
  rw [endOf, endOf, List.getLast?_cons]
  cases rest.getLast? <;> rfl

/-- Growing codes leave room for the counter. -/
theorem Increasing.room (h : Increasing idx fonts) : idx + 1 < usizeSize := by
  induction fonts generalizing idx with
  | nil => exact h
  | cons font rest ih =>
      have hrest := ih h.2
      have hle := h.1
      omega

/-- A code that is not the first one may come later in a growing list. -/
theorem increasing_succ_iff (hcode : idx ≠ font.charCode) :
    Increasing (idx + 1) (font :: rest) ↔ Increasing idx (font :: rest) :=
  and_congr_left fun _ => by omega

theorem consecutive_cons_iff :
    Consecutive idx (font :: rest) ↔ idx = font.charCode ∧ Consecutive (idx + 1) rest := by
  rw [Consecutive, List.map_cons, List.length_cons, List.range'_succ, List.cons.injEq, eq_comm]
  rfl

instance (idx : Nat) (fonts : List Font) : Decidable (Consecutive idx fonts) :=
  inferInstanceAs (Decidable (_ = _))

/-- What the expansion of growing codes is. The compiler takes it if no code is missing. -/
structure Expanded (idx : Nat) (fonts : List Font) (expansion : Expansion) : Prop where
  increasing : Increasing idx fonts
  arrayLen_eq : expansion.arrayLen = endOf idx fonts
  entries_eq : entries expansion.tokens =
    if Consecutive idx fonts then some (fonts.map fun font => font.bytes.map rowValue) else none

theorem Expanded.hit (hcode : idx = font.charCode) (h : Expanded (idx + 1) rest expansion) :
    Expanded idx (font :: rest)
      { expansion with
        tokens := .row (font.bytes.map rowValue) :: .comma :: expansion.tokens } where
  increasing := ⟨hcode.le, hcode ▸ h.increasing⟩
  arrayLen_eq := by
    rw [endOf_cons, ← hcode]
    exact h.arrayLen_eq
  entries_eq := by
    rw [entries, h.entries_eq]
    by_cases hrest : Consecutive (idx + 1) rest
    · rw [if_pos hrest, if_pos (consecutive_cons_iff.mpr ⟨hcode, hrest⟩)]
      rfl
    · rw [if_neg hrest, if_neg fun h => hrest (consecutive_cons_iff.mp h).2]
      rfl

theorem Expanded.gap (hcode : idx ≠ font.charCode)
    (h : Expanded (idx + 1) (font :: rest) expansion) :
    Expanded idx (font :: rest)
      { expansion with tokens := .zeros :: .comma :: .comma :: expansion.tokens } where
  increasing := (increasing_succ_iff hcode).mp h.increasing
  arrayLen_eq := by
    rw [endOf_cons]
    exact h.arrayLen_eq.trans (endOf_cons _ _ _)
  entries_eq := by
    rw [if_neg fun h => hcode (consecutive_cons_iff.mp h).1]
    rfl

/-- The expansion ends exactly if the codes grow. -/
theorem expand_spec (h : RowsOk fonts) :
    (∃ expansion, expand idx fonts = .ok expansion ∧ Expanded idx fonts expansion) ∨
      (∃ e, expand idx fonts = .error e) ∧ ¬ Increasing idx fonts := by
  induction hleft : usizeSize - idx generalizing idx fonts with
  | zero =>
      have hidx : ¬ idx + 1 < usizeSize := by omega
      exact .inr ⟨⟨_, expand_overflow hidx⟩, fun hinc => hidx hinc.room⟩
  | succ left ih =>
      by_cases hidx : idx + 1 < usizeSize
      swap
      · exact .inr ⟨⟨_, expand_overflow hidx⟩, fun hinc => hidx hinc.room⟩
      have hnext : usizeSize - (idx + 1) = left := by omega
      cases fonts with
      | nil => exact .inl ⟨_, expand_nil hidx, hidx, rfl, rfl⟩
      | cons font rest =>
          by_cases hcode : idx = font.charCode
          · rw [expand_hit hidx hcode (h font List.mem_cons_self)]
            obtain ⟨expansion, hexpand, hspec⟩ | ⟨⟨e, hexpand⟩, hnot⟩ := ih h.tail hnext
            · rw [hexpand]
              exact .inl ⟨_, rfl, hspec.hit hcode⟩
            · rw [hexpand]
              exact .inr ⟨⟨e, rfl⟩, fun hinc => hnot (hcode ▸ hinc.2)⟩
          · rw [expand_gap hidx hcode]
            obtain ⟨expansion, hexpand, hspec⟩ | ⟨⟨e, hexpand⟩, hnot⟩ := ih h hnext
            · rw [hexpand]
              exact .inl ⟨_, rfl, hspec.gap hcode⟩
            · rw [hexpand]
              exact .inr ⟨⟨e, rfl⟩, fun hinc => hnot ((increasing_succ_iff hcode).mpr hinc)⟩

/-- The counter of the loop ends one below the largest `usize`, or before. -/
theorem Increasing.endOf_room (h : Increasing idx fonts) : endOf idx fonts + 1 < usizeSize := by
  induction fonts generalizing idx with
  | nil => exact h
  | cons font rest ih =>
      rw [endOf_cons]
      exact ih h.2

theorem Consecutive.increasing (h : Consecutive idx fonts)
    (hroom : idx + fonts.length + 1 < usizeSize) : Increasing idx fonts := by
  induction fonts generalizing idx with
  | nil => exact hroom
  | cons font rest ih =>
      obtain ⟨hcode, hrest⟩ := consecutive_cons_iff.mp h
      rw [List.length_cons] at hroom
      exact ⟨hcode.le, hcode ▸ ih hrest (by omega)⟩

theorem Consecutive.endOf_eq (h : Consecutive idx fonts) :
    endOf idx fonts = idx + fonts.length := by
  induction fonts generalizing idx with
  | nil => rfl
  | cons font rest ih =>
      obtain ⟨rfl, hrest⟩ := consecutive_cons_iff.mp h
      rw [endOf_cons, ih hrest, List.length_cons]
      omega

end Expand

section Lines

variable {st st' : Progress} {idx : Nat} {line : List Char} {rest : List (List Char)}

/-- The rows that have been read. -/
structure Progress.RowsOk (st : Progress) : Prop where
  fontData : GenFont.RowsOk st.fontData
  current : ∀ bits ∈ st.currentCharBytes, RowOk bits

theorem rowsOk_start : (⟨[], 0, []⟩ : Progress).RowsOk :=
  ⟨fun _ h => absurd h List.not_mem_nil, fun _ h => absurd h List.not_mem_nil⟩

theorem Progress.RowsOk.readLine (h : st.RowsOk) (hline : readLine st idx line = .ok st') :
    st'.RowsOk := by
  unfold GenFont.readLine at hline
  split at hline
  · cases hline
    exact h
  split at hline
  · split at hline
    · cases hline
    split at hline
    · cases hline
    split at hline
    · cases hline
    · cases hline
      exact ⟨h.fontData, h.current⟩
  dsimp only at hline
  split at hline
  next hlength =>
    have hrow : RowOk (line.map fun c => if c = '.' then '0' else '1') := by
      refine ⟨hlength, fun c hc => ?_⟩
      obtain ⟨c, -, rfl⟩ := List.mem_map.mp hc
      split
      · exact .inl rfl
      · exact .inr rfl
    have hrows : ∀ bits ∈ st.currentCharBytes ++ [line.map fun c => if c = '.' then '0' else '1'],
        RowOk bits := by
      intro bits hbits
      rw [List.mem_append, List.mem_singleton] at hbits
      obtain hbits | rfl := hbits
      · exact h.current bits hbits
      · exact hrow
    split at hline
    · cases hline
      refine ⟨fun font hfont => ?_, by simp⟩
      rw [List.mem_append, List.mem_singleton] at hfont
      obtain hfont | rfl := hfont
      · exact h.fontData font hfont
      · exact hrows
    · cases hline
      exact ⟨h.fontData, hrows⟩
  next => cases hline

theorem readLines_cons (st : Progress) (idx : Nat) (line : List Char) (rest : List (List Char)) :
    readLines st idx (line :: rest) = (do readLines (← readLine st idx line) (idx + 1) rest) := by
  rw [readLines, List.zipIdx_cons, List.foldlM_cons]
  rfl

theorem Progress.RowsOk.readLines {lines : List (List Char)} (h : st.RowsOk)
    (hlines : readLines st idx lines = .ok st') : st'.RowsOk := by
  induction lines generalizing st idx with
  | nil =>
      cases hlines
      exact h
  | cons line rest ih =>
      rw [readLines_cons] at hlines
      cases hline : GenFont.readLine st idx line with
      | error e =>
          rw [hline] at hlines
          cases hlines
      | ok st₁ =>
          rw [hline] at hlines
          exact ih (h.readLine hline) hlines

end Lines

section Constant

variable {text : List Char} {n : Nat} {font : Vector Glyph n} {progress : Progress}
  {fonts : List Font}

theorem length_of_rows_eq
    (h : fonts.map (fun f => f.bytes.map rowValue) = font.toList.map Vector.toList) :
    fonts.length = n := by
  simpa using congrArg List.length h

/-- A text whose codes are 0, 1, 2 and so on gives the constant with its rows. -/
theorem exists_isConst (hroom : n + 1 < usizeSize)
    (hread : readLines ⟨[], 0, []⟩ 0 (lines text) = .ok progress)
    (hcodes : progress.fontData.map Font.charCode = List.range n)
    (hrows : progress.fontData.map (fun f => f.bytes.map rowValue) =
      font.toList.map Vector.toList) :
    ∃ expansion, genFontImpl text = .ok expansion ∧ expansion.IsConst font := by
  have hok := Progress.RowsOk.readLines rowsOk_start hread
  have hlength := length_of_rows_eq hrows
  have hconsecutive : Consecutive 0 progress.fontData := by
    rw [Consecutive, hcodes, hlength, List.range_eq_range']
  have hincreasing : Increasing 0 progress.fontData :=
    hconsecutive.increasing (by rw [hlength, Nat.zero_add]; exact hroom)
  obtain ⟨expansion, hexpand, hspec⟩ | ⟨-, hnot⟩ := expand_spec hok.fontData
  · refine ⟨expansion, ?_, ?_, ?_⟩
    · rw [genFontImpl, hread]
      exact hexpand
    · rw [hspec.arrayLen_eq, hconsecutive.endOf_eq, hlength, Nat.zero_add]
    · rw [hspec.entries_eq, if_pos hconsecutive, hrows]
  · exact absurd hincreasing hnot

/-- For any text: the macro succeeds and the compiler takes the expansion for this constant if and
only if the text can be read, the codes of its characters are 0, 1, 2 and so on, and the rows of
the constant are those of the text. -/
theorem genFontImpl_isConst_iff (text : List Char) {n : Nat} (font : Vector Glyph n) :
    (∃ expansion, genFontImpl text = .ok expansion ∧ expansion.IsConst font) ↔
      n + 1 < usizeSize ∧ ∃ progress, readLines ⟨[], 0, []⟩ 0 (lines text) = .ok progress ∧
        progress.fontData.map Font.charCode = List.range n ∧
        progress.fontData.map (fun f => f.bytes.map rowValue) = font.toList.map Vector.toList := by
  constructor
  · rintro ⟨expansion, hgen, hconst⟩
    cases hread : readLines ⟨[], 0, []⟩ 0 (lines text) with
    | error e =>
        rw [genFontImpl, hread] at hgen
        cases hgen
    | ok progress =>
        rw [genFontImpl, hread] at hgen
        have hok := Progress.RowsOk.readLines rowsOk_start hread
        obtain ⟨expansion', hexpand, hspec⟩ | ⟨⟨e, hexpand⟩, -⟩ := expand_spec hok.fontData
        · cases hexpand.symm.trans hgen
          have hentries := hspec.entries_eq.symm.trans hconst.entries_eq
          split at hentries
          next hcodes =>
            have hrows := Option.some.inj hentries
            have hroom := hspec.increasing.endOf_room
            rw [← hspec.arrayLen_eq, hconst.arrayLen_eq] at hroom
            refine ⟨hroom, progress, rfl, ?_, hrows⟩
            rw [hcodes, length_of_rows_eq hrows, List.range_eq_range']
          next => cases hentries
        · cases hexpand.symm.trans hgen
  · rintro ⟨hroom, progress, hread, hcodes, hrows⟩
    exact exists_isConst hroom hread hcodes hrows

end Constant

section Drawing

/-- A character as the text draws it, with what may stand behind its code. -/
structure Drawing where
  comment : List Char
  pixels : Vector (Vector Bool 8) 16
  one_line : '\n' ∉ comment ∧ '\r' ∉ comment

/-- The row of the text for a row of pixels. -/
def rowLine (row : Vector Bool 8) : List Char := row.toList.map fun on => if on then '@' else '.'

/-- The row as the macro keeps it. -/
def rowBits (row : Vector Bool 8) : List Char := row.toList.map fun on => if on then '1' else '0'

/-- `0x` and two digits, and the comment behind a blank. -/
def header (code : Nat) (comment : List Char) : List Char :=
  '0' :: 'x' :: Nat.digitChar (code / 16) :: Nat.digitChar (code % 16) ::
    if comment = [] then [] else ' ' :: comment

/-- The 18 lines of a character. -/
def drawingLines (code : Nat) (d : Drawing) : List (List Char) :=
  [] :: header code d.comment :: d.pixels.toList.map rowLine

/-- The lines of the characters from a code on. -/
def textLines : (code : Nat) → List Drawing → List (List Char)
  | _, [] => []
  | code, d :: ds => drawingLines code d ++ textLines (code + 1) ds

/-- The text of a font. No newline ends its last line. -/
def fontText (drawings : List Drawing) : List Char := ['\n'].intercalate (textLines 0 drawings)

/-- The glyphs that the macro reads from the lines. -/
def fontsOf : (code : Nat) → List Drawing → List Font
  | _, [] => []
  | code, d :: ds => ⟨code, d.pixels.toList.map rowBits⟩ :: fontsOf (code + 1) ds

variable {st : Progress} {idx code : Nat} {d : Drawing} {rest : List (List Char)}

theorem toDigit_digitChar {digit : Nat} (h : digit < 16) :
    toDigit 16 (Nat.digitChar digit) = some digit := by
  revert digit
  decide

theorem isWhitespace_digitChar {digit : Nat} (h : digit < 16) :
    isWhitespace (Nat.digitChar digit) = false := by
  revert digit
  decide

theorem firstWord_header (hcode : code < 256) (comment : List Char) :
    firstWord (header code comment) =
      some ['0', 'x', Nat.digitChar (code / 16), Nat.digitChar (code % 16)] := by
  have hhigh := isWhitespace_digitChar (Nat.div_lt_of_lt_mul hcode : code / 16 < 16)
  have hlow := isWhitespace_digitChar (Nat.mod_lt code (by decide) : code % 16 < 16)
  have hzero : isWhitespace '0' = false := by decide
  have hx : isWhitespace 'x' = false := by decide
  have hblank : isWhitespace ' ' = true := by decide
  rw [firstWord, header]
  by_cases hcomment : comment = []
  · simp [hcomment, hhigh, hlow, hzero, hx]
  · simp [hcomment, hhigh, hlow, hzero, hx, hblank]

/-- The line with the code. -/
theorem readLine_header (hcode : code < 256) (hidx : idx % 18 = 1) (comment : List Char) :
    readLine st idx (header code comment) = .ok { st with currentCharCode := code } := by
  have hhigh : code / 16 < 16 := Nat.div_lt_of_lt_mul hcode
  have hlow : code % 16 < 16 := Nat.mod_lt code (by decide)
  have hslice : sliceFrom 2 ['0', 'x', Nat.digitChar (code / 16), Nat.digitChar (code % 16)] =
      some [Nat.digitChar (code / 16), Nat.digitChar (code % 16)] := rfl
  have hdigits : fromStrRadix 16 usizeSize
      [Nat.digitChar (code / 16), Nat.digitChar (code % 16)] = some code := by
    have hvalue : horner 16 0 [code / 16, code % 16] = code := by
      simp only [horner, List.foldl_cons, List.foldl_nil]
      omega
    have hmap : [Nat.digitChar (code / 16), Nat.digitChar (code % 16)].map (toDigit 16) =
        [code / 16, code % 16].map some := by
      simp [toDigit_digitChar hhigh, toDigit_digitChar hlow]
    have hbound : horner 16 0 [code / 16, code % 16] < usizeSize := by
      rw [hvalue, usizeSize]
      omega
    exact (fromStrRadix_eq_some (by decide) (by simp) hmap hbound).trans (congrArg some hvalue)
  rw [readLine, if_neg (by simp [header]), if_pos hidx, firstWord_header hcode]
  simp only [hslice, hdigits]
  rfl

theorem readLine_empty : readLine st idx [] = .ok st := by
  rw [readLine, if_pos rfl]
  rfl

theorem rowLine_map (row : Vector Bool 8) :
    (rowLine row).map (fun c => if c = '.' then '0' else '1') = rowBits row := by
  rw [rowLine, rowBits, List.map_map]
  refine List.map_congr_left fun on _ => ?_
  cases on
  · rfl
  · rfl

/-- A row that is not the last of its character. -/
theorem readLine_row (row : Vector Bool 8) (hidx : idx % 18 ≠ 1) (hmore : idx % 18 ≠ 17) :
    readLine st idx (rowLine row) =
      .ok { st with currentCharBytes := st.currentCharBytes ++ [rowBits row] } := by
  have hne : rowLine row ≠ [] := by simp [rowLine]
  rw [readLine, if_neg hne, if_neg hidx]
  dsimp only
  rw [rowLine_map, if_pos (by simp [rowBits]), if_neg hmore]
  rfl

theorem readLine_lastRow (row : Vector Bool 8) (hidx : idx % 18 = 17) :
    readLine st idx (rowLine row) =
      .ok { st with
        fontData := st.fontData ++ [⟨st.currentCharCode, st.currentCharBytes ++ [rowBits row]⟩],
        currentCharBytes := [] } := by
  have hne : rowLine row ≠ [] := by simp [rowLine]
  rw [readLine, if_neg hne, if_neg (by omega)]
  dsimp only
  rw [rowLine_map, if_pos (by simp [rowBits]), if_pos hidx]
  rfl

/-- The rows up to the end of a character. -/
theorem readLines_rows (rows : List (Vector Bool 8)) (hidx : 2 ≤ idx % 18)
    (hend : idx % 18 + rows.length = 18) :
    readLines st idx (rows.map rowLine ++ rest) =
      readLines { st with
        fontData := st.fontData ++ [⟨st.currentCharCode, st.currentCharBytes ++ rows.map rowBits⟩],
        currentCharBytes := [] } (idx + rows.length) rest := by
  induction rows generalizing st idx with
  | nil =>
      rw [List.length_nil] at hend
      omega
  | cons row rows ih =>
      rw [List.length_cons] at hend
      rw [List.map_cons, List.cons_append, readLines_cons]
      cases rows with
      | nil =>
          rw [List.length_nil] at hend
          rw [readLine_lastRow row (by omega)]
          rfl
      | cons row' rows =>
          rw [List.length_cons] at hend
          rw [readLine_row row (by omega) (by omega)]
          refine (ih (by omega) (by rw [List.length_cons]; omega)).trans ?_
          simp only [List.map_cons, List.append_assoc, List.singleton_append, List.length_cons]
          rw [Nat.add_right_comm, Nat.add_assoc idx]

/-- The 18 lines of a character. -/
theorem readLines_drawing (hcode : code < 256) (hidx : idx % 18 = 0)
    (hcurrent : st.currentCharBytes = []) (d : Drawing) (rest : List (List Char)) :
    readLines st idx (drawingLines code d ++ rest) =
      readLines ⟨st.fontData ++ [⟨code, d.pixels.toList.map rowBits⟩], code, []⟩ (idx + 18)
        rest := by
  have hlength : d.pixels.toList.length = 16 := d.pixels.length_toList
  rw [drawingLines, List.cons_append, List.cons_append, readLines_cons, readLine_empty]
  change readLines st (idx + 1) _ = _
  rw [readLines_cons, readLine_header hcode (by omega)]
  change readLines _ (idx + 1 + 1) _ = _
  rw [readLines_rows _ (by omega) (by rw [hlength]; omega), hlength, hcurrent, List.nil_append]

/-- The lines of all characters. -/
theorem readLines_textLines (drawings : List Drawing) (hcode : code + drawings.length ≤ 256)
    (hidx : idx % 18 = 0) (hcurrent : st.currentCharBytes = []) :
    ∃ last, readLines st idx (textLines code drawings) =
      .ok ⟨st.fontData ++ fontsOf code drawings, last, []⟩ := by
  induction drawings generalizing st idx code with
  | nil =>
      refine ⟨st.currentCharCode, ?_⟩
      rw [fontsOf, List.append_nil, ← hcurrent]
      rfl
  | cons d drawings ih =>
      rw [List.length_cons] at hcode
      have hnext : code + 1 + drawings.length ≤ 256 := by omega
      have hline : (idx + 18) % 18 = 0 := by omega
      rw [textLines, readLines_drawing (by omega) hidx hcurrent]
      obtain ⟨last, hread⟩ := @ih ⟨st.fontData ++ [⟨code, d.pixels.toList.map rowBits⟩], code, []⟩
        (idx + 18) (code + 1) hnext hline rfl
      refine ⟨last, hread.trans ?_⟩
      rw [fontsOf, List.append_assoc, List.singleton_append]

/-- A line of the text breaks nowhere. -/
theorem one_line_of_mem {drawings : List Drawing} (hcode : code + drawings.length ≤ 256) :
    ∀ l ∈ textLines code drawings, '\n' ∉ l ∧ '\r' ∉ l := by
  have hdigit {digit : Nat} (h : digit < 16) :
      Nat.digitChar digit ≠ '\n' ∧ Nat.digitChar digit ≠ '\r' := by
    revert digit
    decide
  induction drawings generalizing code with
  | nil => exact fun l hl => absurd hl List.not_mem_nil
  | cons d drawings ih =>
      rw [List.length_cons] at hcode
      have hhigh := hdigit (Nat.div_lt_of_lt_mul (by omega) : code / 16 < 16)
      have hlow := hdigit (Nat.mod_lt code (by decide) : code % 16 < 16)
      obtain ⟨hnl, hcr⟩ := d.one_line
      intro l hl
      rw [textLines, drawingLines, List.mem_append, List.mem_cons, List.mem_cons] at hl
      obtain (rfl | rfl | hl) | hl := hl
      · exact ⟨List.not_mem_nil, List.not_mem_nil⟩
      · by_cases hcomment : d.comment = []
        · simp [header, hcomment, hhigh.1.symm, hhigh.2.symm, hlow.1.symm, hlow.2.symm]
        · simp [header, hcomment, hhigh.1.symm, hhigh.2.symm, hlow.1.symm, hlow.2.symm, hnl, hcr]
      · obtain ⟨row, -, rfl⟩ := List.mem_map.mp hl
        have hpixel : ∀ c ∈ rowLine row, c ≠ '\n' ∧ c ≠ '\r' := by
          intro c hc
          obtain ⟨on, -, rfl⟩ := List.mem_map.mp hc
          cases on
          · decide
          · decide
        exact ⟨fun h => (hpixel _ h).1 rfl, fun h => (hpixel _ h).2 rfl⟩
      · exact ih (by omega) l hl

/-- The text ends in a row. -/
theorem getLast?_textLines (code : Nat) (drawings : List Drawing) :
    (textLines code drawings).getLast? ≠ some [] := by
  induction drawings generalizing code with
  | nil => nofun
  | cons d drawings ih =>
      rw [textLines, List.getLast?_append]
      cases hrest : (textLines (code + 1) drawings).getLast? with
      | some l =>
          rw [Option.some_or, ← hrest]
          exact ih (code + 1)
      | none =>
          intro hlast
          have hmem : ([] : List Char) ∈ d.pixels.toList.map rowLine := by
            rw [Option.none_or, drawingLines, List.getLast?_cons_cons] at hlast
            exact (List.mem_cons.mp (List.mem_of_getLast? hlast)).resolve_left nofun
          obtain ⟨row, -, hrow⟩ := List.mem_map.mp hmem
          simp [rowLine] at hrow

theorem map_charCode_fontsOf (code : Nat) (drawings : List Drawing) :
    (fontsOf code drawings).map Font.charCode = List.range' code drawings.length := by
  induction drawings generalizing code with
  | nil => rfl
  | cons d drawings ih =>
      rw [fontsOf, List.map_cons, ih, List.length_cons, List.range'_succ]

theorem map_bytes_fontsOf (code : Nat) (drawings : List Drawing) :
    (fontsOf code drawings).map (fun f => f.bytes.map rowValue) =
      drawings.map fun d => d.pixels.toList.map fun row => rowValue (rowBits row) := by
  induction drawings generalizing code with
  | nil => rfl
  | cons d drawings ih =>
      rw [fontsOf, List.map_cons, List.map_cons, ih, List.map_map]
      rfl

/-- The leftmost pixel is the highest bit. -/
theorem testBit_rowValue (row : Vector Bool 8) {dx : Nat} (hdx : dx < 8) :
    (rowValue (rowBits row)).toNat.testBit (7 - dx) = row[dx] := by
  have hpixels : pixelsOf (rowBits row) = row.toList := by
    rw [pixelsOf, rowBits, List.map_map]
    refine (List.map_congr_left fun on _ => ?_).trans (List.map_id _)
    cases on
    · rfl
    · rfl
  have hlt : horner 2 0 (row.toList.map Bool.toNat) < 2 ^ 8 := by
    simpa using horner_two_lt row.toList
  have hlength : row.toList.length = 8 := row.length_toList
  have hindex : row.toList.length - 1 - (7 - dx) = dx := by omega
  have hrow : row.toList[dx]? = some row[dx] := by simp [hdx]
  rw [rowValue, hpixels, UInt8.toNat_ofNat', Nat.mod_eq_of_lt hlt, testBit_horner,
    List.getElem?_reverse (by omega), hindex, hrow, Option.getD_some]

/-- The font of a text. -/
def fontOf (drawings : Vector Drawing 256) : Console.Font :=
  drawings.map fun d => d.pixels.map fun row => rowValue (rowBits row)

/-- A cell on a screen of that font. -/
theorem flush_pixel_fontOf (drawings : Vector Drawing 256) {nRow nColumn : Nat}
    (w : Writer Screen nRow nColumn) (i : Fin nRow) (j : Fin nColumn) (dy : Fin 16) (dx : Fin 8) :
    (w.flush (onScreen (fontOf drawings))).writer (8 * j + dx, 16 * i + dy) =
      match drawings[(w.buffer.cell i j).toNat]? with
      | some d => if d.pixels[dy][dx] then w.foregroundColor else w.backgroundColor
      | none => w.writer (8 * j + dx, 16 * i + dy) := by
  have hi : (16 * i.val + dy) / 16 = i := by omega
  have hj : (8 * j.val + dx) / 8 = j := by omega
  have hdy : (16 * i.val + dy) % 16 = dy := by omega
  have hdx : (8 * j.val + dx) % 8 = dx := by omega
  have hy : (16 * i.val + dy) / 16 < nRow := by omega
  have hx : (8 * j.val + dx) / 8 < nColumn := by omega
  have hcell : w.buffer.cell ⟨(16 * i.val + dy) / 16, hy⟩ ⟨(8 * j.val + dx) / 8, hx⟩ =
      w.buffer.cell i j := by
    simp only [hi, hj, Fin.eta]
  have hglyph : (fontOf drawings)[(w.buffer.cell i j).toNat]? =
      drawings[(w.buffer.cell i j).toNat]?.map fun d =>
        d.pixels.map fun row => rowValue (rowBits row) := by
    simp [fontOf]
  cases hd : drawings[(w.buffer.cell i j).toNat]? with
  | none =>
      rw [hd] at hglyph
      refine Writer.flush_pixel_of_none fun _ _ => ?_
      rw [hcell]
      exact hglyph
  | some d =>
      rw [hd] at hglyph
      have hpixel := Writer.flush_pixel_of_glyph hy hx (hcell.symm ▸ hglyph)
      rw [hpixel]
      simp only [hdy, hdx, Vector.getElem_map, testBit_rowValue _ dx.isLt]
      rfl

/-- From the text to the screen. The macro makes a constant of every text of 256 drawings, and a
console that draws from it shows in each cell what the text draws for the character there. A
character beyond the text leaves its cell as it was. -/
theorem console_shows_drawing (drawings : Vector Drawing 256) :
    ∃ expansion font, genFontImpl (fontText drawings.toList) = .ok expansion ∧
      expansion.IsConst (font : Console.Font) ∧
      ∀ {nRow nColumn : Nat} (w : Writer Screen nRow nColumn) (i : Fin nRow) (j : Fin nColumn)
        (dy : Fin 16) (dx : Fin 8),
        (w.flush (onScreen font)).writer (8 * j + dx, 16 * i + dy) =
          match drawings[(w.buffer.cell i j).toNat]? with
          | some d => if d.pixels[dy][dx] then w.foregroundColor else w.backgroundColor
          | none => w.writer (8 * j + dx, 16 * i + dy) := by
  have hlength : drawings.toList.length = 256 := drawings.length_toList
  have hfit : 0 + drawings.toList.length ≤ 256 := by omega
  obtain ⟨last, hread⟩ : ∃ last, readLines ⟨[], 0, []⟩ 0 (textLines 0 drawings.toList) =
      .ok ⟨fontsOf 0 drawings.toList, last, []⟩ := readLines_textLines drawings.toList hfit rfl rfl
  rw [← lines_intercalate (one_line_of_mem hfit) (getLast?_textLines 0 drawings.toList)] at hread
  have hrows : (fontsOf 0 drawings.toList).map (fun f => f.bytes.map rowValue) =
      (fontOf drawings).toList.map Vector.toList := by
    rw [map_bytes_fontsOf, fontOf, Vector.toList_map, List.map_map]
    exact List.map_congr_left fun d _ => Vector.toList_map.symm
  have hcodes : (fontsOf 0 drawings.toList).map Font.charCode = List.range 256 := by
    rw [map_charCode_fontsOf, hlength, List.range_eq_range']
  obtain ⟨expansion, hgen, hconst⟩ := exists_isConst (by decide) hread hcodes hrows
  exact ⟨expansion, fontOf drawings, hgen, hconst, flush_pixel_fontOf drawings⟩

end Drawing

end LemolaOs.GenFont
