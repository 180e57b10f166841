import LemolaOs.Rust

/-!
# Formatting into a fixed buffer

`kernel-lib/src/write_to.rs`. `WriteTo` copies strings into a byte buffer until it is
full. `as_str` hands the written part out as a string without checking that it is one:
a string that was cut in the middle of a character must not be visible. The counter
`used` takes care of that. It grows by the whole length of a string that was cut, and
past the end of the buffer every call fails without moving it.

`Holds` says what the buffer and the counter are after the strings given so far, and
`writeStr_holds` is the step of one call, failed or not.
-/

namespace LemolaOs.Fmt

/-- `isize::MAX`, the largest size of an object. -/
def isizeMax : Nat := 2 ^ 63 - 1

/-- `as_bytes` of a string. -/
def asBytes (s : String) : List UInt8 := s.toByteArray.data.toList

/-- `&str`. -/
structure Str where
  text : String
  length_le : (asBytes text).length ≤ isizeMax

/-- `&mut [u8]` as it is handed over. -/
structure Buffer where
  bytes : List UInt8
  length_le : bytes.length ≤ isizeMax

/-- `fmt::Result`. -/
inductive Result where
  | ok
  | err
  deriving DecidableEq

structure WriteTo where
  buffer : List UInt8
  used : Nat
  deriving DecidableEq

namespace WriteTo

def new (buffer : Buffer) : WriteTo := { buffer := buffer.bytes, used := 0 }

/-- The bytes of the string that `as_str` returns. -/
def asStr (w : WriteTo) : Option (List UInt8) :=
  if w.used ≤ w.buffer.length then some (w.buffer.take w.used) else none

def writeStr (w : WriteTo) (s : Str) : Rust (WriteTo × Result) := do
  if w.used > w.buffer.length then return (w, .err)
  let remainingBuf := w.buffer.drop w.used
  let rawS := asBytes s.text
  let writeNum := min rawS.length remainingBuf.length
  let remainingBuf := rawS.take writeNum ++ remainingBuf.drop writeNum
  let used ← usizeAdd w.used rawS.length
  let w := { buffer := w.buffer.take w.used ++ remainingBuf, used }
  if writeNum < rawS.length then return (w, .err) else return (w, .ok)

/-- A sequence of calls, continued behind an error. -/
def run (w : WriteTo) : List Str → Rust (WriteTo × List Result)
  | [] => return (w, [])
  | s :: calls => do
    let (w, result) ← w.writeStr s
    let (w, results) ← w.run calls
    return (w, result :: results)

/-- `fmt::write`: the pieces of the arguments up to the first error. -/
def writeFmt (w : WriteTo) : List Str → Rust (WriteTo × Result)
  | [] => return (w, .ok)
  | s :: args => do
    match ← w.writeStr s with
    | (w, .err) => return (w, .err)
    | (w, .ok) => w.writeFmt args

/-- `show`. -/
def showArgs (buffer : Buffer) (args : List Str) : Rust (Option (List UInt8)) := do
  match ← (WriteTo.new buffer).writeFmt args with
  | (_, .err) => return none
  | (w, .ok) => return w.asStr

end WriteTo

/-- The strings of a sequence of calls, one behind the other. -/
def concat (calls : List Str) : String := String.join (calls.map Str.text)

theorem asBytes_append (s t : String) : asBytes (s ++ t) = asBytes s ++ asBytes t := by
  rw [asBytes, String.toByteArray_append, ByteArray.data_append, Array.toList_append]
  rfl

theorem asBytes_concat_cons (s : Str) (calls : List Str) :
    asBytes (concat (s :: calls)) = asBytes s.text ++ asBytes (concat calls) := by
  rw [concat, List.map_cons, String.join_cons, asBytes_append]
  rfl

/-- The buffer and the counter after some text was written to it. -/
structure Holds (buffer : Buffer) (text : List UInt8) (w : WriteTo) : Prop where
  buffer_eq : w.buffer = text.take buffer.bytes.length ++ buffer.bytes.drop text.length
  used_eq : text.length ≤ buffer.bytes.length → w.used = text.length
  used_gt : buffer.bytes.length < text.length → buffer.bytes.length < w.used

namespace Holds

variable {buffer : Buffer} {text : List UInt8} {w : WriteTo}

theorem new (buffer : Buffer) : Holds buffer [] (.new buffer) where
  buffer_eq := by simp [WriteTo.new]
  used_eq := fun _ => rfl
  used_gt := fun h => absurd h (Nat.not_lt_zero _)

theorem length_eq (h : Holds buffer text w) : w.buffer.length = buffer.bytes.length := by
  rw [h.buffer_eq, List.length_append, List.length_take, List.length_drop]
  omega

/-- Past the end nothing changes any more. -/
theorem append_of_gt (h : Holds buffer text w) (hgt : buffer.bytes.length < text.length)
    (more : List UInt8) : Holds buffer (text ++ more) w where
  buffer_eq := by
    rw [h.buffer_eq, List.take_append_of_le_length hgt.le, List.drop_of_length_le hgt.le,
      List.drop_of_length_le (by rw [List.length_append]; omega)]
  used_eq := fun hle => by
    rw [List.length_append] at hle
    omega
  used_gt := fun _ => h.used_gt hgt

/-- Within the buffer the text is followed by what was there. -/
theorem buffer_of_le (h : Holds buffer text w) (hle : text.length ≤ buffer.bytes.length) :
    w.buffer = text ++ buffer.bytes.drop text.length := by
  rw [h.buffer_eq, List.take_of_length_le hle]

end Holds

section runs

variable {buffer : Buffer} {text : List UInt8} {w : WriteTo}

/-- A call that finds room writes what there is room for and counts all of it. -/
theorem writeStr_of_le (h : Holds buffer text w) (hle : text.length ≤ buffer.bytes.length)
    (s : Str) :
    w.writeStr s = .ok (⟨(text ++ asBytes s.text).take buffer.bytes.length ++
        buffer.bytes.drop (text ++ asBytes s.text).length, (text ++ asBytes s.text).length⟩,
      if (text ++ asBytes s.text).length ≤ buffer.bytes.length then .ok else .err) := by
  have hlength := h.length_eq
  have hused := h.used_eq hle
  have hadd : usizeAdd w.used (asBytes s.text).length = .ok (text ++ asBytes s.text).length := by
    have hs := s.length_le
    have hbuffer := buffer.length_le
    rw [hused, List.length_append]
    refine usizeAdd_eq_ok.mpr ⟨?_, rfl⟩
    unfold usizeSize isizeMax at *
    omega
  have htake : w.buffer.take w.used = text := by
    rw [h.buffer_of_le hle, hused, List.take_left]
  have hdrop : w.buffer.drop w.used = buffer.bytes.drop text.length := by
    rw [h.buffer_of_le hle, hused, List.drop_left]
  rw [WriteTo.writeStr, if_neg (by omega)]
  simp only [htake, hdrop, hadd, Rust.ok_bind, List.length_drop, List.drop_drop,
    List.length_append, List.take_append, List.take_of_length_le hle, List.append_assoc]
  by_cases hfits : (asBytes s.text).length ≤ buffer.bytes.length - text.length
  · rw [min_eq_left hfits, if_neg (by omega), if_pos (by omega), List.take_length,
      List.take_of_length_le hfits]
    rfl
  · -- the string is cut where the buffer ends
    rw [min_eq_right (by omega), if_pos (by omega), if_neg (by omega),
      List.drop_of_length_le (by omega), List.drop_of_length_le (by omega)]
    rfl

/-- A call succeeds as long as everything fits, and leaves the text either way. -/
theorem writeStr_holds (h : Holds buffer text w) (s : Str) :
    ∃ w' result, w.writeStr s = .ok (w', result) ∧ Holds buffer (text ++ asBytes s.text) w' ∧
      (result = .ok ↔ (text ++ asBytes s.text).length ≤ buffer.bytes.length) := by
  by_cases hle : text.length ≤ buffer.bytes.length
  · refine ⟨_, _, writeStr_of_le h hle s, ⟨rfl, fun _ => rfl, id⟩, ?_⟩
    split <;> simp_all
  · have hused := h.used_gt (by omega)
    refine ⟨w, .err, ?_, h.append_of_gt (by omega) _, ?_⟩
    · rw [WriteTo.writeStr, if_pos (h.length_eq ▸ hused)]
      rfl
    · rw [List.length_append]
      simp only [reduceCtorEq, false_iff]
      omega

/-- A whole sequence of calls. -/
theorem run_holds (h : Holds buffer text w) (calls : List Str) :
    ∃ w' results, w.run calls = .ok (w', results) ∧
      Holds buffer (text ++ asBytes (concat calls)) w' ∧ results.length = calls.length ∧
      ∀ i result, results[i]? = some result → (result = .ok ↔
        (text ++ asBytes (concat (calls.take (i + 1)))).length ≤ buffer.bytes.length) := by
  induction calls generalizing text w with
  | nil => exact ⟨w, [], rfl, by simpa [concat, asBytes] using h, rfl, by simp⟩
  | cons s calls ih =>
      obtain ⟨w₁, result, hcall, hheld, hresult⟩ := writeStr_holds h s
      obtain ⟨w', results, hrun, hholds, hlength, hresults⟩ := ih hheld
      refine ⟨w', result :: results, ?_, ?_, by simp [hlength], ?_⟩
      · simp only [WriteTo.run, hcall, hrun, Rust.ok_bind]
        rfl
      · rwa [asBytes_concat_cons, ← List.append_assoc]
      · intro i r hr
        rw [List.take_succ_cons, asBytes_concat_cons, ← List.append_assoc]
        cases i with
        | zero =>
            cases hr
            simpa [concat, asBytes] using hresult
        | succ i => exact hresults i r hr

theorem Holds.asStr_eq_some (h : Holds buffer text w) {t : List UInt8} :
    w.asStr = some t ↔ text.length ≤ buffer.bytes.length ∧ t = text := by
  rw [WriteTo.asStr, h.length_eq]
  by_cases hle : text.length ≤ buffer.bytes.length
  · have hused := h.used_eq hle
    rw [if_pos (by omega), h.buffer_of_le hle, hused, List.take_left]
    simp [hle, eq_comm]
  · have hused := h.used_gt (by omega)
    rw [if_neg (by omega)]
    simp [hle]

/--
Whatever is written, and whichever calls fail: a call succeeds if all the strings so
far fit, and `as_str` returns their concatenation or nothing. The bytes behind it stay.
-/
theorem run_writes (buffer : Buffer) (calls : List Str) :
    ∃ w results, (WriteTo.new buffer).run calls = .ok (w, results) ∧
      results.length = calls.length ∧
      (∀ i result, results[i]? = some result → (result = .ok ↔
        (asBytes (concat (calls.take (i + 1)))).length ≤ buffer.bytes.length)) ∧
      (∀ t, w.asStr = some t ↔ (asBytes (concat calls)).length ≤ buffer.bytes.length ∧
        t = asBytes (concat calls)) ∧
      w.buffer.length = buffer.bytes.length ∧
      ∀ i, (asBytes (concat calls)).length ≤ i → w.buffer[i]? = buffer.bytes[i]? := by
  obtain ⟨w, results, hrun, hholds, hlength, hresults⟩ := run_holds (.new buffer) calls
  refine ⟨w, results, hrun, hlength, hresults, fun t => hholds.asStr_eq_some, hholds.length_eq, ?_⟩
  intro i hi
  rw [List.nil_append] at hholds
  rw [hholds.buffer_eq, List.getElem?_append, List.length_take, List.getElem?_drop]
  by_cases hbuffer : i < buffer.bytes.length
  · rw [if_neg (by omega)]
    congr 1
    omega
  · rw [List.getElem?_eq_none (by omega : buffer.bytes.length ≤ i)]
    split
    · omega
    · exact List.getElem?_eq_none (by omega)

/-- `fmt::write` stops at the first error; without one, everything fits. -/
theorem writeFmt_holds (h : Holds buffer text w) (hle : text.length ≤ buffer.bytes.length)
    (args : List Str) :
    ∃ w' result, w.writeFmt args = .ok (w', result) ∧
      (result = .ok ↔ (text ++ asBytes (concat args)).length ≤ buffer.bytes.length) ∧
      (result = .ok → Holds buffer (text ++ asBytes (concat args)) w') := by
  induction args generalizing text w with
  | nil =>
      refine ⟨w, .ok, rfl, ?_, fun _ => ?_⟩
      · simpa [concat, asBytes] using hle
      · simpa [concat, asBytes] using h
  | cons s args ih =>
      obtain ⟨w₁, result, hcall, hheld, hresult⟩ := writeStr_holds h s
      rw [asBytes_concat_cons, ← List.append_assoc]
      cases result with
      | err =>
          have hgt := hresult.not.mp (by decide)
          refine ⟨w₁, .err, ?_, ?_, fun h => absurd h (by decide)⟩
          · simp only [WriteTo.writeFmt, hcall, Rust.ok_bind]
            rfl
          · rw [List.length_append]
            simp only [reduceCtorEq, false_iff]
            omega
      | ok =>
          obtain ⟨w', result, hrest, hresult, hholds⟩ := ih hheld (hresult.mp rfl)
          refine ⟨w', result, ?_, hresult, hholds⟩
          simp only [WriteTo.writeFmt, hcall, Rust.ok_bind]
          exact hrest

/-- `show` returns the whole text or an error. -/
theorem showArgs_eq (buffer : Buffer) (args : List Str) :
    WriteTo.showArgs buffer args =
      .ok (if (asBytes (concat args)).length ≤ buffer.bytes.length then
        some (asBytes (concat args)) else none) := by
  obtain ⟨w, result, hwrite, hresult, hholds⟩ := writeFmt_holds (.new buffer) (Nat.zero_le _) args
  rw [List.nil_append] at hresult hholds
  rw [WriteTo.showArgs, hwrite, Rust.ok_bind]
  cases result with
  | err =>
      rw [if_neg (hresult.not.mp (by decide))]
      rfl
  | ok =>
      have hle := hresult.mp rfl
      have hstr := (hholds rfl).asStr_eq_some.mpr ⟨hle, rfl⟩
      rw [if_pos hle]
      exact congrArg Except.ok hstr

end runs

end LemolaOs.Fmt
