import Nstl.Core.EscapedList

/-!
# Writing and parsing one line of CSV

`write_row` chooses for every field between a raw fast path and a quoting
path; `parse_csv_line` reads the text back with the escaped-list tokenizer.
The two meet on every row except the one-field row holding the empty string,
whose text is the text of the row without any field.
-/

namespace Nstl.CsvLine

open Nstl.ByteString
open Nstl.EscapedList

def defaultEscape : Byte := 92
def defaultComa : Byte := 44
def defaultQuote : Byte := 34
def defaultComment : Byte := 35

/-- `csv_parse_config`, shared by the reader and the writer.  The comment
character `'\0'` means that the text has no comments. -/
structure CsvParseConfig where
  parseHeaders : Bool := true
  skipEmptyLines : Bool := true
  checkColumnsSize : Bool := true
  comment : Byte := defaultComment
  escape : Byte := defaultEscape
  coma : Byte := defaultComa
  quote : Byte := defaultQuote
  deriving DecidableEq

def CsvParseConfig.separator (config : CsvParseConfig) : Separator :=
  ⟨config.escape, config.coma, config.quote⟩

/-- The exceptions raised by the functions of the CSV component. -/
inductive CsvError where
  | functorNotSet
  | failedToRead
  | columnDuplicated (name : Bytes) (first second : ℕ)
  | columnCountMismatch (line : UInt32)
  | headersNotParsed
  | valuesMissing
  | malformed (failure : EscapeError)
  | badAlloc
  deriving DecidableEq, Repr

/-- `parse_csv_line`.  The fields are handed to the callback one by one while
the line is scanned, so the calls made before a malformed escape stand. -/
def parseCsvLine {State : Type*} (line : Bytes)
    (result : Option (State → Bytes → State)) (sep : Separator)
    (state : State) : State × Except CsvError ℕ :=
  match result with
  | none => (state, .error .functorNotSet)
  | some callback =>
      let tokens := scan sep line
      (tokens.fields.foldl callback state,
        match tokens.failure with
        | none => .ok tokens.fields.length
        | some failure => .error (.malformed failure))

/-- The characters that force a field onto the quoting path. -/
def specialChars (config : CsvParseConfig) : Bytes :=
  [config.escape, config.coma, config.quote, newline, nul]

def quotedChar (config : CsvParseConfig) (ch : Byte) : Bytes :=
  if ch = config.escape ∨ ch = config.quote then [config.escape, ch]
  else if ch = newline then [config.escape, letterN]
  else [ch]

/-- `write_field`.  The special characters are handed over as a C string. -/
def writeField (data : Bytes) (config : CsvParseConfig) : Bytes :=
  if findFirstOf data (specialChars config) = none then data
  else [config.quote] ++ data.flatMap (quotedChar config) ++ [config.quote]

/-- `write_row`. -/
def writeRow : List Bytes → CsvParseConfig → Bytes
  | [], _ => []
  | field :: fields, config =>
      writeField field config ++
        fields.flatMap fun other => config.coma :: writeField other config

/-- The configurations whose three characters can be told apart from each
other and from the characters with a fixed meaning. -/
structure CsvParseConfig.Unambiguous (config : CsvParseConfig) : Prop where
  escape_ne_coma : config.escape ≠ config.coma
  escape_ne_quote : config.escape ≠ config.quote
  coma_ne_quote : config.coma ≠ config.quote
  escape_not_fixed : config.escape ∉ [letterN, newline, nul]
  coma_not_fixed : config.coma ∉ [letterN, newline, nul]
  quote_not_fixed : config.quote ∉ [letterN, newline, nul]

private theorem ne_of_not_fixed {ch : Byte}
    (hch : ch ∉ [letterN, newline, nul]) :
    ch ≠ letterN ∧ ch ≠ newline ∧ ch ≠ nul := by
  simpa only [List.mem_cons, List.not_mem_nil, or_false, not_or] using hch

theorem unambiguous_default : ({} : CsvParseConfig).Unambiguous := by
  constructor <;> decide

section Unambiguous

variable {config : CsvParseConfig} (hconfig : config.Unambiguous)

include hconfig

/-- Without a NUL among the configured characters the C string handed to
`find_first_of` holds all of them and the newline. -/
theorem cString_specialChars :
    cString (specialChars config) =
      [config.escape, config.coma, config.quote, newline] := by
  have hescape := ne_of_not_fixed hconfig.escape_not_fixed
  have hcoma := ne_of_not_fixed hconfig.coma_not_fixed
  have hquote := ne_of_not_fixed hconfig.quote_not_fixed
  have hnewline : newline ≠ nul := by decide
  simp [cString, specialChars, hescape.2.2, hcoma.2.2, hquote.2.2, hnewline]

/-- The raw path is taken exactly by the fields without a special character. -/
theorem writeField_raw_iff (data : Bytes) :
    findFirstOf data (specialChars config) = none ↔
      ∀ ch ∈ data, ch ≠ config.escape ∧ ch ≠ config.coma ∧
        ch ≠ config.quote ∧ ch ≠ newline := by
  rw [findFirstOf_eq_none_iff, cString_specialChars hconfig]
  simp only [List.mem_cons, List.not_mem_nil, or_false, not_or]

theorem newline_not_mem_quotedChar (ch : Byte) :
    newline ∉ quotedChar config ch := by
  have hescape := ne_of_not_fixed hconfig.escape_not_fixed
  have hquote := ne_of_not_fixed hconfig.quote_not_fixed
  have hletter : newline ≠ letterN := by decide
  unfold quotedChar
  split_ifs with hspecial hnewline
  · rcases hspecial with rfl | rfl
    · simp [Ne.symm hescape.2.1]
    · simp [Ne.symm hescape.2.1, Ne.symm hquote.2.1]
  · simp [Ne.symm hescape.2.1, hletter]
  · simpa using Ne.symm hnewline

theorem newline_not_mem_writeField (data : Bytes) :
    newline ∉ writeField data config := by
  unfold writeField
  split_ifs with hraw
  · intro hmem
    exact ((writeField_raw_iff hconfig data).1 hraw newline hmem).2.2.2 rfl
  · have hquote := ne_of_not_fixed hconfig.quote_not_fixed
    simp only [List.mem_append, List.mem_singleton, List.mem_flatMap, not_or,
      not_exists, not_and]
    exact ⟨⟨Ne.symm hquote.2.1,
      fun ch _ => newline_not_mem_quotedChar hconfig ch⟩, Ne.symm hquote.2.1⟩

/-- A row is written on one line. -/
theorem newline_not_mem_writeRow (row : List Bytes) :
    newline ∉ writeRow row config := by
  cases row with
  | nil => simp [writeRow]
  | cons field fields =>
      have hcoma := ne_of_not_fixed hconfig.coma_not_fixed
      simp only [writeRow, List.mem_append, List.mem_flatMap, List.mem_cons,
        not_or, not_exists, not_and]
      exact ⟨newline_not_mem_writeField hconfig field, fun other _ =>
        ⟨Ne.symm hcoma.2.1, newline_not_mem_writeField hconfig other⟩⟩

/-- Inside quotes, the characters written for `ch` are read back as `ch`. -/
theorem scanFrom_quotedChar (ch : Byte) (field rest : Bytes) :
    scanFrom config.separator true field (quotedChar config ch ++ rest) =
      scanFrom config.separator true (field ++ [ch]) rest := by
  have hescape := ne_of_not_fixed hconfig.escape_not_fixed
  have hquote := ne_of_not_fixed hconfig.quote_not_fixed
  unfold quotedChar
  split_ifs with hspecial hnewline
  · have hunescape : unescape config.separator ch = .ok ch := by
      rcases hspecial with rfl | rfl
      · simp [unescape, CsvParseConfig.separator, hescape.1]
      · simp [unescape, CsvParseConfig.separator, hquote.1]
    exact scanFrom_escape config.separator hunescape true field rest
  · subst hnewline
    exact scanFrom_escape config.separator (by simp [unescape]) true field rest
  · rw [not_or] at hspecial
    exact scanFrom_literal config.separator true hspecial.1 hspecial.2
      (fun _ => rfl) field rest

theorem scanFrom_quotedChars (data field rest : Bytes) :
    scanFrom config.separator true field
        (data.flatMap (quotedChar config) ++ rest) =
      scanFrom config.separator true (field ++ data) rest := by
  induction data generalizing field with
  | nil => simp
  | cons ch data ih =>
      rw [List.flatMap_cons, List.append_assoc, scanFrom_quotedChar hconfig, ih]
      simp

/-- Whichever path wrote it, a field is read back as it was. -/
theorem scanFrom_writeField (data rest : Bytes) :
    scanFrom config.separator false [] (writeField data config ++ rest) =
      scanFrom config.separator false data rest := by
  have htoggle : ∀ (inQuote : Bool) (field rest : Bytes),
      scanFrom config.separator inQuote field (config.quote :: rest) =
        scanFrom config.separator (!inQuote) field rest :=
    scanFrom_quote config.separator (Ne.symm hconfig.escape_ne_quote)
      (Ne.symm hconfig.coma_ne_quote)
  unfold writeField
  split_ifs with hraw
  · have hplain := (writeField_raw_iff hconfig data).1 hraw
    exact scanFrom_plain config.separator false data
      (fun ch hch => ⟨(hplain ch hch).1, (hplain ch hch).2.1, (hplain ch hch).2.2.1⟩)
      [] rest
  · rw [List.append_assoc, List.append_assoc, List.singleton_append, htoggle,
      Bool.not_false, scanFrom_quotedChars hconfig, List.singleton_append, htoggle]
    rfl

/-- Scanning on from a completed field delivers it and then the fields written
after it, each behind its separator. -/
theorem scanFrom_writeFields (field : Bytes) (fields : List Bytes) :
    scanFrom config.separator false field
        (fields.flatMap fun other => config.coma :: writeField other config) =
      ⟨field :: fields, none⟩ := by
  have hends : ∀ field rest : Bytes,
      scanFrom config.separator false field (config.coma :: rest) =
        (scanFrom config.separator false [] rest).deliver field :=
    scanFrom_separator config.separator (Ne.symm hconfig.escape_ne_coma)
  induction fields generalizing field with
  | nil => simp
  | cons other fields ih =>
      rw [List.flatMap_cons, List.cons_append, hends,
        scanFrom_writeField hconfig, ih]
      rfl

theorem scanFrom_writeRow (field : Bytes) (fields : List Bytes) :
    scanFrom config.separator false [] (writeRow (field :: fields) config) =
      ⟨field :: fields, none⟩ := by
  rw [writeRow, scanFrom_writeField hconfig, scanFrom_writeFields hconfig]

omit hconfig in
/-- Only a row without a field, or with the empty field alone, has no text. -/
theorem writeRow_eq_nil_iff (row : List Bytes) :
    writeRow row config = [] ↔ row = [] ∨ row = [[]] := by
  cases row with
  | nil => simp [writeRow]
  | cons field fields =>
      cases fields with
      | nil =>
          have hfield : writeField field config = [] ↔ field = [] := by
            unfold writeField
            split_ifs with hraw
            · rfl
            · refine ⟨fun htext => by simp at htext, fun hempty => ?_⟩
              subst hempty
              exact absurd rfl hraw
          simp [writeRow, hfield]
      | cons other fields => simp [writeRow]

/-- The tokenizer recovers every row but the one that has the text of the
empty row. -/
theorem scan_writeRow (row : List Bytes) (hrow : row ≠ [[]]) :
    scan config.separator (writeRow row config) = ⟨row, none⟩ := by
  cases row with
  | nil => simp [writeRow]
  | cons field fields =>
      have htext : writeRow (field :: fields) config ≠ [] := by
        rw [Ne, writeRow_eq_nil_iff]
        simp [hrow]
      rw [scan_of_ne_nil _ htext, scanFrom_writeRow hconfig]

end Unambiguous

/-- Line round trip: a row is written without a newline, and parsing its text
calls back with its fields in order and counts them. -/
theorem parseCsvLine_writeRow {State : Type*} (config : CsvParseConfig)
    (hconfig : config.Unambiguous) (row : List Bytes) (hrow : row ≠ [[]])
    (callback : State → Bytes → State) (state : State) :
    newline ∉ writeRow row config ∧
      parseCsvLine (writeRow row config) (some callback) config.separator state =
        (row.foldl callback state, .ok row.length) := by
  refine ⟨newline_not_mem_writeRow hconfig row, ?_⟩
  simp [parseCsvLine, scan_writeRow hconfig row hrow]

/-- The round trip of `a,b`, the empty field and a field holding a newline, a
quote and a NUL, with a callback that records its calls. -/
theorem parseCsvLine_writeRow_default :
    newline ∉ writeRow [[97, 44, 98], [], [10, 34, 0]] {} ∧
      parseCsvLine (writeRow [[97, 44, 98], [], [10, 34, 0]] {})
          (some fun calls item => calls ++ [item]) ({} : CsvParseConfig).separator [] =
        ([[97, 44, 98], [], [10, 34, 0]], .ok 3) :=
  parseCsvLine_writeRow {} unambiguous_default [[97, 44, 98], [], [10, 34, 0]]
    (by decide) (fun calls item => calls ++ [item]) []

end Nstl.CsvLine
