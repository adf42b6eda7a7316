import Nstl.Csv.Reader

/-!
# Writing a whole file and reading it back

The writer and the reader are configured by the same record, but decide
independently: the reader drops lines by their first character and by their
emptiness before it tokenizes them, and the writer does not quote a field to
protect it from that.  This file determines which files survive: exactly those
in which no row is written as a line that the reader takes for a comment or for
an empty line.
-/

namespace Nstl.CsvFileRoundTrip

open Nstl.ByteString
open Nstl.Container
open Nstl.CsvLine
open Nstl.CsvReader
open Nstl.EscapedList

/-- The default configuration, used for writing and for reading. -/
abbrev defaultConfig : CsvParseConfig := {}

/-- The text of a file: header and rows, each followed by a newline. -/
def writeFile (header : List Bytes) (rows : List (List Bytes)) : Bytes :=
  (header :: rows).flatMap fun row => writeRow row defaultConfig ++ [newline]

/-- What a call of `next()` shows when it hands out `row`. -/
def rowCall (row : List Bytes) : Except CsvError Bool × Option (List Bytes) :=
  (.ok true, some row)

/-- What a call of `next()` shows at the end of the file. -/
def endCall : Except CsvError Bool × Option (List Bytes) :=
  (.ok false, none)

/-- The reader is constructed and hands out every row once, in order, and then
reports the end of the file for ever. -/
def ReadsBack (header : List Bytes) (rows : List (List Bytes)) : Prop :=
  ∃ reader, CsvDictReader.construct (writeFile header rows) defaultConfig =
      .ok reader ∧
    ∀ extra, CsvDictReader.nextCalls (rows.length + extra) reader =
      rows.map rowCall ++ List.replicate extra endCall

/-- The first field starts with the comment character and holds nothing that
would make the writer quote it. -/
def LooksLikeComment : List Bytes → Prop
  | [] => False
  | field :: _ =>
      field.head? = some defaultComment ∧
        ∀ ch ∈ field, ch ∉ [defaultEscape, defaultComa, defaultQuote, newline]

instance : DecidablePred LooksLikeComment
  | [] => inferInstanceAs (Decidable False)
  | _ :: _ => inferInstanceAs (Decidable (_ ∧ _))

/-- The rows that the line filters of the reader let through. -/
def Protected (row : List Bytes) : Prop :=
  row ≠ [[]] ∧ ¬ LooksLikeComment row

instance : DecidablePred Protected :=
  fun _ => inferInstanceAs (Decidable (_ ∧ _))

theorem head_writeField_iff (field : Bytes) :
    (writeField field defaultConfig).head? = some defaultComment ↔
      field.head? = some defaultComment ∧
        ∀ ch ∈ field, ch ∉ [defaultEscape, defaultComa, defaultQuote, newline] := by
  have hspecial :
      cString (specialChars defaultConfig) =
        [defaultEscape, defaultComa, defaultQuote, newline] :=
    cString_specialChars unambiguous_default
  by_cases hraw : findFirstOf field (specialChars defaultConfig) = none
  · rw [writeField, if_pos hraw]
    rw [findFirstOf_eq_none_iff, hspecial] at hraw
    exact ⟨fun hhead => ⟨hhead, hraw⟩, And.left⟩
  · rw [writeField, if_neg hraw]
    rw [findFirstOf_eq_none_iff, hspecial] at hraw
    constructor
    · intro hhead
      have hquote : defaultQuote ≠ defaultComment := by decide
      exact absurd (Option.some.inj hhead) hquote
    · intro h
      exact absurd h.2 hraw

/-- The line of a row starts with the comment character exactly when the row
looks like a comment. -/
theorem head_writeRow_iff (row : List Bytes) :
    (writeRow row defaultConfig).head? = some defaultComment ↔
      LooksLikeComment row := by
  cases row with
  | nil => simp [writeRow, LooksLikeComment]
  | cons field fields =>
      rw [LooksLikeComment, writeRow]
      by_cases hempty : field = []
      · subst hempty
        have htext : writeField [] defaultConfig = [] := rfl
        rw [htext]
        cases fields with
        | nil => simp
        | cons other fields =>
            have hcoma : defaultComa ≠ defaultComment := by decide
            simpa using hcoma
      · rw [List.head?_append, ← head_writeField_iff field]
        have htext : writeField field defaultConfig ≠ [] := by
          intro heq
          have hrow : writeRow [field] defaultConfig = [] := by
            simp [writeRow, heq]
          rcases (writeRow_eq_nil_iff [field]).1 hrow with h | h
          · exact absurd h (by simp)
          · exact hempty (by simpa using h)
        obtain ⟨ch, rest, hcons⟩ := List.exists_cons_of_ne_nil htext
        simp [hcons]

/-! ## One call of `next()` on a written row -/

section Step

variable {reader : CsvDictReader} (hreader : reader.config = defaultConfig)

include hreader

/-- A protected row passes the line filters and is read back field by field;
only its size is left to be checked. -/
theorem next_of_protected {columns : ColumnMapping}
    (hcolumns : reader.columns = some columns) {row : List Bytes}
    (hrow : Protected row) (hne : row ≠ []) {rest : List Bytes}
    (hiss : reader.iss = writeRow row defaultConfig :: rest) :
    reader.next =
      (if row.length = columns.size then .ok true
        else .error (.columnCountMismatch reader.line),
        { reader with iss := rest, values := some row }) := by
  have htext : writeRow row defaultConfig ≠ [] := by
    rw [Ne, writeRow_eq_nil_iff, not_or]
    exact ⟨hne, hrow.1⟩
  have hcomment : ¬ (writeRow row defaultConfig).head? = some defaultComment := by
    rw [head_writeRow_iff]
    exact hrow.2
  rw [CsvDictReader.next, hiss, CsvDictReader.nextFrom, if_neg (by simp [htext]),
    if_neg (by simpa [hreader] using fun _ => hcomment)]
  have hscan := scan_writeRow unambiguous_default row hrow.1
  by_cases hsize : row.length = columns.size
  · simp [CsvDictReader.readLine, hreader, hcolumns, hscan, hsize]
  · simp [CsvDictReader.readLine, hreader, hcolumns, hscan, hsize]

/-- A row that is not protected is lost: the call goes on with the lines after
it. -/
theorem next_of_not_protected {row : List Bytes} (hrow : ¬ Protected row)
    {rest : List Bytes}
    (hiss : reader.iss = writeRow row defaultConfig :: rest) :
    reader.next =
      CsvDictReader.next { reader with iss := rest, line := reader.line + 1 } := by
  have hskip : writeRow row defaultConfig = [] ∨
      (writeRow row defaultConfig).head? = some defaultComment := by
    rw [writeRow_eq_nil_iff, head_writeRow_iff]
    by_cases hempty : row = [[]]
    · exact Or.inl (Or.inr hempty)
    · exact Or.inr (by
        by_contra hcomment
        exact hrow ⟨hempty, hcomment⟩)
  rw [CsvDictReader.next, hiss, CsvDictReader.nextFrom, CsvDictReader.next]
  by_cases htext : writeRow row defaultConfig = []
  · rw [if_pos (by simp [hreader, htext])]
  · have hhead := hskip.resolve_left htext
    have hnul : defaultComment ≠ nul := by decide
    rw [if_neg (by simp [htext]), if_pos (by simp [hreader, hhead, hnul])]

end Step

/-! ## Successive calls -/

private theorem take_padded {Call : Type*} (calls : List Call) (count : ℕ)
    (call : Call) :
    (calls ++ List.replicate (count + 1) call).take count =
      (calls ++ List.replicate count call).take count := by
  rw [List.replicate_succ', ← List.append_assoc,
    List.take_append_of_le_length (by simp)]

/-- A reader with a header of the right size hands out the protected rows and
then reports the end. -/
theorem nextCalls_writtenRows (rows : List (List Bytes)) (count : ℕ)
    (reader : CsvDictReader) (hreader : reader.config = defaultConfig)
    (columns : ColumnMapping) (hcolumns : reader.columns = some columns)
    (hrows : ∀ row ∈ rows, row ≠ [] ∧ row.length = columns.size)
    (hiss : reader.iss = rows.map fun row => writeRow row defaultConfig) :
    CsvDictReader.nextCalls count reader =
      ((rows.filter (Protected ·)).map rowCall ++
        List.replicate count endCall).take count := by
  induction rows generalizing count reader with
  | nil =>
      induction count generalizing reader with
      | zero => rfl
      | succ count ih =>
          have hnext : reader.next =
              (.ok false, { reader with iss := [], values := none }) := by
            rw [CsvDictReader.next, hiss, List.map_nil, CsvDictReader.nextFrom]
          rw [CsvDictReader.nextCalls, hnext,
            ih { reader with iss := [], values := none } hreader hcolumns rfl]
          rfl
  | cons row rows ih =>
      have hrest := fun other hother =>
        hrows other (List.mem_cons_of_mem row hother)
      by_cases hrow : Protected row
      · cases count with
        | zero => rfl
        | succ count =>
            obtain ⟨hne, hsize⟩ := hrows row List.mem_cons_self
            have hnext := next_of_protected hreader hcolumns hrow hne hiss
            rw [if_pos hsize] at hnext
            rw [CsvDictReader.nextCalls, hnext,
              ih count { reader with iss := _, values := some row } hreader
                hcolumns hrest rfl,
              List.filter_cons_of_pos (by simpa using hrow), List.map_cons,
              List.cons_append, List.take_succ_cons, take_padded]
            rfl
      · have hnext := next_of_not_protected hreader hrow hiss
        rw [List.filter_cons_of_neg (by simpa using hrow),
          ← ih count { reader with iss := _, line := reader.line + 1 } hreader
            hcolumns hrest rfl]
        cases count with
        | zero => rfl
        | succ count => rw [CsvDictReader.nextCalls, CsvDictReader.nextCalls, hnext]

/-- Under a header without a column no row is handed out: it is dropped by a
filter or refused for its size. -/
theorem next_of_no_column (rows : List (List Bytes)) (reader : CsvDictReader)
    (hreader : reader.config = defaultConfig) (columns : ColumnMapping)
    (hcolumns : reader.columns = some columns) (hsize : columns.size = 0)
    (hrows : ∀ row ∈ rows, row ≠ [])
    (hiss : reader.iss = rows.map fun row => writeRow row defaultConfig) :
    reader.next.1 ≠ .ok true := by
  induction rows generalizing reader with
  | nil =>
      rw [CsvDictReader.next, hiss, List.map_nil, CsvDictReader.nextFrom]
      simp
  | cons row rows ih =>
      by_cases hrow : Protected row
      · have hne := hrows row List.mem_cons_self
        have hlength : row.length ≠ columns.size := by
          rw [hsize]
          exact fun h => hne (List.eq_nil_of_length_eq_zero h)
        rw [next_of_protected hreader hcolumns hrow hne hiss, if_neg hlength]
        simp
      · rw [next_of_not_protected hreader hrow hiss]
        exact ih { reader with iss := _, line := reader.line + 1 } hreader hcolumns
          (fun other hother => hrows other (List.mem_cons_of_mem row hother)) rfl

/-! ## The whole file -/

theorem lines_writeFile (header : List Bytes) (rows : List (List Bytes)) :
    lines (writeFile header rows) =
      (header :: rows).map fun row => writeRow row defaultConfig := by
  have hflat : writeFile header rows =
      ((header :: rows).map fun row => writeRow row defaultConfig).flatMap
        fun text => text ++ [newline] := by
    rw [List.flatMap_map]
    rfl
  rw [hflat]
  apply lines_flatMap_newline
  intro text htext
  obtain ⟨row, _, rfl⟩ := List.mem_map.1 htext
  exact newline_not_mem_writeRow unambiguous_default row

/-- Distinct column names are always accepted.  The header that consists of the
empty name alone is read back as a header without a column. -/
theorem construct_writeFile (header : List Bytes) (hheader : header.Nodup)
    (rows : List (List Bytes)) :
    ∃ columns : ColumnMapping,
      columns.size = (if header = [[]] then 0 else header.length) ∧
      CsvDictReader.construct (writeFile header rows) defaultConfig =
        .ok { config := defaultConfig
              iss := rows.map fun row => writeRow row defaultConfig
              columns := some columns } := by
  by_cases hempty : header = [[]]
  · subst hempty
    refine ⟨.empty, rfl, ?_⟩
    rw [CsvDictReader.construct, lines_writeFile]
    rfl
  · obtain ⟨columns, hcollect, hsize⟩ :=
      collectColumns_of_nodup header hheader 0 .empty (fun _ _ => rfl)
    refine ⟨columns, ?_, ?_⟩
    · rw [if_neg hempty, hsize]
      simp [FlatMap.size, FlatMap.empty]
    · rw [CsvDictReader.construct, lines_writeFile]
      simp [parseColumns, scan_writeRow unambiguous_default header hempty, hcollect]

/-- Calls that hand out protected rows only fall short of the written rows as
soon as one of them is not protected. -/
theorem protected_of_calls_eq (rows : List (List Bytes))
    (hcalls : ((rows.filter (Protected ·)).map rowCall ++
      List.replicate rows.length endCall).take rows.length = rows.map rowCall) :
    ∀ row ∈ rows, Protected row := by
  by_contra hlost
  push Not at hlost
  obtain ⟨row, hrow, hnot⟩ := hlost
  have hshort : (rows.filter (Protected ·)).length < rows.length :=
    List.length_filter_lt_length_iff_exists.2 ⟨row, hrow, by simpa using hnot⟩
  have hend : endCall ∈ rows.map rowCall := by
    rw [← hcalls, List.take_append, List.take_replicate, List.length_map]
    apply List.mem_append_right
    rw [List.mem_replicate]
    exact ⟨by omega, rfl⟩
  obtain ⟨other, _, heq⟩ := List.mem_map.1 hend
  exact absurd (congrArg Prod.snd heq) (by simp [rowCall, endCall])

/-- A file of distinct column names and rows of as many fields is read back
exactly when it has no row, or when its header is not the empty name alone and
every row is protected. -/
theorem readsBack_iff (header : List Bytes) (hne : header ≠ [])
    (hheader : header.Nodup) (rows : List (List Bytes))
    (hrows : ∀ row ∈ rows, row.length = header.length) :
    ReadsBack header rows ↔
      rows = [] ∨
        (header ≠ [[]] ∧ ∀ row ∈ rows, Protected row) := by
  obtain ⟨columns, hsize, hconstruct⟩ := construct_writeFile header hheader rows
  have hfields : ∀ row ∈ rows, row ≠ [] := by
    intro row hrow hnil
    have hlength := hrows row hrow
    rw [hnil, List.length_nil] at hlength
    exact hne (List.eq_nil_of_length_eq_zero hlength.symm)
  constructor
  · intro hback
    obtain ⟨reader, hreader, hcalls⟩ := hback
    rw [hconstruct] at hreader
    obtain rfl := Except.ok.inj hreader
    have hfirst := hcalls 0
    rw [List.replicate_zero, List.append_nil, Nat.add_zero] at hfirst
    by_cases hnone : header = [[]]
    · rw [if_pos hnone] at hsize
      cases rows with
      | nil => exact Or.inl rfl
      | cons row rows =>
          have hnext := next_of_no_column (row :: rows)
            { config := defaultConfig, iss := _, columns := some columns }
            rfl columns rfl hsize hfields rfl
          have hhead := (List.cons.inj hfirst).1
          exact absurd (congrArg Prod.fst hhead) hnext
    · rw [if_neg hnone] at hsize
      rw [nextCalls_writtenRows rows _ _ rfl columns rfl
        (fun row hrow => ⟨hfields row hrow, (hrows row hrow).trans hsize.symm⟩)
        rfl] at hfirst
      exact Or.inr ⟨hnone, protected_of_calls_eq rows hfirst⟩
  · intro hcondition
    refine ⟨_, hconstruct, fun extra => ?_⟩
    rcases hcondition with hnil | ⟨hnone, hprotected⟩
    · subst hnil
      rw [nextCalls_writtenRows [] _ _ rfl columns rfl (by simp) rfl]
      simp
    · rw [if_neg hnone] at hsize
      rw [nextCalls_writtenRows rows _ _ rfl columns rfl
        (fun row hrow => ⟨hfields row hrow, (hrows row hrow).trans hsize.symm⟩) rfl,
        List.filter_eq_self.2 (by simpa using hprotected), List.take_append,
        List.take_replicate, List.take_of_length_le (by simp)]
      simp

/-- The header `a,b` with the rows `x,#` and `"#,",y`. -/
theorem readsBack_iff_example :
    ReadsBack [[97], [98]] [[[120], [35]], [[35, 44], [121]]] :=
  (readsBack_iff [[97], [98]] (by decide) (by decide)
    [[[120], [35]], [[35, 44], [121]]] (by decide)).2 (Or.inr (by decide))

/-- The row whose first field is `#1` is taken for a comment and lost. -/
theorem comment_row_not_readsBack :
    ¬ ∀ (header : List Bytes) (rows : List (List Bytes)), header ≠ [] →
      header.Nodup → (∀ row ∈ rows, row.length = header.length) →
        ReadsBack header rows := by
  intro hall
  obtain ⟨reader, hconstruct, hcalls⟩ :=
    hall [[105, 100]] [[[35, 49]]] (by decide) (by decide) (by decide)
  have hreader : CsvDictReader.construct (writeFile [[105, 100]] [[[35, 49]]])
      defaultConfig =
        .ok { config := defaultConfig
              iss := [[35, 49]]
              columns := some ⟨[([105, 100], 0)], by decide⟩ } := rfl
  rw [hreader] at hconstruct
  obtain rfl := Except.ok.inj hconstruct
  exact absurd (hcalls 0) (by decide)

end Nstl.CsvFileRoundTrip
