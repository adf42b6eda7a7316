import Nstl.Core.Container
import Nstl.Csv.Line

/-!
# The CSV reader

`csv_dict_reader` takes the header from the first line of its stream and then
hands out one row per call of `next()`.  The stream is represented by the lines
that `std::getline` has still to extract.  Every operation returns the reader it
leaves behind, also when it throws: a row that is rejected has already been
stored, and the line it came from is gone.
-/

namespace Nstl.CsvReader

open Nstl.ByteString
open Nstl.Container
open Nstl.CsvLine
open Nstl.EscapedList

abbrev ColumnMapping := FlatMap ℕ
abbrev ValuesMapping := FlatMap Bytes

/-- The loop of `parse_columns`: map every field to its position and refuse a
name that is mapped already. -/
def collectColumns : List Bytes → ℕ → ColumnMapping →
    Except CsvError ColumnMapping
  | [], _, columns => .ok columns
  | name :: names, idx, columns =>
      match hfind : columns.find name with
      | some first => .error (.columnDuplicated name first idx)
      | none => collectColumns names (idx + 1) (columns.insertNew name idx hfind)

/-- `parse_columns`.  The fields are collected while the line is scanned, so a
duplicate is reported before an escape error further to the right. -/
def parseColumns (iss : List Bytes) (sep : Separator) (parseHeaders : Bool) :
    Except CsvError (Option ColumnMapping × List Bytes) :=
  if parseHeaders then
    match iss with
    | [] => .error .failedToRead
    | data :: iss =>
        let tokens := scan sep data
        match collectColumns tokens.fields 0 .empty with
        | .error failure => .error failure
        | .ok columns =>
            match tokens.failure with
            | some failure => .error (.malformed failure)
            | none => .ok (some columns, iss)
  else .ok (none, iss)

structure CsvDictReader where
  config : CsvParseConfig
  iss : List Bytes
  line : UInt32 := 1
  columns : Option ColumnMapping
  values : Option (List Bytes) := none

namespace CsvDictReader

/-- The constructor, on a stream that holds `text`. -/
def construct (text : Bytes) (config : CsvParseConfig) :
    Except CsvError CsvDictReader :=
  match parseColumns (lines text) config.separator config.parseHeaders with
  | .error failure => .error failure
  | .ok (columns, iss) => .ok { config, iss, columns }

def row (reader : CsvDictReader) : Option (List Bytes) :=
  reader.values

/-- The body of the loop of `next()` for a line that is not skipped: the values
are replaced as they are scanned, and checked against the header last. -/
def readLine (reader : CsvDictReader) (data : Bytes) :
    Except CsvError Bool × CsvDictReader :=
  let tokens := scan reader.config.separator data
  let reader := { reader with values := some tokens.fields }
  match tokens.failure with
  | some failure => (.error (.malformed failure), reader)
  | none =>
      match reader.columns with
      | none => (.ok true, reader)
      | some columns =>
          if reader.config.checkColumnsSize ∧ tokens.fields.length ≠ columns.size then
            (.error (.columnCountMismatch reader.line), reader)
          else (.ok true, reader)

/-- The loop of `next()` over the lines still in the stream.  The line counter
moves with the skipped lines only, because every other line leaves the loop. -/
def nextFrom (reader : CsvDictReader) :
    List Bytes → Except CsvError Bool × CsvDictReader
  | [] => (.ok false, { reader with iss := [], values := none })
  | data :: iss =>
      if reader.config.skipEmptyLines ∧ data = [] then
        nextFrom { reader with iss := iss, line := reader.line + 1 } iss
      else if reader.config.comment ≠ nul ∧
          data.head? = some reader.config.comment then
        nextFrom { reader with iss := iss, line := reader.line + 1 } iss
      else readLine { reader with iss := iss } data

/-- `next()`. -/
def next (reader : CsvDictReader) : Except CsvError Bool × CsvDictReader :=
  nextFrom reader reader.iss

def header (reader : CsvDictReader) : Option ColumnMapping :=
  reader.columns

/-- `get_field()` with the caller's own columns. -/
def getFieldIn (reader : CsvDictReader) (columns : ColumnMapping) (col : Bytes) :
    Option Bytes :=
  match reader.values with
  | none => none
  | some values =>
      match columns.find col with
      | some idx => if values.length ≤ idx then none else values[idx]?
      | none => none

/-- `get_field()`. -/
def getField (reader : CsvDictReader) (col : Bytes) : Option Bytes :=
  match reader.columns with
  | some columns => reader.getFieldIn columns col
  | none => none

/-- `get_data()` into a mapping of the caller, which is replaced only if there is a
row. -/
def getDataInto (reader : CsvDictReader) (target : ValuesMapping) :
    Except CsvError Bool × CsvDictReader × ValuesMapping :=
  match reader.columns with
  | none => (.error .headersNotParsed, reader, target)
  | some columns =>
      match reader.next with
      | (.error failure, reader) => (.error failure, reader, target)
      | (.ok false, reader) => (.ok false, reader, target)
      | (.ok true, reader) =>
          match reader.values with
          | none => (.error .valuesMissing, reader, target)
          | some values =>
              (.ok true, reader,
                columns.filterMap fun idx =>
                  if idx < values.length then values[idx]? else none)

/-- `get_data()`. -/
def getData (reader : CsvDictReader) :
    Except CsvError (Option ValuesMapping) × CsvDictReader :=
  match reader.getDataInto .empty with
  | (.error failure, reader, _) => (.error failure, reader)
  | (.ok false, reader, _) => (.ok none, reader)
  | (.ok true, reader, values) => (.ok (some values), reader)

/-- What `count` successive calls of `next()` return, each with the value of
`row()` after it. -/
def nextCalls : ℕ → CsvDictReader →
    List (Except CsvError Bool × Option (List Bytes))
  | 0, _ => []
  | count + 1, reader =>
      (reader.next.1, reader.next.2.row) :: nextCalls count reader.next.2

end CsvDictReader

theorem collectColumns_known {name : Bytes} {names : List Bytes} {idx first : ℕ}
    {columns : ColumnMapping} (hfirst : columns.find name = some first) :
    collectColumns (name :: names) idx columns = .error (.columnDuplicated name first idx) := by
  rw [collectColumns]
  split
  · next other hsome =>
      rw [Option.some.inj (hsome.symm.trans hfirst)]
  · next hnone => exact nomatch hnone.symm.trans hfirst

theorem collectColumns_new {name : Bytes} {names : List Bytes} {idx : ℕ}
    {columns : ColumnMapping} (hnew : columns.find name = none) :
    collectColumns (name :: names) idx columns =
      collectColumns names (idx + 1) (columns.insertNew name idx hnew) := by
  rw [collectColumns]
  split
  · next first hsome => exact nomatch hsome.symm.trans hnew
  · rfl

/-- Names that are new and pairwise distinct are all accepted. -/
theorem collectColumns_of_nodup (names : List Bytes) (hnodup : names.Nodup)
    (idx : ℕ) (columns : ColumnMapping)
    (hnew : ∀ name ∈ names, columns.find name = none) :
    ∃ collected, collectColumns names idx columns = .ok collected ∧
      collected.size = columns.size + names.length := by
  induction names generalizing idx columns with
  | nil => exact ⟨columns, rfl, rfl⟩
  | cons name names ih =>
      obtain ⟨hname, hnodup⟩ := List.nodup_cons.1 hnodup
      have hfind := hnew name List.mem_cons_self
      have hrest : ∀ other ∈ names,
          (columns.insertNew name idx hfind).find other = none := by
        intro other hother
        have hold := (columns.find_eq_none_iff other).1
          (hnew other (List.mem_cons_of_mem _ hother))
        rw [FlatMap.find_eq_none_iff, FlatMap.keys_insertNew, List.mem_append,
          List.mem_singleton, not_or]
        refine ⟨hold, ?_⟩
        rintro rfl
        exact hname hother
      obtain ⟨collected, hcollected, hsize⟩ := ih hnodup (idx + 1) _ hrest
      refine ⟨collected, ?_, ?_⟩
      · rw [collectColumns_new hfind]
        exact hcollected
      · rw [hsize, FlatMap.size_insertNew, List.length_cons]
        omega

/-- The columns are the names with their positions. -/
theorem entries_collectColumns {names : List Bytes} {idx : ℕ} {columns collected : ColumnMapping}
    (hcollect : collectColumns names idx columns = .ok collected) :
    collected.entries = columns.entries ++ names.zipIdx idx := by
  induction names generalizing idx columns with
  | nil =>
      obtain rfl := Except.ok.inj hcollect
      rw [List.zipIdx_nil, List.append_nil]
  | cons name names ih =>
      cases hfind : columns.find name with
      | some first =>
          rw [collectColumns_known hfind] at hcollect
          cases hcollect
      | none =>
          rw [collectColumns_new hfind] at hcollect
          rw [ih hcollect, FlatMap.insertNew, List.zipIdx_cons, List.append_assoc,
            List.singleton_append]

end Nstl.CsvReader
