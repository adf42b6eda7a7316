import Nstl.Csv.Reader

/-!
# The reader as a filter of lines

A caller of `csv_dict_reader` makes any sequence of calls, and goes on after an
exception.  Of all that the reader keeps only its position among the lines matters:
the `k`-th call of `next()`, made directly or by `get_data()`, is about the `k`-th
of the lines that are not skipped.
-/

namespace Nstl.CsvCalls

open Nstl.ByteString
open Nstl.Container
open Nstl.CsvLine
open Nstl.CsvReader
open Nstl.EscapedList

/-- The lines that are not data. -/
def Skipped (config : CsvParseConfig) (data : Bytes) : Prop :=
  (config.skipEmptyLines = true ∧ data = []) ∨
    (config.comment ≠ nul ∧ data.head? = some config.comment)

instance (config : CsvParseConfig) : DecidablePred (Skipped config) :=
  fun _ => inferInstanceAs (Decidable (_ ∨ _))

/-- The lines of a stream that `next()` is about: the constructor takes the first
one for the header. -/
def dataLines (config : CsvParseConfig) (text : Bytes) : List Bytes :=
  (if config.parseHeaders then (lines text).tail else lines text).filter
    (¬Skipped config ·)

/-- What a call of `next()` is to do. -/
inductive Outcome where
  | row (fields : List Bytes)
  | malformed (failure : EscapeError)
  | wrongCount
  | ended
  deriving DecidableEq, Repr

/-- What `next()` is to do with a line: give its tokens, unless the tokenizer fails,
or there is a header of another size and the sizes are checked. -/
def lineOutcome (config : CsvParseConfig) (columns : Option ColumnMapping) (data : Bytes) :
    Outcome :=
  match (scan config.separator data).failure with
  | some failure => .malformed failure
  | none =>
      let fields := (scan config.separator data).fields
      if ∃ header ∈ columns, config.checkColumnsSize = true ∧ fields.length ≠ header.size
      then .wrongCount else .row fields

/-- What the `k`-th call is to do. -/
def outcomeAt (config : CsvParseConfig) (columns : Option ColumnMapping)
    (data : List Bytes) (k : ℕ) : Outcome :=
  match data[k]? with
  | some line => lineOutcome config columns line
  | none => .ended

/-- The result of a call, with the value of `row()` after it, is that outcome. -/
inductive Shows : Except CsvError Bool × Option (List Bytes) → Outcome → Prop
  | row (fields : List Bytes) : Shows (.ok true, some fields) (.row fields)
  | malformed (failure : EscapeError) (values : Option (List Bytes)) :
      Shows (.error (.malformed failure), values) (.malformed failure)
  | wrongCount (line : UInt32) (values : Option (List Bytes)) :
      Shows (.error (.columnCountMismatch line), values) .wrongCount
  | ended : Shows (.ok false, none) .ended

theorem Shows.row_of_true {values : Option (List Bytes)} {outcome : Outcome}
    (hshows : Shows (.ok true, values) outcome) : ∃ fields, values = some fields := by
  cases hshows with
  | row fields => exact ⟨fields, rfl⟩

theorem Shows.ne_headersNotParsed {result : Except CsvError Bool}
    {values : Option (List Bytes)} {outcome : Outcome} (hshows : Shows (result, values) outcome) :
    result ≠ .error .headersNotParsed := by
  cases hshows <;> exact nofun

/-- The data lines that are left in the stream. -/
def remaining (reader : CsvDictReader) : List Bytes :=
  reader.iss.filter (¬Skipped reader.config ·)

theorem readLine_shows (reader : CsvDictReader) (data : Bytes) :
    Shows ((reader.readLine data).1, (reader.readLine data).2.row)
      (lineOutcome reader.config reader.columns data) := by
  simp only [CsvDictReader.readLine, lineOutcome]
  cases (scan reader.config.separator data).failure with
  | some failure => exact .malformed failure _
  | none =>
      cases hcolumns : reader.columns with
      | none => simpa [hcolumns, CsvDictReader.row] using Shows.row _
      | some columns =>
          by_cases hcount : reader.config.checkColumnsSize = true ∧
              (scan reader.config.separator data).fields.length ≠ columns.size
          · simpa [hcolumns, hcount] using Shows.wrongCount _ _
          · simpa [hcolumns, hcount, CsvDictReader.row] using Shows.row _

/-- Whatever the line, `readLine` only replaces the values. -/
theorem readLine_reader (reader : CsvDictReader) (data : Bytes) :
    (reader.readLine data).2 =
      { reader with values := some (scan reader.config.separator data).fields } := by
  simp only [CsvDictReader.readLine]
  repeat' split
  all_goals rfl

theorem nextFrom_skipped {reader : CsvDictReader} {data : Bytes} (iss : List Bytes)
    (hskipped : Skipped reader.config data) :
    reader.nextFrom (data :: iss) =
      CsvDictReader.nextFrom { reader with iss := iss, line := reader.line + 1 } iss := by
  rw [CsvDictReader.nextFrom]
  by_cases hempty : reader.config.skipEmptyLines = true ∧ data = []
  · rw [if_pos hempty]
  · rw [if_neg hempty, if_pos (hskipped.resolve_left hempty)]

theorem nextFrom_data {reader : CsvDictReader} {data : Bytes} (iss : List Bytes)
    (hdata : ¬Skipped reader.config data) :
    reader.nextFrom (data :: iss) = CsvDictReader.readLine { reader with iss := iss } data := by
  rw [CsvDictReader.nextFrom, if_neg fun hempty => hdata (.inl hempty),
    if_neg fun hcomment => hdata (.inr hcomment)]

/-- The loop of `next()` drops the lines in front of the first data line, and counts
them. -/
theorem nextFrom_split (reader : CsvDictReader) (iss : List Bytes) :
    ∃ skipped, (∀ data ∈ skipped, Skipped reader.config data) ∧
      (iss = skipped ∧ reader.nextFrom iss =
          (.ok false, { reader with
            iss := [], line := reader.line + .ofNat skipped.length, values := none }) ∨
        ∃ data rest, iss = skipped ++ data :: rest ∧ ¬Skipped reader.config data ∧
          reader.nextFrom iss = CsvDictReader.readLine { reader with
            iss := rest, line := reader.line + .ofNat skipped.length } data) := by
  induction iss generalizing reader with
  | nil => exact ⟨[], by simp, .inl ⟨rfl, by simp [CsvDictReader.nextFrom]⟩⟩
  | cons data iss ih =>
      by_cases hskipped : Skipped reader.config data
      · obtain ⟨skipped, hall, hsplit⟩ := ih { reader with iss := iss, line := reader.line + 1 }
        have hline : reader.line + 1 + .ofNat skipped.length =
            reader.line + .ofNat (data :: skipped).length := by
          rw [List.length_cons, Nat.add_comm, UInt32.ofNat_add, UInt32.add_assoc]
          rfl
        rw [hline] at hsplit
        rw [nextFrom_skipped iss hskipped]
        refine ⟨data :: skipped, List.forall_mem_cons.2 ⟨hskipped, hall⟩, ?_⟩
        rcases hsplit with ⟨rfl, hended⟩ | ⟨first, rest, rfl, hfirst, hread⟩
        · exact .inl ⟨rfl, hended⟩
        · exact .inr ⟨first, rest, rfl, hfirst, hread⟩
      · rw [nextFrom_data iss hskipped]
        exact ⟨[], by simp, .inr ⟨data, iss, rfl, hskipped, by simp⟩⟩

theorem filter_of_skipped {config : CsvParseConfig} {skipped : List Bytes}
    (hall : ∀ data ∈ skipped, Skipped config data) (rest : List Bytes) :
    (skipped ++ rest).filter (¬Skipped config ·) = rest.filter (¬Skipped config ·) := by
  rw [List.filter_append, List.filter_eq_nil_iff.2 (by simpa using hall), List.nil_append]

/-- The loop of `next()` finds the first data line. -/
theorem nextFrom_eq (reader : CsvDictReader) (iss : List Bytes) :
    (iss.filter (¬Skipped reader.config ·) = [] ∧
      ∃ line, reader.nextFrom iss =
        (.ok false, { reader with iss := [], line := line, values := none })) ∨
    ∃ data rest line, iss.filter (¬Skipped reader.config ·) =
        data :: rest.filter (¬Skipped reader.config ·) ∧
      reader.nextFrom iss =
        CsvDictReader.readLine { reader with iss := rest, line := line } data := by
  obtain ⟨skipped, hall, hsplit⟩ := nextFrom_split reader iss
  rcases hsplit with ⟨rfl, hended⟩ | ⟨data, rest, rfl, hdata, hread⟩
  · exact .inl ⟨by simpa using filter_of_skipped hall [], _, hended⟩
  · refine .inr ⟨data, rest, _, ?_, hread⟩
    rw [filter_of_skipped hall, List.filter_cons_of_pos (by simpa using hdata)]

/-- One call of `next()`: it is about the first data line that is left. -/
structure Advances (before : CsvDictReader) (result : Except CsvError Bool)
    (after : CsvDictReader) : Prop where
  config : after.config = before.config
  columns : after.columns = before.columns
  rest : remaining after = (remaining before).tail
  row : after.row =
    (remaining before)[0]?.map fun line => (scan before.config.separator line).fields
  shows : Shows (result, after.row) (outcomeAt before.config before.columns (remaining before) 0)

theorem next_advances (reader : CsvDictReader) :
    Advances reader reader.next.1 reader.next.2 := by
  cases nextFrom_eq reader reader.iss with
  | inl hended =>
      obtain ⟨hnone, line, hnext⟩ := hended
      have hremaining : remaining reader = [] := hnone
      rw [CsvDictReader.next, hnext]
      exact ⟨rfl, rfl, by rw [hremaining]; rfl, by rw [hremaining]; rfl,
        by rw [hremaining]; exact .ended⟩
  | inr hdata =>
      obtain ⟨data, rest, line, hremaining, hnext⟩ := hdata
      have hremaining : remaining reader =
          data :: remaining { reader with iss := rest, line := line } := hremaining
      have hshows := readLine_shows { reader with iss := rest, line := line } data
      rw [CsvDictReader.next, hnext]
      rw [readLine_reader] at hshows ⊢
      exact ⟨rfl, rfl, by rw [hremaining]; rfl, by rw [hremaining]; rfl,
        by rw [hremaining]; exact hshows⟩

/-! ## Sequences of calls -/

inductive Call where
  | next
  | getDataInto (target : ValuesMapping)
  | getData
  | header
  | row
  | getField (col : Bytes)
  | getFieldIn (columns : ColumnMapping) (col : Bytes)

/-- What a call returns to its caller, or throws. -/
inductive Response where
  | next (result : Except CsvError Bool)
  | getDataInto (result : Except CsvError Bool) (target : ValuesMapping)
  | getData (result : Except CsvError (Option ValuesMapping))
  | header (columns : Option ColumnMapping)
  | row (values : Option (List Bytes))
  | field (value : Option Bytes)

def perform (reader : CsvDictReader) : Call → Response × CsvDictReader
  | .next => (.next reader.next.1, reader.next.2)
  | .getDataInto target =>
      let (result, reader, target) := reader.getDataInto target
      (.getDataInto result target, reader)
  | .getData => (.getData reader.getData.1, reader.getData.2)
  | .header => (.header reader.header, reader)
  | .row => (.row reader.row, reader)
  | .getField col => (.field (reader.getField col), reader)
  | .getFieldIn columns col => (.field (reader.getFieldIn columns col), reader)

/-- Whether the call is a call of `next()`: `get_data()` is one only if there is a
header. -/
def Call.callsNext (reader : CsvDictReader) : Call → Bool
  | .next => true
  | .getDataInto _ | .getData => reader.columns.isSome
  | _ => false

/-- The result of `next()` as the response shows it. -/
def Response.nextResult : Response → Option (Except CsvError Bool)
  | .next result => some result
  | .getDataInto (.error .headersNotParsed) _ | .getData (.error .headersNotParsed) => none
  | .getDataInto result _ => some result
  | .getData (.error failure) => some (.error failure)
  | .getData (.ok values) => some (.ok values.isSome)
  | _ => none

/-- The reader after a sequence of calls; an exception does not end it. -/
def performAll (reader : CsvDictReader) (calls : List Call) : CsvDictReader :=
  calls.foldl (fun reader call => (perform reader call).2) reader

/-- The results of all the calls of `next()` in a sequence, with the value of `row()`
after each of them. -/
def nextResults (reader : CsvDictReader) :
    List Call → List (Except CsvError Bool × Option (List Bytes))
  | [] => []
  | call :: calls =>
      let (response, reader) := perform reader call
      (response.nextResult.map (·, reader.row)).toList ++ nextResults reader calls

/-- How often a sequence calls `next()`. -/
def nextCount (reader : CsvDictReader) (calls : List Call) : ℕ :=
  calls.countP (Call.callsNext reader)

theorem nextResult_getDataInto {result : Except CsvError Bool} (target : ValuesMapping)
    (hresult : result ≠ .error .headersNotParsed) :
    (Response.getDataInto result target).nextResult = some result := by
  cases result with
  | ok more => rfl
  | error failure =>
      cases failure with
      | headersNotParsed => exact absurd rfl hresult
      | _ => rfl

theorem nextResult_getData {result : Except CsvError Bool} (values : ValuesMapping)
    (hresult : result ≠ .error .headersNotParsed) :
    (Response.getData (result.map fun more => if more then some values else none)).nextResult =
      some result := by
  cases result with
  | ok more => cases more <;> rfl
  | error failure =>
      cases failure with
      | headersNotParsed => exact absurd rfl hresult
      | _ => rfl

/-- `get_data()` on a reader with a header does what `next()` does. -/
theorem getDataInto_eq {reader : CsvDictReader} (target : ValuesMapping)
    (hcolumns : reader.columns.isSome = true) :
    ∃ filled, reader.getDataInto target = (reader.next.1, reader.next.2, filled) := by
  obtain ⟨columns, hcolumns⟩ := Option.isSome_iff_exists.1 hcolumns
  have hshows := (next_advances reader).shows
  unfold CsvDictReader.getDataInto
  rw [hcolumns]
  generalize reader.next = called at hshows
  obtain ⟨result, after⟩ := called
  cases result with
  | error failure => exact ⟨target, rfl⟩
  | ok more =>
      cases more with
      | false => exact ⟨target, rfl⟩
      | true =>
          obtain ⟨fields, hfields⟩ := hshows.row_of_true
          have hvalues : after.values = some fields := hfields
          simp only [hvalues]
          exact ⟨_, rfl⟩

theorem getData_eq {reader : CsvDictReader} (hcolumns : reader.columns.isSome = true) :
    ∃ filled, reader.getData =
      (reader.next.1.map fun more => if more then some filled else none, reader.next.2) := by
  obtain ⟨filled, heq⟩ := getDataInto_eq .empty hcolumns
  unfold CsvDictReader.getData
  rw [heq]
  refine ⟨filled, ?_⟩
  cases reader.next.1 with
  | error failure => rfl
  | ok more => cases more <;> rfl

/-- A call is a call of `next()` or leaves the reader as it is. -/
theorem perform_eq (reader : CsvDictReader) (call : Call) :
    (perform reader call).1.nextResult =
        (if call.callsNext reader then some reader.next.1 else none) ∧
      (perform reader call).2 = if call.callsNext reader then reader.next.2 else reader := by
  have hraised := (next_advances reader).shows.ne_headersNotParsed
  cases call with
  | next => exact ⟨rfl, rfl⟩
  | getDataInto target =>
      cases hcolumns : reader.columns with
      | none => simp [perform, CsvDictReader.getDataInto, Call.callsNext, hcolumns,
          Response.nextResult]
      | some columns =>
          obtain ⟨filled, heq⟩ := getDataInto_eq target (Option.isSome_of_eq_some hcolumns)
          simp [perform, heq, Call.callsNext, hcolumns, nextResult_getDataInto filled hraised]
  | getData =>
      cases hcolumns : reader.columns with
      | none => simp [perform, CsvDictReader.getData, CsvDictReader.getDataInto,
          Call.callsNext, hcolumns, Response.nextResult]
      | some columns =>
          obtain ⟨filled, heq⟩ := getData_eq (Option.isSome_of_eq_some hcolumns)
          simp [perform, heq, Call.callsNext, hcolumns, nextResult_getData filled hraised]
  | header | row | getField | getFieldIn => exact ⟨rfl, rfl⟩

/-- The reader after `k` calls of `next()`. -/
def nthReader (reader : CsvDictReader) : ℕ → CsvDictReader
  | 0 => reader
  | k + 1 => nthReader reader.next.2 k

theorem nextCount_next (reader : CsvDictReader) (calls : List Call) :
    nextCount reader.next.2 calls = nextCount reader calls := by
  have hcalls : Call.callsNext reader.next.2 = Call.callsNext reader := by
    funext call
    cases call <;> simp [Call.callsNext, (next_advances reader).columns]
  rw [nextCount, nextCount, hcalls]

/-- Whatever else is called in between, the calls of `next()` give what they give one
after the other. -/
theorem nextResults_eq (reader : CsvDictReader) (calls : List Call) :
    nextResults reader calls = reader.nextCalls (nextCount reader calls) := by
  induction calls generalizing reader with
  | nil => rfl
  | cons call calls ih =>
      obtain ⟨hresult, hreader⟩ := perform_eq reader call
      rw [nextResults]
      simp only [hresult, hreader, ih]
      cases hcall : call.callsNext reader with
      | false => simp [nextCount, hcall]
      | true =>
          have hcount : nextCount reader (call :: calls) = nextCount reader calls + 1 := by
            simp [nextCount, hcall]
          rw [hcount]
          simp [nextCount_next, CsvDictReader.nextCalls]

theorem performAll_eq (reader : CsvDictReader) (calls : List Call) :
    performAll reader calls = nthReader reader (nextCount reader calls) := by
  induction calls generalizing reader with
  | nil => rfl
  | cons call calls ih =>
      have hreader := (perform_eq reader call).2
      rw [performAll, List.foldl_cons, hreader]
      cases hcall : call.callsNext reader with
      | false =>
          have hcount : nextCount reader (call :: calls) = nextCount reader calls := by
            simp [nextCount, hcall]
          rw [hcount]
          exact ih reader
      | true =>
          have hcount : nextCount reader (call :: calls) = nextCount reader calls + 1 := by
            simp [nextCount, hcall]
          rw [hcount, nthReader, ← nextCount_next]
          exact ih reader.next.2

theorem outcomeAt_tail (config : CsvParseConfig) (columns : Option ColumnMapping)
    (data : List Bytes) (k : ℕ) :
    outcomeAt config columns data.tail k = outcomeAt config columns data (k + 1) := by
  rw [outcomeAt, outcomeAt, List.getElem?_tail]

/-- The `k`-th call of `next()`, whatever comes after it, is about the `k`-th of the
lines that are left. -/
theorem nextCalls_shows (reader : CsvDictReader) (k : ℕ) :
    ∃ seen, Shows seen (outcomeAt reader.config reader.columns (remaining reader) k) ∧
      ∀ count, k < count → (reader.nextCalls count)[k]? = some seen := by
  induction k generalizing reader with
  | zero =>
      refine ⟨_, (next_advances reader).shows, ?_⟩
      intro count hcount
      cases count with
      | zero => exact absurd hcount (Nat.not_lt_zero _)
      | succ count => rfl
  | succ k ih =>
      obtain ⟨seen, hshows, hseen⟩ := ih reader.next.2
      have hadvances := next_advances reader
      rw [hadvances.config, hadvances.columns, hadvances.rest, outcomeAt_tail] at hshows
      refine ⟨seen, hshows, ?_⟩
      intro count hcount
      cases count with
      | zero => exact absurd hcount (Nat.not_lt_zero _)
      | succ count => exact hseen count (Nat.lt_of_succ_lt_succ hcount)

/-- The positions that a header maps its columns to. -/
def Indexed (columns : ColumnMapping) : Prop :=
  ∀ entry ∈ columns.entries, entry.2 < columns.size

theorem collectColumns_indexed {names : List Bytes} {collected : ColumnMapping}
    (hcollect : collectColumns names 0 .empty = .ok collected) : Indexed collected := by
  have hentries : collected.entries = names.zipIdx := entries_collectColumns hcollect
  rw [Indexed, FlatMap.size, hentries, List.length_zipIdx]
  intro entry hentry
  have hlt := List.snd_lt_add_of_mem_zipIdx hentry
  rwa [Nat.zero_add] at hlt

/-- The header takes the first line, if there is to be one. -/
theorem parseColumns_eq {iss rest : List Bytes} {sep : Separator} {parseHeaders : Bool}
    {columns : Option ColumnMapping}
    (hparse : parseColumns iss sep parseHeaders = .ok (columns, rest)) :
    columns.isSome = parseHeaders ∧ rest = (if parseHeaders then iss.tail else iss) ∧
      ∀ header ∈ columns, Indexed header := by
  unfold parseColumns at hparse
  cases parseHeaders with
  | false =>
      cases hparse
      exact ⟨rfl, rfl, nofun⟩
  | true =>
      cases iss with
      | nil => exact nomatch hparse
      | cons data iss =>
          simp only [if_true] at hparse
          split at hparse
          · exact nomatch hparse
          · next collected hcollect =>
              split at hparse
              · exact nomatch hparse
              · cases hparse
                refine ⟨rfl, rfl, ?_⟩
                rintro header ⟨⟩
                exact collectColumns_indexed hcollect

/-- What the constructor makes of a stream. -/
structure Constructed (text : Bytes) (config : CsvParseConfig) (reader : CsvDictReader) :
    Prop where
  configured : reader.config = config
  headed : reader.header.isSome = config.parseHeaders
  pending : remaining reader = dataLines config text
  fresh : reader.row = none
  indexed : ∀ header ∈ reader.header, Indexed header

theorem construct_constructed {text : Bytes} {config : CsvParseConfig}
    {reader : CsvDictReader} (hconstruct : CsvDictReader.construct text config = .ok reader) :
    Constructed text config reader := by
  unfold CsvDictReader.construct at hconstruct
  split at hconstruct
  · exact nomatch hconstruct
  · next columns rest hparse =>
      obtain ⟨hheaded, hrest, hindexed⟩ := parseColumns_eq hparse
      obtain rfl := Except.ok.inj hconstruct
      refine ⟨rfl, hheaded, ?_, rfl, hindexed⟩
      rw [remaining, dataLines, hrest]

/-- Any sequence of calls to a reader, with calls that throw among them: the result
of the `k`-th call of `next()` is about the `k`-th data line, and it does not depend
on the other calls. -/
theorem next_is_about_its_line {text : Bytes} {config : CsvParseConfig}
    {reader : CsvDictReader} (hconstruct : CsvDictReader.construct text config = .ok reader) :
    reader.header.isSome = config.parseHeaders ∧
      ∀ k, ∃ seen,
        Shows seen (outcomeAt config reader.header (dataLines config text) k) ∧
          ∀ calls, k < nextCount reader calls → (nextResults reader calls)[k]? = some seen := by
  have hconstructed := construct_constructed hconstruct
  refine ⟨hconstructed.headed, fun k => ?_⟩
  obtain ⟨seen, hshows, hseen⟩ := nextCalls_shows reader k
  rw [hconstructed.configured, hconstructed.pending] at hshows
  refine ⟨seen, hshows, fun calls hk => ?_⟩
  rw [nextResults_eq]
  exact hseen _ hk

/-- The header `a,b`, a line with one field and a line with two. -/
def unevenText : Bytes := [97, 44, 98, 10, 49, 10, 50, 44, 51]

def unevenReader : CsvDictReader where
  config := {}
  iss := [[49], [50, 44, 51]]
  columns := some ⟨[([97], 0), ([98], 1)], by decide⟩

/-- The second call of `next()` is made by `get_data()`, after the first one threw. -/
theorem next_after_throw :
    CsvDictReader.construct unevenText {} = .ok unevenReader ∧
      (nextResults unevenReader [.next, .getField [98], .getData, .next])[1]? =
        some (.ok true, some [[50], [51]]) := by
  have hconstruct : CsvDictReader.construct unevenText {} = .ok unevenReader := rfl
  obtain ⟨seen, hshows, hseen⟩ := (next_is_about_its_line hconstruct).2 1
  rw [hseen [.next, .getField [98], .getData, .next] (by decide)]
  cases hshows with
  | row => exact ⟨hconstruct, rfl⟩

/-! ## The size of the row -/

/-- The row is as long as the header, and every column of the header has a field in
it. -/
def RowFits (reader : CsvDictReader) : Prop :=
  ∀ header ∈ reader.header, ∀ values ∈ reader.row,
    values.length = header.size ∧
      ∀ col ∈ header.entries.map Prod.fst, (reader.getField col).isSome = true

theorem nthReader_columns (reader : CsvDictReader) (k : ℕ) :
    (nthReader reader k).columns = reader.columns := by
  induction k generalizing reader with
  | zero => rfl
  | succ k ih => rw [nthReader, ih, (next_advances reader).columns]

/-- The row after a call is that of the line the call was about, also if the call has
thrown. -/
theorem nthReader_row (reader : CsvDictReader) (k : ℕ) :
    (nthReader reader (k + 1)).row =
      (remaining reader)[k]?.map fun line => (scan reader.config.separator line).fields := by
  induction k generalizing reader with
  | zero => exact (next_advances reader).row
  | succ k ih =>
      have hadvances := next_advances reader
      rw [nthReader, ih, hadvances.rest, hadvances.config, List.getElem?_tail]

theorem getField_isSome {reader : CsvDictReader} {header : ColumnMapping}
    {values : List Bytes} {col : Bytes} (hheader : reader.columns = some header)
    (hvalues : reader.values = some values) (hindexed : Indexed header)
    (hsize : values.length = header.size) (hcol : col ∈ header.entries.map Prod.fst) :
    (reader.getField col).isSome = true := by
  cases hfind : header.find col with
  | none => exact absurd hcol ((header.find_eq_none_iff col).1 hfind)
  | some idx =>
      have hidx : idx < values.length := by
        rw [hsize]
        exact hindexed _ (FlatMap.mem_entries_of_find hfind)
      simp [CsvDictReader.getField, CsvDictReader.getFieldIn, hheader, hvalues, hfind, hidx]

/-- The row fits in every state that calls can lead to exactly if every data line has
as many fields as the header, counting those in front of an error of the tokenizer. -/
theorem rowFits_iff {text : Bytes} {config : CsvParseConfig} {reader : CsvDictReader}
    (hconstruct : CsvDictReader.construct text config = .ok reader) :
    (∀ calls, RowFits (performAll reader calls)) ↔
      ∀ header ∈ reader.header, ∀ data ∈ dataLines config text,
        (scan config.separator data).fields.length = header.size := by
  have hconstructed := construct_constructed hconstruct
  constructor
  · intro hfits header hheader data hdata
    obtain ⟨k, hk⟩ := List.mem_iff_getElem?.1 hdata
    have hcount : nextCount reader (List.replicate (k + 1) .next) = k + 1 := by
      simp [nextCount, Call.callsNext, List.countP_replicate]
    have hfit := hfits (List.replicate (k + 1) .next)
    rw [performAll_eq, hcount] at hfit
    have hlength := (hfit header (by rw [CsvDictReader.header, nthReader_columns]; exact hheader)
      (scan config.separator data).fields (by
        rw [nthReader_row, hconstructed.pending, hk, hconstructed.configured]; rfl)).1
    exact hlength
  · intro hlines calls header hheader values hvalues
    rw [performAll_eq] at hheader hvalues ⊢
    rw [CsvDictReader.header, nthReader_columns] at hheader
    cases hcount : nextCount reader calls with
    | zero =>
        rw [hcount] at hvalues
        exact nomatch hconstructed.fresh.symm.trans hvalues
    | succ k =>
        rw [hcount] at hvalues
        have hrow := hvalues
        rw [nthReader_row, hconstructed.pending, hconstructed.configured] at hrow
        obtain ⟨data, hdata, rfl⟩ := Option.map_eq_some_iff.1 hrow
        have hsize := hlines header hheader data (List.mem_of_getElem? hdata)
        refine ⟨hsize, fun col hcol => ?_⟩
        exact getField_isSome ((nthReader_columns reader _).trans hheader) hvalues
          (hconstructed.indexed header hheader) hsize hcol

/-- The header `a,b` with one line of two fields. -/
theorem rowFits_example :
    ∃ reader, CsvDictReader.construct [97, 44, 98, 10, 50, 44, 51] {} = .ok reader ∧
      ∀ calls, RowFits (performAll reader calls) := by
  have hconstruct : CsvDictReader.construct [97, 44, 98, 10, 50, 44, 51] {} =
      .ok { unevenReader with iss := [[50, 44, 51]] } := rfl
  exact ⟨_, hconstruct, (rowFits_iff hconstruct).2 (by decide)⟩

/-- The line with one field makes `next()` throw, and stays as the row. -/
theorem rejected_row_stays :
    CsvDictReader.construct unevenText {} = .ok unevenReader ∧
      unevenReader.next.1 = .error (.columnCountMismatch 1) ∧
      (performAll unevenReader [.next]).row = some [[49]] ∧
      (performAll unevenReader [.next]).getField [98] = none ∧
      ¬RowFits (performAll unevenReader [.next]) := by
  refine ⟨rfl, rfl, rfl, rfl, fun hfits => ?_⟩
  have hsize := (hfits _ rfl _ rfl).1
  exact absurd hsize (by decide)

end Nstl.CsvCalls
