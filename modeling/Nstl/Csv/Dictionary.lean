import Mathlib.Data.List.Lex
import Nstl.Core.SortedMap
import Nstl.Csv.Calls

/-!
# The dictionary of the CSV reader

`column_mapping` and `values_mapping` are flat maps: their entries are sorted by the
names, while the fields of a row stand in the order of the file.  This is the reader with
the maps as they are: `parse_columns` inserts where a binary search says, and `get_data`
passes every position on as the hint for the next column.  Allocations may fail while
`next` copies the fields of a line, and behind the `clear` of `get_data`, where the
mapping of the caller has been given up.
-/

namespace Nstl.CsvDictionary

open Nstl.ByteString
open Nstl.Container
open Nstl.CsvCalls
open Nstl.CsvLine
open Nstl.CsvReader
open Nstl.EscapedList
open Nstl.KeyedOrder (Ascending)

/-- Strings are compared by their bytes as unsigned numbers. -/
scoped instance byteOrder : LinearOrder Byte where
  le_refl byte := UInt8.le_refl byte
  le_trans _ _ _ := UInt8.le_trans
  le_antisymm _ _ := UInt8.le_antisymm
  le_total := UInt8.le_total
  lt_iff_le_not_ge left right := by
    rw [UInt8.lt_iff_toNat_lt, UInt8.le_iff_toNat_le, UInt8.le_iff_toNat_le]
    omega
  toDecidableLE := inferInstance

/-! ## The reader with its flat maps -/

abbrev Columns := SortedMap Bytes ℕ
abbrev Values := SortedMap Bytes Bytes

/-- The loop of `parse_columns`.  The error names the column with both positions. -/
def collectColumns : List Bytes → ℕ → Columns → Except CsvError Columns
  | [], _, columns => .ok columns
  | name :: names, idx, columns =>
      let (collected, pos, inserted) := columns.emplace name idx
      if inserted then collectColumns names (idx + 1) collected
      else
        let first := collected.entries.getD pos (name, idx)
        .error (.columnDuplicated first.1 first.2 idx)

/-- `parse_columns`. -/
def parseColumns (iss : List Bytes) (sep : Separator) (parseHeaders : Bool) :
    Except CsvError (Option Columns × List Bytes) :=
  if parseHeaders then
    match iss with
    | [] => .error .failedToRead
    | data :: iss =>
        let tokens := scan sep data
        match collectColumns tokens.fields 0 .empty with
        | .error failure => .error failure
        | .ok columns =>
            match tokens.failure with
            | some failure => .error (.malformed failure)
            | none => .ok (some columns, iss)
  else .ok (none, iss)

structure DictReader where
  config : CsvParseConfig
  iss : List Bytes
  line : UInt32 := 1
  columns : Option Columns
  values : Option (List Bytes) := none

/-- The entries without their order. -/
def toFlatMap {Value : Type} (map : SortedMap Bytes Value) : FlatMap Value where
  entries := map.entries
  nodup_keys := List.pairwise_map.2 (map.ascending.imp fun hless => hless.ne)

namespace DictReader

def construct (text : Bytes) (config : CsvParseConfig) : Except CsvError DictReader :=
  match parseColumns (lines text) config.separator config.parseHeaders with
  | .error failure => .error failure
  | .ok (columns, iss) => .ok { config, iss, columns }

def view (reader : DictReader) : CsvDictReader where
  config := reader.config
  iss := reader.iss
  line := reader.line
  columns := reader.columns.map toFlatMap
  values := reader.values

/-- `next()`, which leaves the columns alone. -/
def next (reader : DictReader) : Except CsvError Bool × DictReader :=
  let (result, after) := reader.view.next
  (result, { reader with iss := after.iss, line := after.line, values := after.values })

/-- `next()` where an allocation fails once some fields of the line have been copied. -/
def nextWithin (memory : Option ℕ) (reader : DictReader) : Except CsvError Bool × DictReader :=
  match memory, reader.next with
  | none, called => called
  | some _, (.ok false, after) => (.ok false, after)
  | some copied, (_, after) =>
      (.error .badAlloc, { after with values := after.values.map (List.take copied) })

def row (reader : DictReader) : Option (List Bytes) := reader.values

/-- `get_field()` with the caller's own columns. -/
def getFieldIn (reader : DictReader) (columns : Columns) (col : Bytes) : Option Bytes :=
  match reader.values with
  | none => none
  | some values =>
      match columns.find col with
      | some idx => if values.length ≤ idx then none else values[idx]?
      | none => none

/-- `get_field()`. -/
def getField (reader : DictReader) (col : Bytes) : Option Bytes :=
  match reader.columns with
  | some columns => reader.getFieldIn columns col
  | none => none

/-- The loop of `get_data()` over the columns, with the position of the last column as
the hint for the next one.  `memory` is the number of fields that can be allocated. -/
def fill (values : List Bytes) (memory : Option ℕ) :
    List (Bytes × ℕ) → ℕ → Values → Except CsvError Bool × Values
  | [], _, target => (.ok true, target)
  | (column, idx) :: columns, helper, target =>
      if idx < values.length then
        if memory = some 0 then (.error .badAlloc, target)
        else
          let (target, helper) := target.emplaceHint helper column (values.getD idx [])
          fill values (memory.map (· - 1)) columns helper target
      else fill values memory columns helper target

/-- What `get_data()` does with a row: `clear`, `reserve` and the loop. -/
def refill (memory : Option ℕ) (values : List Bytes) (columns : Columns) :
    Except CsvError Bool × Values :=
  if memory = some 0 then (.error .badAlloc, .empty)
  else fill values (memory.map (· - 1)) columns.entries 0 .empty

/-- Where the allocations of a call fail, if they do. -/
structure Memory where
  /-- The fields of the line that `next()` has copied by then. -/
  next : Option ℕ := none
  /-- The allocations behind `clear()` that succeed: that of `reserve()` is the first, and
  then there is one for each field. -/
  fill : Option ℕ := none

/-- `get_data()` into a mapping of the caller. -/
def getDataInto (reader : DictReader) (memory : Memory) (target : Values) :
    Except CsvError Bool × DictReader × Values :=
  match reader.columns with
  | none => (.error .headersNotParsed, reader, target)
  | some columns =>
      match reader.nextWithin memory.next with
      | (.error failure, reader) => (.error failure, reader, target)
      | (.ok false, reader) => (.ok false, reader, target)
      | (.ok true, reader) =>
          match reader.values with
          | none => (.error .valuesMissing, reader, target)
          | some values =>
              let (result, target) := refill memory.fill values columns
              (result, reader, target)

/-- `get_data()`. -/
def getData (reader : DictReader) (memory : Memory) :
    Except CsvError (Option Values) × DictReader :=
  match reader.getDataInto memory .empty with
  | (.error failure, reader, _) => (.error failure, reader)
  | (.ok false, reader, _) => (.ok none, reader)
  | (.ok true, reader, values) => (.ok (some values), reader)

/-- The calls that change the reader. -/
inductive Call where
  | next (memory : Option ℕ)
  | getDataInto (memory : Memory) (target : Values)
  | getData (memory : Memory)

def perform (reader : DictReader) : Call → DictReader
  | .next memory => (reader.nextWithin memory).2
  | .getDataInto memory target => (reader.getDataInto memory target).2.1
  | .getData memory => (reader.getData memory).2

/-- The reader after a sequence of calls; an exception does not end it. -/
def performAll (reader : DictReader) (calls : List Call) : DictReader :=
  calls.foldl perform reader

end DictReader

/-! ## The column mapping -/

variable {Value : Type}

/-- The two maps have the same entries. -/
def SameEntries (sorted : SortedMap Bytes Value) (flat : FlatMap Value) : Prop :=
  sorted.entries.Perm flat.entries

theorem SameEntries.find_eq {sorted : SortedMap Bytes Value} {flat : FlatMap Value}
    (hsame : SameEntries sorted flat) (key : Bytes) : sorted.find key = flat.find key := by
  ext value
  rw [SortedMap.find_eq_some_iff, hsame.mem_iff, FlatMap.find_eq_some_iff]

theorem SameEntries.insertNew {sorted : SortedMap Bytes Value} {flat : FlatMap Value}
    (hsame : SameEntries sorted flat) {key : Bytes} (value : Value)
    (hnew : flat.find key = none) :
    SameEntries (sorted.emplace key value).1 (flat.insertNew key value hnew) := by
  have hfind : sorted.find key = none := by rw [hsame.find_eq, hnew]
  apply (SortedMap.entries_emplace hfind).trans
  apply (hsame.cons _).trans
  exact (List.perm_append_singleton ..).symm

/-- The reader is the abstract one with its columns in another order. -/
structure Refines (reader : DictReader) (abstract : CsvDictReader) : Prop where
  config : reader.config = abstract.config
  iss : reader.iss = abstract.iss
  line : reader.line = abstract.line
  values : reader.values = abstract.values
  columns : Option.Rel SameEntries reader.columns abstract.columns

/-- Of the columns a line is checked against their number only. -/
theorem readLine_columns {columns : Option ColumnMapping} (reader : CsvDictReader)
    (hsize : columns.map FlatMap.size = reader.columns.map FlatMap.size) (data : Bytes) :
    CsvDictReader.readLine { reader with columns := columns } data =
      ((reader.readLine data).1, { (reader.readLine data).2 with columns := columns }) := by
  rw [readLine_reader]
  simp only [CsvDictReader.readLine]
  cases (scan reader.config.separator data).failure with
  | some failure => rfl
  | none =>
      cases hcolumns : reader.columns with
      | none =>
          rw [hcolumns] at hsize
          obtain rfl := Option.map_eq_none_iff.1 hsize
          rfl
      | some header =>
          rw [hcolumns] at hsize
          obtain ⟨other, rfl, hother⟩ := Option.map_eq_some_iff.1 hsize
          simp only [hother]
          split <;> rfl

theorem nextFrom_columns {columns : Option ColumnMapping} (reader : CsvDictReader)
    (hsize : columns.map FlatMap.size = reader.columns.map FlatMap.size) (iss : List Bytes) :
    CsvDictReader.nextFrom { reader with columns := columns } iss =
      ((reader.nextFrom iss).1, { (reader.nextFrom iss).2 with columns := columns }) := by
  induction iss generalizing reader with
  | nil => rfl
  | cons data iss ih =>
      by_cases hskipped : Skipped reader.config data
      · rw [nextFrom_skipped iss hskipped]
        calc CsvDictReader.nextFrom { reader with columns := columns } (data :: iss)
            = CsvDictReader.nextFrom
                { reader with columns := columns, iss := iss, line := reader.line + 1 } iss :=
              nextFrom_skipped iss hskipped
          _ = _ := ih { reader with iss := iss, line := reader.line + 1 } hsize
      · rw [nextFrom_data iss hskipped]
        calc CsvDictReader.nextFrom { reader with columns := columns } (data :: iss)
            = CsvDictReader.readLine { reader with columns := columns, iss := iss } data :=
              nextFrom_data iss hskipped
          _ = _ := readLine_columns { reader with iss := iss } hsize data

theorem map_size_eq {sorted : Option Columns} {flat : Option ColumnMapping}
    (hsame : Option.Rel SameEntries sorted flat) :
    (sorted.map toFlatMap).map FlatMap.size = flat.map FlatMap.size := by
  cases hsame with
  | none => rfl
  | some hsame => exact congrArg some hsame.length_eq

variable {reader : DictReader} {abstract : CsvDictReader}

theorem field_eq (values : List Bytes) (idx : ℕ) :
    (if values.length ≤ idx then none else values[idx]?) = values[idx]? := by
  split
  · rw [List.getElem?_eq_none (by assumption)]
  · rfl

theorem Refines.next (hrefines : Refines reader abstract) :
    reader.next.1 = abstract.next.1 ∧ Refines reader.next.2 abstract.next.2 := by
  have hview : reader.view = { abstract with columns := reader.columns.map toFlatMap } := by
    rw [DictReader.view, hrefines.config, hrefines.iss, hrefines.line, hrefines.values]
  have hnext : reader.view.next = (abstract.next.1,
      { abstract.next.2 with columns := reader.columns.map toFlatMap }) := by
    rw [hview]
    exact nextFrom_columns abstract (map_size_eq hrefines.columns) abstract.iss
  have hadvances := next_advances abstract
  simp only [DictReader.next, hnext]
  refine ⟨trivial, ⟨?_, rfl, rfl, rfl, ?_⟩⟩
  · rw [hadvances.config, hrefines.config]
  · rw [hadvances.columns]
    exact hrefines.columns

theorem getFieldIn_bind (reader : DictReader) (columns : Columns) (col : Bytes) :
    reader.getFieldIn columns col =
      reader.values.bind fun values => (columns.find col).bind fun idx => values[idx]? := by
  rw [DictReader.getFieldIn]
  cases reader.values with
  | none => rfl
  | some values =>
      cases columns.find col with
      | none => rfl
      | some idx => exact field_eq values idx

theorem abstract_getFieldIn_bind (reader : CsvDictReader) (columns : ColumnMapping)
    (col : Bytes) :
    reader.getFieldIn columns col =
      reader.values.bind fun values => (columns.find col).bind fun idx => values[idx]? := by
  rw [CsvDictReader.getFieldIn]
  cases reader.values with
  | none => rfl
  | some values =>
      cases columns.find col with
      | none => rfl
      | some idx => exact field_eq values idx

theorem Refines.getField (hrefines : Refines reader abstract) (col : Bytes) :
    reader.getField col = abstract.getField col := by
  have hcolumns := hrefines.columns
  rw [DictReader.getField, CsvDictReader.getField]
  generalize reader.columns = sorted at hcolumns
  generalize abstract.columns = flat at hcolumns
  cases hcolumns with
  | none => rfl
  | some hsame =>
      simp only [getFieldIn_bind, abstract_getFieldIn_bind, hrefines.values, hsame.find_eq]

/-- The field of a row for a column. -/
def fieldAt (values : List Bytes) (idx : ℕ) : Option Bytes :=
  if idx < values.length then values[idx]? else none

theorem fieldAt_eq (values : List Bytes) (idx : ℕ) : fieldAt values idx = values[idx]? := by
  rw [fieldAt]
  split
  · rfl
  · rw [List.getElem?_eq_none (by omega)]

/-- The fields of a row with their columns, in the order of the columns. -/
def rowFields (values : List Bytes) (columns : List (Bytes × ℕ)) : List (Bytes × Bytes) :=
  columns.filterMap fun entry => (fieldAt values entry.2).map (entry.1, ·)

/-- The items that there is memory for. -/
def allowed {Item : Type} (memory : Option ℕ) (items : List Item) : List Item :=
  memory.elim items items.take

theorem allowed_cons {Item : Type} {memory : Option ℕ} (hmemory : memory ≠ some 0) (item : Item)
    (items : List Item) :
    allowed memory (item :: items) = item :: allowed (memory.map (· - 1)) items := by
  cases memory with
  | none => rfl
  | some count =>
      cases count with
      | zero => exact absurd rfl hmemory
      | succ count => rfl

/-- The loop of `get_data()` emplaces the fields of the row as long as there is memory. -/
theorem fill_spec (values : List Bytes) (memory : Option ℕ) (columns : List (Bytes × ℕ))
    (helper : ℕ) (target : Values) (hnodup : (columns.map Prod.fst).Nodup)
    (hnew : ∀ entry ∈ columns, target.find entry.1 = none) :
    (DictReader.fill values memory columns helper target).1 =
        (if allowed memory (rowFields values columns) = rowFields values columns then .ok true
          else .error .badAlloc) ∧
      (DictReader.fill values memory columns helper target).2.entries.Perm
        (target.entries ++ allowed memory (rowFields values columns)) := by
  induction columns generalizing memory helper target with
  | nil => cases memory <;> simp [DictReader.fill, rowFields, allowed]
  | cons entry columns ih =>
      obtain ⟨column, idx⟩ := entry
      obtain ⟨hcolumn, hnodup⟩ := List.nodup_cons.1 hnodup
      obtain ⟨hfind, hnew⟩ := List.forall_mem_cons.1 hnew
      by_cases hidx : idx < values.length
      · have hfield : fieldAt values idx = some (values.getD idx []) := by
          rw [fieldAt_eq, List.getD_eq_getElem?_getD, List.getElem?_eq_getElem hidx]
          rfl
        have hfields : rowFields values ((column, idx) :: columns) =
            (column, values.getD idx []) :: rowFields values columns :=
          List.filterMap_cons_some (by rw [hfield]; rfl)
        by_cases hmemory : memory = some 0
        · simp [DictReader.fill, hidx, hmemory, hfields, allowed]
        · have hrest : ∀ entry ∈ columns,
              (target.emplace column (values.getD idx [])).1.find entry.1 = none := by
            intro entry hentry
            have hne : entry.1 ≠ column := fun heq =>
              hcolumn (List.mem_map.2 ⟨entry, hentry, heq⟩)
            rw [SortedMap.find_emplace_of_ne hne]
            exact hnew entry hentry
          simp only [DictReader.fill, if_pos hidx, if_neg hmemory, SortedMap.emplaceHint_eq,
            hfields, allowed_cons hmemory, List.cons.injEq, true_and]
          obtain ⟨hresult, hentries⟩ := ih (memory.map (· - 1)) _ _ hnodup hrest
          refine ⟨hresult, hentries.trans ?_⟩
          refine ((SortedMap.entries_emplace hfind).append_right _).trans ?_
          exact List.perm_middle.symm
      · have hfields : rowFields values ((column, idx) :: columns) = rowFields values columns :=
          List.filterMap_cons_none (by rw [fieldAt, if_neg hidx]; rfl)
        simp only [DictReader.fill, if_neg hidx, hfields]
        exact ih memory helper target hnodup hnew

theorem ascending_rowFields (values : List Bytes) (columns : Columns) :
    Ascending Prod.fst (rowFields values columns.entries) := by
  apply columns.ascending.filterMap
  intro left right hless field hfield other hother
  obtain ⟨_, _, rfl⟩ := Option.map_eq_some_iff.1 hfield
  obtain ⟨_, _, rfl⟩ := Option.map_eq_some_iff.1 hother
  exact hless

theorem fill_empty (values : List Bytes) (memory : Option ℕ) (columns : Columns) :
    (DictReader.fill values memory columns.entries 0 .empty).2.entries =
      allowed memory (rowFields values columns.entries) := by
  have hperm := (fill_spec values memory columns.entries 0 .empty
    (toFlatMap columns).nodup_keys fun _ _ => SortedMap.find_empty).2
  have hsorted : Ascending Prod.fst (allowed memory (rowFields values columns.entries)) := by
    cases memory with
    | none => exact ascending_rowFields values columns
    | some count => exact (ascending_rowFields values columns).sublist (List.take_sublist ..)
  apply hperm.eq_of_pairwise _ (SortedMap.ascending _) hsorted
  exact fun left right _ _ hless hgreater => absurd hless hgreater.asymm

/-- A row that is emplaced as a whole, and one where an allocation behind `clear()`
fails. -/
theorem refill_spec (memory : Option ℕ) (values : List Bytes) (columns : Columns) :
    ((∀ count, memory = some count → (rowFields values columns.entries).length < count) →
        (DictReader.refill memory values columns).1 = .ok true ∧
          (DictReader.refill memory values columns).2.entries =
            rowFields values columns.entries) ∧
      ∀ count, memory = some count → count ≤ (rowFields values columns.entries).length →
        (DictReader.refill memory values columns).1 = .error .badAlloc ∧
          (DictReader.refill memory values columns).2.entries =
            (rowFields values columns.entries).take (count - 1) := by
  have hresult := fun memory => (fill_spec values memory columns.entries 0 .empty
    (toFlatMap columns).nodup_keys fun _ _ => SortedMap.find_empty).1
  have hentries := fun memory => fill_empty values memory columns
  rw [DictReader.refill]
  constructor
  · intro henough
    have hall : allowed (memory.map (· - 1)) (rowFields values columns.entries) =
        rowFields values columns.entries := by
      cases memory with
      | none => rfl
      | some count => exact List.take_of_length_le (Nat.le_sub_one_of_lt (henough count rfl))
    have hmemory : memory ≠ some 0 := fun hzero => nomatch henough 0 hzero
    rw [if_neg hmemory, hresult, hentries, if_pos hall]
    exact ⟨rfl, hall⟩
  · rintro count rfl hcount
    cases count with
    | zero => exact ⟨rfl, rfl⟩
    | succ count =>
        rw [if_neg (by simp), hresult, hentries, if_neg]
        · exact ⟨rfl, rfl⟩
        · intro hall
          have hlength := congrArg List.length hall
          rw [show allowed _ _ = List.take count _ from rfl, List.length_take] at hlength
          omega

theorem fill_same (values : List Bytes) {columns : Columns} {flat : ColumnMapping}
    (hsame : SameEntries columns flat) :
    SameEntries (DictReader.refill none values columns).2 (flat.filterMap (fieldAt values)) := by
  have hentries := ((refill_spec none values columns).1 nofun).2
  rw [SameEntries, hentries]
  exact hsame.filterMap _

/-- `get_data()` on both levels. -/
theorem Refines.getDataInto (hrefines : Refines reader abstract) {target : Values}
    {flat : ValuesMapping} (htarget : SameEntries target flat) :
    (reader.getDataInto {} target).1 = (abstract.getDataInto flat).1 ∧
      Refines (reader.getDataInto {} target).2.1 (abstract.getDataInto flat).2.1 ∧
      SameEntries (reader.getDataInto {} target).2.2 (abstract.getDataInto flat).2.2 := by
  have hcolumns := hrefines.columns
  obtain ⟨hresult, hafter⟩ := hrefines.next
  simp only [DictReader.getDataInto, DictReader.nextWithin, CsvDictReader.getDataInto]
  generalize reader.columns = sorted at hcolumns
  generalize abstract.columns = header at hcolumns
  generalize reader.next = called at hresult hafter
  generalize abstract.next = abstractCalled at hresult hafter
  obtain ⟨result, after⟩ := called
  obtain ⟨_, abstractAfter⟩ := abstractCalled
  obtain rfl := hresult
  cases hcolumns with
  | none => exact ⟨rfl, hrefines, htarget⟩
  | @some columns _ hsame =>
      cases result with
      | error failure => exact ⟨rfl, hafter, htarget⟩
      | ok more =>
          cases more with
          | false => exact ⟨rfl, hafter, htarget⟩
          | true =>
              have hvalues : after.values = abstractAfter.values := hafter.values
              simp only [hvalues]
              cases abstractAfter.values with
              | none => exact ⟨rfl, hafter, htarget⟩
              | some values =>
                  have hfilled := ((refill_spec none values columns).1 nofun).1
                  exact ⟨hfilled, hafter, fill_same values hsame⟩

theorem getData_reader (reader : DictReader) (memory : DictReader.Memory) :
    (reader.getData memory).2 = (reader.getDataInto memory .empty).2.1 := by
  rw [DictReader.getData]
  split <;> simp [*]

theorem abstract_getData_reader (reader : CsvDictReader) :
    reader.getData.2 = (reader.getDataInto .empty).2.1 := by
  rw [CsvDictReader.getData]
  split <;> simp [*]

/-- The call as a call of the abstract reader, if no allocation fails in it. -/
inductive AbstractCall : DictReader.Call → Call → Prop
  | next : AbstractCall (.next none) .next
  | getDataInto (target : Values) :
      AbstractCall (.getDataInto {} target) (.getDataInto (toFlatMap target))
  | getData : AbstractCall (.getData {}) .getData

theorem Refines.perform (hrefines : Refines reader abstract) {call : DictReader.Call}
    {abstractCall : Call} (hcall : AbstractCall call abstractCall) :
    Refines (reader.perform call) (perform abstract abstractCall).2 := by
  cases hcall with
  | next => exact hrefines.next.2
  | getDataInto target =>
      have htarget : SameEntries target (toFlatMap target) := List.Perm.refl _
      exact (hrefines.getDataInto htarget).2.1
  | getData =>
      have hempty : SameEntries (.empty : Values) .empty := List.Perm.refl _
      have hinto := (hrefines.getDataInto hempty).2.1
      rwa [← getData_reader, ← abstract_getData_reader] at hinto

/-- As long as no allocation fails, the two levels stay together whatever is called, and
give the same fields. -/
theorem Refines.performAll (hrefines : Refines reader abstract) {calls : List DictReader.Call}
    {abstractCalls : List Call} (hcalls : List.Forall₂ AbstractCall calls abstractCalls) :
    Refines (reader.performAll calls) (performAll abstract abstractCalls) ∧
      ∀ col, (reader.performAll calls).getField col =
        (performAll abstract abstractCalls).getField col := by
  have hrun : Refines (reader.performAll calls) (CsvCalls.performAll abstract abstractCalls) := by
    induction hcalls generalizing reader abstract with
    | nil => exact hrefines
    | cons hcall hcalls ih =>
        rw [DictReader.performAll, List.foldl_cons, CsvCalls.performAll, List.foldl_cons]
        exact ih (hrefines.perform hcall)
  exact ⟨hrun, hrun.getField⟩

/-! ## Access by name -/

end Nstl.CsvDictionary
