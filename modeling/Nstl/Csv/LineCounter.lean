import Mathlib.Algebra.Group.Nat.Defs
import Nstl.Csv.Calls

/-!
# The line counter of the reader

When a row has the wrong number of fields, `next()` throws and reports `_line`.  The
counter is advanced by the step of the loop only, which `return` and `throw` leave
out: it moves past the lines that are skipped and stays where it is on all others.
-/

namespace Nstl.CsvLineCounter

open Nstl.ByteString
open Nstl.CsvCalls
open Nstl.CsvLine
open Nstl.CsvReader
open Nstl.EscapedList

/-- How many of the lines are skipped. -/
def skippedCount (config : CsvParseConfig) (read : List Bytes) : ℕ :=
  read.countP (Skipped config ·)

theorem skippedCount_le (config : CsvParseConfig) (read : List Bytes) :
    skippedCount config read ≤ read.length :=
  List.countP_le_length

theorem skippedCount_append (config : CsvParseConfig) (read more : List Bytes) :
    skippedCount config (read ++ more) = skippedCount config read + skippedCount config more :=
  List.countP_append ..

theorem skippedCount_eq_length_iff (config : CsvParseConfig) (read : List Bytes) :
    skippedCount config read = read.length ↔ ∀ data ∈ read, Skipped config data := by
  simp [skippedCount, List.countP_eq_length]

/-- From one state of a reader to a later one the lines `read` were taken from the
stream. -/
structure Reads (before : CsvDictReader) (read : List Bytes) (after : CsvDictReader) :
    Prop where
  config : after.config = before.config
  columns : after.columns = before.columns
  iss : before.iss = read ++ after.iss
  line : after.line = before.line + .ofNat (skippedCount before.config read)

theorem Reads.refl (reader : CsvDictReader) : Reads reader [] reader where
  config := rfl
  columns := rfl
  iss := rfl
  line := by simp [skippedCount]

theorem Reads.trans {first second third : CsvDictReader} {read more : List Bytes}
    (hread : Reads first read second) (hmore : Reads second more third) :
    Reads first (read ++ more) third where
  config := hmore.config.trans hread.config
  columns := hmore.columns.trans hread.columns
  iss := by rw [hread.iss, hmore.iss, List.append_assoc]
  line := by
    rw [hmore.line, hread.line, hread.config, skippedCount_append, UInt32.ofNat_add,
      UInt32.add_assoc]

/-- One call: the skipped lines, and the data line if there is one. -/
theorem next_reads (reader : CsvDictReader) : ∃ read, Reads reader read reader.next.2 := by
  obtain ⟨skipped, hall, hsplit⟩ := nextFrom_split reader reader.iss
  rw [CsvDictReader.next]
  rcases hsplit with ⟨hiss, hended⟩ | ⟨data, rest, hiss, hdata, hread⟩
  · rw [hended]
    refine ⟨skipped, rfl, rfl, by simpa using hiss, ?_⟩
    rw [(skippedCount_eq_length_iff _ _).2 hall]
  · rw [hread, readLine_reader]
    refine ⟨skipped ++ [data], rfl, rfl, by simpa using hiss, ?_⟩
    have hcount : skippedCount reader.config (skipped ++ [data]) = skipped.length := by
      rw [skippedCount_append, (skippedCount_eq_length_iff _ _).2 hall]
      simp [skippedCount, hdata]
    rw [hcount]

theorem nthReader_reads (reader : CsvDictReader) (k : ℕ) :
    ∃ read, Reads reader read (nthReader reader k) := by
  induction k generalizing reader with
  | zero => exact ⟨[], .refl reader⟩
  | succ k ih =>
      obtain ⟨read, hread⟩ := next_reads reader
      obtain ⟨more, hmore⟩ := ih reader.next.2
      exact ⟨read ++ more, hread.trans hmore⟩

/-- Any calls: only those of `next()` take lines from the stream. -/
theorem performAll_reads (reader : CsvDictReader) (calls : List Call) :
    ∃ read, Reads reader read (performAll reader calls) := by
  rw [performAll_eq]
  exact nthReader_reads reader _

theorem readLine_mismatch {reader : CsvDictReader} {data : Bytes} {line : UInt32}
    (hthrow : (reader.readLine data).1 = .error (.columnCountMismatch line)) :
    line = reader.line ∧ ∃ header, reader.columns = some header ∧
      (scan reader.config.separator data).fields.length ≠ header.size := by
  simp only [CsvDictReader.readLine] at hthrow
  repeat' split at hthrow
  all_goals simp_all

/-- The throwing call: the lines it skipped are counted, the offending one is not. -/
theorem next_mismatch {reader : CsvDictReader} {line : UInt32}
    (hthrow : reader.next.1 = .error (.columnCountMismatch line)) :
    ∃ skipped offending rest, (∀ data ∈ skipped, Skipped reader.config data) ∧
      ¬Skipped reader.config offending ∧
      reader.iss = skipped ++ offending :: rest ∧ reader.next.2.iss = rest ∧
      line = reader.line + .ofNat skipped.length ∧
      ∃ header, reader.columns = some header ∧
        (scan reader.config.separator offending).fields.length ≠ header.size := by
  obtain ⟨skipped, hall, hsplit⟩ := nextFrom_split reader reader.iss
  rw [CsvDictReader.next] at hthrow ⊢
  rcases hsplit with ⟨hiss, hended⟩ | ⟨data, rest, hiss, hdata, hread⟩
  · rw [hended] at hthrow
    cases hthrow
  · rw [hread] at hthrow ⊢
    obtain ⟨hline, header, hheader, hcount⟩ := readLine_mismatch hthrow
    refine ⟨skipped, data, rest, hall, hdata, hiss, ?_, hline, header, hheader, hcount⟩
    rw [readLine_reader]

/-- A reader with a header starts to count at the line behind it. -/
theorem construct_iss {text : Bytes} {config : CsvParseConfig} {reader : CsvDictReader}
    (hconstruct : CsvDictReader.construct text config = .ok reader)
    (hheader : reader.columns.isSome = true) :
    (∃ headerLine, lines text = headerLine :: reader.iss) ∧ reader.line = 1 := by
  unfold CsvDictReader.construct at hconstruct
  split at hconstruct
  next => cases hconstruct
  next columns rest hparse =>
    obtain ⟨hheaded, hrest, -⟩ := parseColumns_eq hparse
    obtain rfl := Except.ok.inj hconstruct
    have hparseHeaders : config.parseHeaders = true := hheaded.symm.trans hheader
    refine ⟨?_, rfl⟩
    cases hlines : lines text with
    | nil => simp [parseColumns, hlines, hparseHeaders] at hparse
    | cons headerLine others =>
        refine ⟨headerLine, ?_⟩
        simp [hrest, hlines, hparseHeaders]

/-- A counter of 32 bits tells the number of lines in front exactly if none of them was
left out and the number fits. -/
theorem ofNat_toNat_eq_iff {counted total : ℕ} (hcounted : counted ≤ total) :
    (1 + UInt32.ofNat counted).toNat = total + 1 ↔ counted = total ∧ total + 1 < 2 ^ 32 := by
  rw [UInt32.toNat_add, UInt32.toNat_ofNat']
  simp
  omega

/-- Whenever, after any calls, `next()` throws because of the number of fields, the line
it reports is the position of the offending line among the lines read since construction
exactly if all lines in front of it were skipped and the position fits into the counter. -/
theorem reported_line_iff {text : Bytes} {config : CsvParseConfig} {reader : CsvDictReader}
    (hconstruct : CsvDictReader.construct text config = .ok reader) (calls : List Call)
    {line : UInt32}
    (hthrow : (performAll reader calls).next.1 = .error (.columnCountMismatch line)) :
    ∃ headerLine read offending rest,
      lines text = headerLine :: (read ++ offending :: rest) ∧
      (performAll reader calls).next.2.iss = rest ∧
      (∃ header, reader.header = some header ∧
        (scan config.separator offending).fields.length ≠ header.size) ∧
      (line.toNat = read.length + 1 ↔
        (∀ data ∈ read, Skipped config data) ∧ read.length + 1 < 2 ^ 32) := by
  obtain ⟨earlier, hearlier⟩ := performAll_reads reader calls
  obtain ⟨skipped, offending, rest, hall, -, hiss, hrest, hline, header, hheader, hcount⟩ :=
    next_mismatch hthrow
  rw [hearlier.config] at hall hcount
  rw [hearlier.columns] at hheader
  have hconfig : reader.config = config := (construct_constructed hconstruct).configured
  obtain ⟨⟨headerLine, hlines⟩, hone⟩ :=
    construct_iss hconstruct (Option.isSome_of_eq_some hheader)
  rw [hconfig] at hall hcount
  refine ⟨headerLine, earlier ++ skipped, offending, rest, ?_, hrest,
    ⟨header, hheader, hcount⟩, ?_⟩
  · rw [hlines, hearlier.iss, hiss, List.append_assoc]
  · -- Both calls so far and this one have moved the counter by the lines they skipped.
    have hcounted : line = 1 + .ofNat (skippedCount config (earlier ++ skipped)) := by
      rw [hline, hearlier.line, hone, hconfig, UInt32.add_assoc, ← UInt32.ofNat_add,
        ← (skippedCount_eq_length_iff _ _).2 hall, skippedCount_append]
    rw [hcounted, ofNat_toNat_eq_iff (skippedCount_le _ _), skippedCount_eq_length_iff]

/-- A comment in front of the line with one field. -/
theorem reported_line_behind_comment :
    ∃ reader, CsvDictReader.construct [97, 44, 98, 10, 35, 10, 49] {} = .ok reader ∧
      reader.next.1 = .error (.columnCountMismatch 2) ∧ Skipped {} [35] := by
  have hconstruct : CsvDictReader.construct [97, 44, 98, 10, 35, 10, 49] {} =
      .ok { unevenReader with iss := [[35], [49]] } := rfl
  have hthrow : (performAll { unevenReader with iss := [[35], [49]] } []).next.1 =
      .error (.columnCountMismatch 2) := rfl
  obtain ⟨headerLine, read, offending, rest, hlines, hrest, -, hiff⟩ :=
    reported_line_iff hconstruct [] hthrow
  have hread : read = [[35]] := by
    have htail : [[35]] ++ [[49]] = read ++ offending :: rest := (List.cons.inj hlines).2
    rw [show rest = [] from hrest.symm] at htail
    exact (List.append_inj' htail rfl).1.symm
  rw [hread] at hiff
  exact ⟨_, hconstruct, hthrow, (hiff.1 rfl).1 [35] List.mem_cons_self⟩

/-- The header `a,b`, a row that is returned and a row with one field: the second of
the two lines is reported as the first. -/
theorem returned_line_not_counted :
    ∃ reader, CsvDictReader.construct [97, 44, 98, 10, 50, 44, 51, 10, 49] {} = .ok reader ∧
      reader.iss = [[50, 44, 51], [49]] ∧
      reader.next.1 = .ok true ∧ reader.next.2.next.2.iss = [] ∧
      reader.next.2.next.1 = .error (.columnCountMismatch 1) :=
  ⟨{ unevenReader with iss := [[50, 44, 51], [49]] }, rfl, rfl, rfl, rfl, rfl⟩

end Nstl.CsvLineCounter
