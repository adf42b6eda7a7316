import Nstl.Core.ByteString

/-!
# The escaped-list tokenizer

A single left-to-right pass over a line.  An escape character gives the next
character a literal meaning, or names a newline; an unescaped quote toggles
quoting and is dropped; a separator outside quotes ends the field.  The pass
yields its fields lazily, so a malformed escape still leaves the fields before
it delivered: both are part of the result.
-/

namespace Nstl.EscapedList

open Nstl.ByteString

/-- The three characters that steer the pass. -/
structure Separator where
  escape : Byte
  separator : Byte
  quote : Byte
  deriving DecidableEq

inductive EscapeError where
  | cannotEndWithEscape
  | unknownEscapeSequence
  deriving DecidableEq, Repr

/-- The fields delivered by a pass, and the error that cut it short. -/
structure Scan where
  fields : List Bytes
  failure : Option EscapeError
  deriving DecidableEq, Repr

/-- Deliver `field` before everything in `scan`. -/
def Scan.deliver (field : Bytes) (scan : Scan) : Scan :=
  { scan with fields := field :: scan.fields }

/-- The character denoted by the one that follows an escape. -/
def unescape (sep : Separator) (ch : Byte) : Except EscapeError Byte :=
  if ch = letterN then .ok newline
  else if ch = sep.quote then .ok ch
  else if ch = sep.separator then .ok ch
  else if ch = sep.escape then .ok ch
  else .error .unknownEscapeSequence

/-- Continue a pass inside the field `field`, with `inQuote` telling whether an
odd number of unescaped quotes has been seen since the field began. -/
def scanFrom (sep : Separator) (inQuote : Bool) (field : Bytes) :
    Bytes → Scan
  | [] => ⟨[field], none⟩
  | ch :: rest =>
      if ch = sep.escape then
        match rest with
        | [] => ⟨[], some .cannotEndWithEscape⟩
        | escaped :: rest =>
            match unescape sep escaped with
            | .ok literal => scanFrom sep inQuote (field ++ [literal]) rest
            | .error failure => ⟨[], some failure⟩
      else if ch = sep.separator then
        if inQuote then scanFrom sep inQuote (field ++ [ch]) rest
        else (scanFrom sep false [] rest).deliver field
      else if ch = sep.quote then scanFrom sep (!inQuote) field rest
      else scanFrom sep inQuote (field ++ [ch]) rest

/-- A whole pass.  Empty input has no field at all, whereas a trailing
separator opens one more, empty, field. -/
def scan (sep : Separator) (text : Bytes) : Scan :=
  if text = [] then ⟨[], none⟩ else scanFrom sep false [] text

@[simp]
theorem scan_nil (sep : Separator) : scan sep [] = ⟨[], none⟩ := rfl

theorem scan_of_ne_nil (sep : Separator) {text : Bytes} (htext : text ≠ []) :
    scan sep text = scanFrom sep false [] text :=
  if_neg htext

@[simp]
theorem scanFrom_nil (sep : Separator) (inQuote : Bool) (field : Bytes) :
    scanFrom sep inQuote field [] = ⟨[field], none⟩ := by
  rw [scanFrom]

private theorem scanFrom_unescaped (sep : Separator) {ch : Byte}
    (hescape : ch ≠ sep.escape) (inQuote : Bool) (field rest : Bytes) :
    scanFrom sep inQuote field (ch :: rest) =
      if ch = sep.separator then
        if inQuote then scanFrom sep inQuote (field ++ [ch]) rest
        else (scanFrom sep false [] rest).deliver field
      else if ch = sep.quote then scanFrom sep (!inQuote) field rest
      else scanFrom sep inQuote (field ++ [ch]) rest := by
  rw [scanFrom.eq_def]
  exact if_neg hescape

/-- A separator that differs from the escape ends an unquoted field. -/
theorem scanFrom_separator (sep : Separator)
    (hescape : sep.separator ≠ sep.escape) (field rest : Bytes) :
    scanFrom sep false field (sep.separator :: rest) =
      (scanFrom sep false [] rest).deliver field := by
  rw [scanFrom_unescaped sep hescape, if_pos rfl]
  rfl

/-- A quote that differs from the other two characters only toggles quoting. -/
theorem scanFrom_quote (sep : Separator) (hescape : sep.quote ≠ sep.escape)
    (hseparator : sep.quote ≠ sep.separator) (inQuote : Bool)
    (field rest : Bytes) :
    scanFrom sep inQuote field (sep.quote :: rest) =
      scanFrom sep (!inQuote) field rest := by
  rw [scanFrom_unescaped sep hescape, if_neg hseparator, if_pos rfl]

/-- An escape sequence contributes the character it denotes. -/
theorem scanFrom_escape (sep : Separator) {escaped literal : Byte}
    (hescaped : unescape sep escaped = .ok literal) (inQuote : Bool)
    (field rest : Bytes) :
    scanFrom sep inQuote field (sep.escape :: escaped :: rest) =
      scanFrom sep inQuote (field ++ [literal]) rest := by
  rw [scanFrom, if_pos rfl]
  simp only [hescaped]

/-- A character without a special meaning stands for itself, and so does a
separator inside quotes. -/
theorem scanFrom_literal (sep : Separator) (inQuote : Bool) {ch : Byte}
    (hescape : ch ≠ sep.escape) (hquote : ch ≠ sep.quote)
    (hseparator : ch = sep.separator → inQuote = true) (field rest : Bytes) :
    scanFrom sep inQuote field (ch :: rest) =
      scanFrom sep inQuote (field ++ [ch]) rest := by
  rw [scanFrom_unescaped sep hescape]
  by_cases hch : ch = sep.separator
  · rw [if_pos hch, if_pos (hseparator hch)]
  · rw [if_neg hch, if_neg hquote]

/-- A run of characters without a special meaning is appended as it is. -/
theorem scanFrom_plain (sep : Separator) (inQuote : Bool) (plain : Bytes)
    (hplain : ∀ ch ∈ plain,
      ch ≠ sep.escape ∧ ch ≠ sep.separator ∧ ch ≠ sep.quote)
    (field rest : Bytes) :
    scanFrom sep inQuote field (plain ++ rest) =
      scanFrom sep inQuote (field ++ plain) rest := by
  induction plain generalizing field with
  | nil => simp
  | cons ch plain ih =>
      obtain ⟨hescape, hseparator, hquote⟩ := hplain ch List.mem_cons_self
      rw [List.cons_append,
        scanFrom_literal sep inQuote hescape hquote
          (fun heq => absurd heq hseparator),
        ih fun other hother => hplain other (List.mem_cons_of_mem _ hother)]
      simp

end Nstl.EscapedList
