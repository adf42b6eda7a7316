import Mathlib.Data.List.Basic
import Mathlib.Data.List.TakeWhile

/-!
# Byte strings and the C string operations on them

Every text handled below is a list of bytes: no encoding is assumed and the
NUL byte is a value like any other.  The operations of the C and C++ standard
libraries that do treat NUL specially are spelled out here, together with the
line splitting performed by `std::getline`.
-/

namespace Nstl.ByteString

abbrev Byte := UInt8
abbrev Bytes := List Byte

/-- The terminator `'\0'` of C strings. -/
def nul : Byte := 0

/-- The line delimiter `'\n'`. -/
def newline : Byte := 10

/-- The letter `'n'`, which names the newline inside an escape sequence. -/
def letterN : Byte := 110

/-- The C string stored at the start of a character array: everything before
the first NUL. -/
def cString (chars : Bytes) : Bytes :=
  chars.takeWhile (· ≠ nul)

/-- `std::string_view::find_first_of(const char*)`: the position of the first
character of `data` that occurs in the C string `chars`. -/
def findFirstOf (data chars : Bytes) : Option ℕ :=
  data.findIdx? fun ch => ch ∈ cString chars

theorem findFirstOf_eq_none_iff (data chars : Bytes) :
    findFirstOf data chars = none ↔ ∀ ch ∈ data, ch ∉ cString chars := by
  simp [findFirstOf, List.findIdx?_eq_none_iff]

/-- `strnlen`: the length of the C string at the start of `buffer`, looking at
no more than `limit` characters. -/
def strnlen (buffer : Bytes) (limit : ℕ) : ℕ :=
  (cString (buffer.take limit)).length

/-- In a buffer that holds a terminated text, `strnlen` finds the terminator
unless the limit comes first. -/
theorem strnlen_terminated {text : Bytes} (hnul : nul ∉ text) (rest : Bytes)
    (limit : ℕ) : strnlen (text ++ nul :: rest) limit = min limit text.length := by
  have hplain : ∀ part : Bytes, (∀ ch ∈ part, ch ∈ text) →
      ∀ ch ∈ part, decide (ch ≠ nul) = true := by
    intro part hpart ch hch
    have hne : ch ≠ nul := fun heq => hnul (heq ▸ hpart ch hch)
    simpa using hne
  rw [strnlen, cString]
  by_cases hlimit : limit ≤ text.length
  · rw [List.take_append_of_le_length hlimit,
      List.takeWhile_eq_self_iff.2 (hplain _ fun ch hch => List.mem_of_mem_take hch),
      List.length_take]
  · obtain ⟨more, rfl⟩ : ∃ more, limit = text.length + (more + 1) :=
      ⟨limit - text.length - 1, by omega⟩
    rw [List.take_length_add_append, List.take_succ_cons,
      List.takeWhile_append_of_pos (hplain _ fun ch hch => hch),
      List.takeWhile_cons_of_neg (by simp), List.append_nil]
    omega

/-- The strings that successive calls of `std::getline` extract from a stream
holding `text`.  A final delimiter does not open a further, empty line. -/
def lines : Bytes → List Bytes
  | [] => []
  | ch :: rest =>
      if ch = newline then
        [] :: lines rest
      else
        match lines rest with
        | [] => [[ch]]
        | line :: others => (ch :: line) :: others

/-- A line written with its delimiter is extracted first and unchanged. -/
theorem lines_append_newline (line rest : Bytes) (hline : newline ∉ line) :
    lines (line ++ newline :: rest) = line :: lines rest := by
  induction line with
  | nil => simp [lines]
  | cons ch line ih =>
      simp only [List.mem_cons, not_or] at hline
      rw [List.cons_append, lines, if_neg (Ne.symm hline.1), ih hline.2]

/-- Lines that are each followed by the delimiter are extracted one by one. -/
theorem lines_flatMap_newline (texts : List Bytes)
    (htexts : ∀ text ∈ texts, newline ∉ text) :
    lines (texts.flatMap fun text => text ++ [newline]) = texts := by
  induction texts with
  | nil => rfl
  | cons text texts ih =>
      rw [List.flatMap_cons, List.append_assoc, List.singleton_append,
        lines_append_newline text _ (htexts text List.mem_cons_self),
        ih fun other hother => htexts other (List.mem_cons_of_mem _ hother)]

/-! ## Copies to the stack -/

/-- `strncpy`: the C string of the source, cut off at `count` or padded with NUL up to
it, in front of what the buffer holds behind it. -/
def strncpy (buffer source : Bytes) (count : ℕ) : Bytes :=
  let copied := cString (source.take count)
  copied ++ List.replicate (count - copied.length) nul ++ buffer.drop count

/-- `std::array<char, size>` on the stack, with whatever it holds before it is used. -/
structure CharArray (size : ℕ) where
  bytes : Bytes
  size_eq : bytes.length = size

/-- A copy of a view with a terminator behind it, in a buffer that has room for both. -/
def terminatedCopy (buffer view : Bytes) : Bytes :=
  (strncpy buffer view view.length).set view.length nul

theorem length_cString_le (chars : Bytes) : (cString chars).length ≤ chars.length :=
  (List.takeWhile_prefix _).length_le

theorem nul_notMem_cString (chars : Bytes) : nul ∉ cString chars := by
  intro hmem
  simpa using List.mem_takeWhile_imp hmem

theorem cString_eq_self_iff (chars : Bytes) : cString chars = chars ↔ nul ∉ chars := by
  rw [cString, List.takeWhile_eq_self_iff]
  constructor
  · intro hall hmem
    simpa using hall nul hmem
  · intro hnul ch hch
    simpa using fun heq : ch = nul => hnul (heq ▸ hch)

/-- What stands before a NUL is read back as a C string. -/
theorem cString_append_nul {text : Bytes} (hnul : nul ∉ text) (rest : Bytes) :
    cString (text ++ nul :: rest) = text := by
  have hplain : ∀ ch ∈ text, decide (ch ≠ nul) = true := by
    intro ch hch
    simpa using fun heq : ch = nul => hnul (heq ▸ hch)
  rw [cString, List.takeWhile_append_of_pos hplain]
  simp

/-- The copy is the C string of the view with a NUL behind it. -/
theorem terminatedCopy_eq {buffer view : Bytes} (hroom : view.length < buffer.length) :
    ∃ rest, terminatedCopy buffer view = cString view ++ nul :: rest := by
  have hlength := length_cString_le view
  have hfilled : (cString view ++
      List.replicate (view.length - (cString view).length) nul).length = view.length := by
    rw [List.length_append, List.length_replicate]
    omega
  have hcopy : terminatedCopy buffer view =
      cString view ++ (List.replicate (view.length - (cString view).length) nul ++
        nul :: buffer.drop (view.length + 1)) := by
    rw [terminatedCopy, strncpy, List.take_length, List.drop_eq_getElem_cons hroom,
      List.set_append_right _ _ (Nat.le_of_eq hfilled), hfilled, Nat.sub_self,
      List.set_cons_zero, List.append_assoc]
  rw [hcopy]
  cases view.length - (cString view).length with
  | zero => exact ⟨_, rfl⟩
  | succ padding => exact ⟨_, rfl⟩

/-- The copy is read back up to the first NUL of the view. -/
theorem cString_terminatedCopy {buffer view : Bytes} (hroom : view.length < buffer.length) :
    cString (terminatedCopy buffer view) = cString view := by
  obtain ⟨rest, hcopy⟩ := terminatedCopy_eq hroom
  rw [hcopy, cString_append_nul (nul_notMem_cString view)]

end Nstl.ByteString
