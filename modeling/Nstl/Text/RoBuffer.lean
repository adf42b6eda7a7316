import Mathlib.Data.List.Basic
import Mathlib.Logic.Function.Basic

/-!
# Read-only stream buffers

`basic_ro_buffer` lets a stream read characters that belong to somebody else.  It casts their
constness away, so it is up to the stream buffer never to write: its put area is empty, and the
virtual functions for writing, flushing and putting back all fail.

All public operations of `std::basic_streambuf` are modelled on its six pointers, its locale and a
memory, for any number of buffers that may overlap and be swapped; the virtual functions that the
class does not override are those of the base class.  What a buffer is for is a cursor in a text.
-/

namespace Nstl.RoBuffer

open Function

variable {Char Name Locale : Type*}

/-! ## The stream buffer -/

abbrev Memory (Char : Type*) := ℕ → Char

/-- The pointers of a stream buffer, and its locale. -/
structure Buffer (Locale : Type*) where
  eback : ℕ
  gptr : ℕ
  egptr : ℕ
  pbase : ℕ
  pptr : ℕ
  epptr : ℕ
  locale : Locale
  deriving DecidableEq, Repr

/-- "nullptr with non-null size (" with the size and `')'` after it -/
structure NullError where
  size : ℕ
  deriving DecidableEq, Repr

/-- The constructor, where none is `nullptr`.  The locale is the global one at that time. -/
def construct (locale : Locale) (ptr : Option ℕ) (size : ℕ) :
    Except NullError (Buffer Locale) :=
  if ptr = none && 0 < size then .error ⟨size⟩
  else
    let begin := ptr.getD 0
    .ok ⟨begin, begin, begin + size, begin, begin, begin, locale⟩

def Buffer.readBytes (buffer : Buffer Locale) : ℕ := buffer.gptr - buffer.eback

def Buffer.content (buffer : Buffer Locale) (memory : Memory Char) : List Char :=
  (List.range (buffer.egptr - buffer.eback)).map fun idx => memory (buffer.eback + idx)

/-- The operations that a stream has. -/
inductive Op (Char Name Locale : Type*) where
  | inAvail (name : Name)
  | sgetc (name : Name)
  | sbumpc (name : Name)
  | snextc (name : Name)
  | sgetn (name : Name) (count : ℕ)
  | sungetc (name : Name)
  | sputbackc (name : Name) (ch : Char)
  | sputc (name : Name) (ch : Char)
  | sputn (name : Name) (chars : List Char)
  | pubsync (name : Name)
  | pubsetbuf (name : Name) (ptr : Option ℕ) (size : ℕ)
  | pubseekoff (name : Name) (off : Int)
  | pubseekpos (name : Name) (pos : Int)
  | pubimbue (name : Name) (locale : Locale)
  | getloc (name : Name)
  | swap (left right : Name)

/-- What an operation returns. -/
inductive Result (Char Locale : Type*) where
  /-- A character, or none for `eof`. -/
  | char (ch : Option Char)
  | chars (chars : List Char)
  | count (count : ℕ)
  /-- The result of `sync`, or a position, which is -1 if there is none. -/
  | status (status : Int)
  | locale (locale : Locale)
  /-- `this` -/
  | self
  | nothing

structure State (Char Name Locale : Type*) where
  memory : Memory Char
  buffers : Name → Buffer Locale

namespace Buffer

variable (memory : Memory Char) (buffer : Buffer Locale)

/-- `showmanyc` of the base class gives 0. -/
def inAvail : ℕ := if buffer.gptr < buffer.egptr then buffer.egptr - buffer.gptr else 0

/-- `underflow` gives `eof`. -/
def sgetc : Option Char := if buffer.gptr < buffer.egptr then some (memory buffer.gptr) else none

/-- `uflow` calls `underflow`. -/
def sbumpc : Option Char × Buffer Locale :=
  if buffer.gptr < buffer.egptr then
    (some (memory buffer.gptr), { buffer with gptr := buffer.gptr + 1 })
  else (none, buffer)

def snextc : Option Char × Buffer Locale :=
  match buffer.sbumpc memory with
  | (none, next) => (none, next)
  | (some _, next) => (next.sgetc memory, next)

/-- `xsgetn` of the base class takes characters until `uflow` gives `eof`. -/
def sgetn : ℕ → Buffer Locale → List Char × Buffer Locale
  | 0, buffer => ([], buffer)
  | count + 1, buffer =>
      match buffer.sbumpc memory with
      | (none, next) => ([], next)
      | (some ch, next) =>
          let rest := sgetn count next
          (ch :: rest.1, rest.2)

/-- `pbackfail` gives `eof`. -/
def sungetc : Option Char × Buffer Locale :=
  if buffer.eback < buffer.gptr then
    (some (memory (buffer.gptr - 1)), { buffer with gptr := buffer.gptr - 1 })
  else (none, buffer)

def sputbackc [DecidableEq Char] (ch : Char) : Option Char × Buffer Locale :=
  if buffer.eback < buffer.gptr ∧ ch = memory (buffer.gptr - 1) then
    (some ch, { buffer with gptr := buffer.gptr - 1 })
  else (none, buffer)

/-- `overflow` gives `eof`. -/
def sputc (ch : Char) : Option Char × Memory Char × Buffer Locale :=
  if buffer.pptr < buffer.epptr then
    (some ch, update memory buffer.pptr ch, { buffer with pptr := buffer.pptr + 1 })
  else (none, memory, buffer)

/-- `xsputn` of the base class puts characters until `overflow` gives `eof`. -/
def sputn : List Char → Memory Char → Buffer Locale → ℕ × Memory Char × Buffer Locale
  | [], memory, buffer => (0, memory, buffer)
  | ch :: chars, memory, buffer =>
      match buffer.sputc memory ch with
      | (none, memory, next) => (0, memory, next)
      | (some _, memory, next) =>
          let rest := sputn chars memory next
          (rest.1 + 1, rest.2)

end Buffer

namespace State

variable [DecidableEq Name] (state : State Char Name Locale)

def set (name : Name) (buffer : Buffer Locale) : State Char Name Locale :=
  { state with buffers := update state.buffers name buffer }

variable [DecidableEq Char]

def execute : Op Char Name Locale → Result Char Locale × State Char Name Locale
  | .inAvail name => (.count (state.buffers name).inAvail, state)
  | .sgetc name => (.char ((state.buffers name).sgetc state.memory), state)
  | .sbumpc name =>
      let done := (state.buffers name).sbumpc state.memory
      (.char done.1, state.set name done.2)
  | .snextc name =>
      let done := (state.buffers name).snextc state.memory
      (.char done.1, state.set name done.2)
  | .sgetn name count =>
      let done := (state.buffers name).sgetn state.memory count
      (.chars done.1, state.set name done.2)
  | .sungetc name =>
      let done := (state.buffers name).sungetc state.memory
      (.char done.1, state.set name done.2)
  | .sputbackc name ch =>
      let done := (state.buffers name).sputbackc state.memory ch
      (.char done.1, state.set name done.2)
  | .sputc name ch =>
      let done := (state.buffers name).sputc state.memory ch
      (.char done.1, { state with memory := done.2.1 }.set name done.2.2)
  | .sputn name chars =>
      let done := Buffer.sputn chars state.memory (state.buffers name)
      (.count done.1, { state with memory := done.2.1 }.set name done.2.2)
  | .pubsync _ => (.status (-1), state)
  -- `setbuf`, `seekoff`, `seekpos` and `imbue` of the base class do nothing
  | .pubsetbuf _ _ _ => (.self, state)
  | .pubseekoff _ _ | .pubseekpos _ _ => (.status (-1), state)
  | .pubimbue name locale =>
      (.locale (state.buffers name).locale,
        state.set name { state.buffers name with locale := locale })
  | .getloc name => (.locale (state.buffers name).locale, state)
  | .swap left right =>
      (.nothing, (state.set left (state.buffers right)).set right (state.buffers left))

def run : List (Op Char Name Locale) → State Char Name Locale →
    List (Result Char Locale) × State Char Name Locale
  | [], state => ([], state)
  | op :: ops, state =>
      let done := state.execute op
      let rest := run ops done.2
      (done.1 :: rest.1, rest.2)

end State

/-! ## Cursors -/

/-- A place in a text, and the locale for it. -/
structure Cursor (Char Locale : Type*) where
  content : List Char
  pos : ℕ
  inside : pos ≤ content.length
  locale : Locale

namespace Cursor

variable (cursor : Cursor Char Locale)

def start (content : List Char) (locale : Locale) : Cursor Char Locale :=
  ⟨content, 0, Nat.zero_le _, locale⟩

def peek : Option Char := cursor.content[cursor.pos]?

def forward (count : ℕ) : Cursor Char Locale :=
  { cursor with
    pos := min (cursor.pos + count) cursor.content.length
    inside := Nat.min_le_right _ _ }

def back : Cursor Char Locale :=
  { cursor with
    pos := cursor.pos - 1
    inside := Nat.le_trans (Nat.sub_le _ _) cursor.inside }

/-- The character before the place. -/
def last : Option Char := if cursor.pos = 0 then none else cursor.content[cursor.pos - 1]?

variable [DecidableEq Char] [DecidableEq Name]

/-- What the operations are for, with the text as it is. -/
def execute (cursors : Name → Cursor Char Locale) :
    Op Char Name Locale → Result Char Locale × (Name → Cursor Char Locale)
  | .inAvail name => (.count ((cursors name).content.length - (cursors name).pos), cursors)
  | .sgetc name => (.char (cursors name).peek, cursors)
  | .sbumpc name => (.char (cursors name).peek, update cursors name ((cursors name).forward 1))
  | .snextc name =>
      (.char ((cursors name).forward 1).peek, update cursors name ((cursors name).forward 1))
  | .sgetn name count =>
      (.chars (((cursors name).content.drop (cursors name).pos).take count),
        update cursors name ((cursors name).forward count))
  | .sungetc name => (.char (cursors name).last, update cursors name (cursors name).back)
  | .sputbackc name ch =>
      if (cursors name).last = some ch then
        (.char (some ch), update cursors name (cursors name).back)
      else (.char none, cursors)
  | .sputc _ _ => (.char none, cursors)
  | .sputn _ _ => (.count 0, cursors)
  | .pubsync _ | .pubseekoff _ _ | .pubseekpos _ _ => (.status (-1), cursors)
  | .pubsetbuf _ _ _ => (.self, cursors)
  | .pubimbue name locale =>
      (.locale (cursors name).locale, update cursors name { cursors name with locale := locale })
  | .getloc name => (.locale (cursors name).locale, cursors)
  | .swap left right =>
      (.nothing, update (update cursors left (cursors right)) right (cursors left))

def run : List (Op Char Name Locale) → (Name → Cursor Char Locale) →
    List (Result Char Locale) × (Name → Cursor Char Locale)
  | [], cursors => ([], cursors)
  | op :: ops, cursors =>
      let done := execute cursors op
      let rest := run ops done.2
      (done.1 :: rest.1, rest.2)

end Cursor

/-! ## Refinement -/

/-- Cursors in one text are told apart by their places. -/
theorem Cursor.eq_of_pos {left right : Cursor Char Locale}
    (hcontent : left.content = right.content) (hlocale : left.locale = right.locale)
    (hpos : left.pos = right.pos) : left = right := by
  cases left
  cases right
  subst hcontent hlocale hpos
  rfl

/-- Without a character there the cursor is at the end. -/
theorem Cursor.pos_of_peek {cursor : Cursor Char Locale} (hpeek : cursor.peek = none) :
    cursor.pos = cursor.content.length :=
  Nat.le_antisymm cursor.inside (List.getElem?_eq_none_iff.1 hpeek)

theorem Cursor.pos_forward (cursor : Cursor Char Locale) (count : ℕ) :
    (cursor.forward count).pos = min (cursor.pos + count) cursor.content.length := rfl

/-- The buffer stands where the cursor does, its text is in the memory, and there is no room to
put anything. -/
structure Represents (memory : Memory Char) (buffer : Buffer Locale)
    (cursor : Cursor Char Locale) : Prop where
  text : ∀ idx < cursor.content.length,
    cursor.content[idx]? = some (memory (buffer.eback + idx))
  get : buffer.gptr = buffer.eback + cursor.pos
  size : buffer.egptr = buffer.eback + cursor.content.length
  put : buffer.epptr ≤ buffer.pptr
  locale : buffer.locale = cursor.locale

namespace Represents

variable {memory : Memory Char} {buffer : Buffer Locale} {cursor : Cursor Char Locale}

theorem content_eq (hrep : Represents memory buffer cursor) :
    buffer.content memory = cursor.content := by
  apply List.ext_getElem?
  intro idx
  have hsize : buffer.egptr - buffer.eback = cursor.content.length := by
    rw [hrep.size, Nat.add_sub_cancel_left]
  rw [Buffer.content, hsize, List.getElem?_map]
  by_cases hidx : idx < cursor.content.length
  · rw [List.getElem?_range hidx, hrep.text idx hidx, Option.map_some]
  · rw [List.getElem?_eq_none (by simpa using hidx),
      List.getElem?_eq_none (Nat.le_of_not_lt hidx), Option.map_none]

theorem readBytes_eq (hrep : Represents memory buffer cursor) :
    buffer.readBytes = cursor.pos := by
  rw [Buffer.readBytes, hrep.get, Nat.add_sub_cancel_left]

theorem lt_iff (hrep : Represents memory buffer cursor) :
    buffer.gptr < buffer.egptr ↔ cursor.pos < cursor.content.length := by
  rw [hrep.get, hrep.size, Nat.add_lt_add_iff_left]

theorem sgetc_eq (hrep : Represents memory buffer cursor) :
    buffer.sgetc memory = cursor.peek := by
  rw [Buffer.sgetc, Cursor.peek]
  by_cases hpos : cursor.pos < cursor.content.length
  · rw [if_pos (hrep.lt_iff.2 hpos), hrep.text _ hpos, hrep.get]
  · rw [if_neg (mt hrep.lt_iff.1 hpos), List.getElem?_eq_none (Nat.le_of_not_lt hpos)]

/-- The same buffer with the get pointer at another place. -/
theorem moved (hrep : Represents memory buffer cursor) {other : Cursor Char Locale}
    (hcontent : other.content = cursor.content) (hlocale : other.locale = cursor.locale) :
    Represents memory { buffer with gptr := buffer.eback + other.pos } other where
  text := hcontent ▸ hrep.text
  get := rfl
  size := hcontent ▸ hrep.size
  put := hrep.put
  locale := hrep.locale.trans hlocale.symm

/-- The same buffer with another locale. -/
theorem imbue (hrep : Represents memory buffer cursor) (locale : Locale) :
    Represents memory { buffer with locale := locale } { cursor with locale := locale } :=
  ⟨hrep.text, hrep.get, hrep.size, hrep.put, rfl⟩

theorem inAvail_eq (hrep : Represents memory buffer cursor) :
    buffer.inAvail = cursor.content.length - cursor.pos := by
  rw [Buffer.inAvail, hrep.get, hrep.size]
  split
  · omega
  · omega

theorem sbumpc (hrep : Represents memory buffer cursor) :
    (buffer.sbumpc memory).1 = cursor.peek ∧
      Represents memory (buffer.sbumpc memory).2 (cursor.forward 1) := by
  have hpeek := hrep.sgetc_eq
  rw [Buffer.sgetc] at hpeek
  rw [Buffer.sbumpc]
  by_cases hpos : cursor.pos < cursor.content.length
  · rw [if_pos (hrep.lt_iff.2 hpos)] at hpeek ⊢
    refine ⟨hpeek, ?_⟩
    have hplace : buffer.gptr + 1 = buffer.eback + (cursor.forward 1).pos := by
      rw [show (cursor.forward 1).pos = cursor.pos + 1 from Nat.min_eq_left hpos, hrep.get,
        Nat.add_assoc]
    rw [hplace]
    exact hrep.moved rfl rfl
  · rw [if_neg (mt hrep.lt_iff.1 hpos)] at hpeek ⊢
    refine ⟨hpeek, ?_⟩
    have hend : cursor.forward 1 = cursor := by
      have hinside := cursor.inside
      refine Cursor.eq_of_pos rfl rfl ?_
      rw [Cursor.pos_forward]
      omega
    rwa [hend]

theorem snextc (hrep : Represents memory buffer cursor) :
    (buffer.snextc memory).1 = (cursor.forward 1).peek ∧
      Represents memory (buffer.snextc memory).2 (cursor.forward 1) := by
  obtain ⟨hpeek, hnext⟩ := hrep.sbumpc
  rw [Buffer.snextc]
  split
  next next hbump =>
    rw [hbump] at hpeek hnext
    refine ⟨?_, hnext⟩
    -- at the end there is no next character
    have hend := Cursor.pos_of_peek hpeek.symm
    have hplace : (cursor.forward 1).pos = cursor.content.length := by
      rw [Cursor.pos_forward]
      omega
    exact (List.getElem?_eq_none (Nat.le_of_eq hplace.symm)).symm
  next ch next hbump =>
    rw [hbump] at hnext
    exact ⟨hnext.sgetc_eq, hnext⟩

theorem forward_succ (count : ℕ) :
    (cursor.forward 1).forward count = cursor.forward (count + 1) := by
  refine Cursor.eq_of_pos rfl rfl ?_
  rw [Cursor.pos_forward, Cursor.pos_forward, Cursor.pos_forward]
  change min (min _ cursor.content.length + _) cursor.content.length = _
  omega

theorem sgetn (hrep : Represents memory buffer cursor) (count : ℕ) :
    (buffer.sgetn memory count).1 = (cursor.content.drop cursor.pos).take count ∧
      Represents memory (buffer.sgetn memory count).2 (cursor.forward count) := by
  induction count generalizing buffer cursor with
  | zero =>
      have hsame : cursor.forward 0 = cursor :=
        Cursor.eq_of_pos rfl rfl (Nat.min_eq_left cursor.inside)
      rw [List.take_zero, hsame]
      exact ⟨rfl, hrep⟩
  | succ count ih =>
      obtain ⟨hpeek, hnext⟩ := hrep.sbumpc
      rw [Buffer.sgetn]
      split
      next next hbump =>
        rw [hbump] at hpeek hnext
        have hend := Cursor.pos_of_peek hpeek.symm
        have hsame : cursor.forward 1 = cursor.forward (count + 1) := by
          refine Cursor.eq_of_pos rfl rfl ?_
          rw [Cursor.pos_forward, Cursor.pos_forward]
          omega
        rw [List.drop_eq_nil_of_le (Nat.le_of_eq hend.symm), List.take_nil, ← hsame]
        exact ⟨rfl, hnext⟩
      next ch next hbump =>
        rw [hbump] at hpeek hnext
        obtain ⟨hrest, hlast⟩ := ih hnext
        obtain ⟨hlt, hch⟩ := List.getElem?_eq_some_iff.1
          (show cursor.content[cursor.pos]? = some ch from hpeek.symm)
        have hplace : (cursor.forward 1).pos = cursor.pos + 1 := Nat.min_eq_left hlt
        rw [forward_succ] at hlast
        refine ⟨?_, hlast⟩
        rw [List.drop_eq_getElem_cons hlt, List.take_succ_cons, hch, ← hplace]
        exact congrArg (ch :: ·) hrest

theorem eback_lt_iff (hrep : Represents memory buffer cursor) :
    buffer.eback < buffer.gptr ↔ cursor.pos ≠ 0 := by
  rw [hrep.get]
  omega

/-- The character before a place that is not the begin. -/
theorem last_eq (hrep : Represents memory buffer cursor) (hpos : cursor.pos ≠ 0) :
    cursor.last = some (memory (buffer.gptr - 1)) := by
  have hinside := cursor.inside
  have hplace : buffer.gptr - 1 = buffer.eback + (cursor.pos - 1) := by
    rw [hrep.get]
    omega
  rw [Cursor.last, if_neg hpos, hrep.text _ (by omega), hplace]

theorem back (hrep : Represents memory buffer cursor) (hpos : cursor.pos ≠ 0) :
    Represents memory { buffer with gptr := buffer.gptr - 1 } cursor.back := by
  have hplace : buffer.gptr - 1 = buffer.eback + cursor.back.pos := by
    rw [hrep.get, show cursor.back.pos = cursor.pos - 1 from rfl]
    omega
  rw [hplace]
  exact hrep.moved rfl rfl

theorem sungetc (hrep : Represents memory buffer cursor) :
    (buffer.sungetc memory).1 = cursor.last ∧
      Represents memory (buffer.sungetc memory).2 cursor.back := by
  rw [Buffer.sungetc]
  by_cases hpos : cursor.pos = 0
  · rw [if_neg (mt hrep.eback_lt_iff.1 (not_not.2 hpos)), Cursor.last, if_pos hpos]
    have hsame : cursor.back = cursor := by
      refine Cursor.eq_of_pos rfl rfl ?_
      rw [show cursor.back.pos = cursor.pos - 1 from rfl, hpos]
    rw [hsame]
    exact ⟨rfl, hrep⟩
  · rw [if_pos (hrep.eback_lt_iff.2 hpos)]
    exact ⟨(hrep.last_eq hpos).symm, hrep.back hpos⟩

theorem sputbackc_iff (hrep : Represents memory buffer cursor) (ch : Char) :
    (buffer.eback < buffer.gptr ∧ ch = memory (buffer.gptr - 1)) ↔ cursor.last = some ch := by
  by_cases hpos : cursor.pos = 0
  · refine iff_of_false (fun hboth => hrep.eback_lt_iff.1 hboth.1 hpos) ?_
    rw [Cursor.last, if_pos hpos]
    exact fun hnone => by cases hnone
  · rw [hrep.last_eq hpos, Option.some.injEq, eq_comm,
      and_iff_right (hrep.eback_lt_iff.2 hpos)]

theorem sputc_eq (hrep : Represents memory buffer cursor) (ch : Char) :
    buffer.sputc memory ch = (none, memory, buffer) := by
  rw [Buffer.sputc, if_neg (Nat.not_lt.2 hrep.put)]

theorem sputn_eq (hrep : Represents memory buffer cursor) (chars : List Char) :
    Buffer.sputn chars memory buffer = (0, memory, buffer) := by
  cases chars with
  | nil => rfl
  | cons ch chars => rw [Buffer.sputn, hrep.sputc_eq]

end Represents

/-- Every buffer represents its cursor. -/
def Refines (state : State Char Name Locale) (cursors : Name → Cursor Char Locale) : Prop :=
  ∀ name, Represents state.memory (state.buffers name) (cursors name)

namespace Refines

variable [DecidableEq Name] {state : State Char Name Locale} {cursors : Name → Cursor Char Locale}

theorem set (hrefines : Refines state cursors) {name : Name} {buffer : Buffer Locale}
    {cursor : Cursor Char Locale} (hrep : Represents state.memory buffer cursor) :
    Refines (state.set name buffer) (update cursors name cursor) := by
  intro other
  change Represents state.memory (update state.buffers name buffer other) _
  by_cases hother : other = name
  · subst hother
    rw [update_self, update_self]
    exact hrep
  · rw [update_of_ne hother, update_of_ne hother]
    exact hrefines other

/-- Putting the same buffer back changes nothing. -/
theorem set_same (hrefines : Refines state cursors) (name : Name) :
    Refines (state.set name (state.buffers name)) cursors := by
  have hset : Refines (state.set name (state.buffers name))
      (update cursors name (cursors name)) := hrefines.set (hrefines name)
  rwa [update_eq_self] at hset

variable [DecidableEq Char]

/-- One operation. -/
theorem execute (hrefines : Refines state cursors) (op : Op Char Name Locale) :
    (state.execute op).1 = (Cursor.execute cursors op).1 ∧
      (state.execute op).2.memory = state.memory ∧
      Refines (state.execute op).2 (Cursor.execute cursors op).2 := by
  cases op with
  | inAvail name => exact ⟨congrArg Result.count (hrefines name).inAvail_eq, rfl, hrefines⟩
  | sgetc name => exact ⟨congrArg Result.char (hrefines name).sgetc_eq, rfl, hrefines⟩
  | sbumpc name =>
      obtain ⟨hresult, hnext⟩ := (hrefines name).sbumpc
      exact ⟨congrArg Result.char hresult, rfl, hrefines.set hnext⟩
  | snextc name =>
      obtain ⟨hresult, hnext⟩ := (hrefines name).snextc
      exact ⟨congrArg Result.char hresult, rfl, hrefines.set hnext⟩
  | sgetn name count =>
      obtain ⟨hresult, hnext⟩ := (hrefines name).sgetn count
      exact ⟨congrArg Result.chars hresult, rfl, hrefines.set hnext⟩
  | sungetc name =>
      obtain ⟨hresult, hnext⟩ := (hrefines name).sungetc
      exact ⟨congrArg Result.char hresult, rfl, hrefines.set hnext⟩
  | sputbackc name ch =>
      have hrep := hrefines name
      simp only [State.execute, Cursor.execute, Buffer.sputbackc]
      by_cases hlast : (cursors name).last = some ch
      · have hpos : (cursors name).pos ≠ 0 :=
          hrep.eback_lt_iff.1 ((hrep.sputbackc_iff ch).2 hlast).1
        rw [if_pos ((hrep.sputbackc_iff ch).2 hlast), if_pos hlast]
        exact ⟨rfl, rfl, hrefines.set (hrep.back hpos)⟩
      · rw [if_neg (mt (hrep.sputbackc_iff ch).1 hlast), if_neg hlast]
        exact ⟨rfl, rfl, hrefines.set_same name⟩
  | sputc name ch =>
      simp only [State.execute, Cursor.execute, (hrefines name).sputc_eq]
      exact ⟨trivial, rfl, hrefines.set_same name⟩
  | sputn name chars =>
      simp only [State.execute, Cursor.execute, (hrefines name).sputn_eq]
      exact ⟨trivial, rfl, hrefines.set_same name⟩
  | pubsync | pubsetbuf | pubseekoff | pubseekpos => exact ⟨rfl, rfl, hrefines⟩
  | pubimbue name locale =>
      have hrep := hrefines name
      exact ⟨congrArg Result.locale hrep.locale, rfl, hrefines.set (hrep.imbue locale)⟩
  | getloc name => exact ⟨congrArg Result.locale (hrefines name).locale, rfl, hrefines⟩
  | swap left right =>
      exact ⟨rfl, rfl, (hrefines.set (hrefines right)).set (hrefines left)⟩

/-- Any number of operations. -/
theorem run (hrefines : Refines state cursors) (ops : List (Op Char Name Locale)) :
    (State.run ops state).1 = (Cursor.run ops cursors).1 ∧
      (State.run ops state).2.memory = state.memory ∧
      Refines (State.run ops state).2 (Cursor.run ops cursors).2 := by
  induction ops generalizing state cursors with
  | nil => exact ⟨rfl, rfl, hrefines⟩
  | cons op ops ih =>
      obtain ⟨hresult, hmemory, hnext⟩ := hrefines.execute op
      obtain ⟨hresults, hmemories, hlast⟩ := ih hnext
      refine ⟨?_, hmemories.trans hmemory, hlast⟩
      rw [State.run, Cursor.run, hresult, hresults]

end Refines

theorem represents_of_construct {locale : Locale} {ptr : Option ℕ} {size : ℕ}
    {buffer : Buffer Locale} (hconstruct : construct locale ptr size = .ok buffer)
    (memory : Memory Char) :
    Represents memory buffer (.start (buffer.content memory) locale) := by
  rw [construct] at hconstruct
  split at hconstruct
  · cases hconstruct
  · obtain rfl := Except.ok.inj hconstruct
    refine ⟨fun idx hidx => ?_, rfl, ?_, Nat.le_refl _, rfl⟩
    · simp only [Cursor.start, Buffer.content, List.length_map, List.length_range] at hidx ⊢
      rw [List.getElem?_map, List.getElem?_range hidx, Option.map_some]
    · simp [Cursor.start, Buffer.content]

/-- Whatever is done with buffers, and however their texts overlap: no character is changed, not
even by the operations that write, every buffer keeps its text or gets that of another by a swap,
and what is read is what cursors in the texts give. -/
theorem buffers_read_only [DecidableEq Char] [DecidableEq Name] {state : State Char Name Locale}
    {locales : Name → Locale} {views : Name → Option ℕ × ℕ}
    (hconstruct : ∀ name,
      construct (locales name) (views name).1 (views name).2 = .ok (state.buffers name))
    (ops : List (Op Char Name Locale)) :
    let texts (name : Name) :=
      Cursor.start ((state.buffers name).content state.memory) (locales name)
    let last := (State.run ops state).2
    last.memory = state.memory ∧ (State.run ops state).1 = (Cursor.run ops texts).1 ∧
      ∀ name, (last.buffers name).content state.memory = ((Cursor.run ops texts).2 name).content ∧
        (last.buffers name).readBytes = ((Cursor.run ops texts).2 name).pos := by
  intro texts last
  have hstart : Refines state texts := fun name => represents_of_construct (hconstruct name) _
  obtain ⟨hresults, hmemory, hlast⟩ := hstart.run ops
  refine ⟨hmemory, hresults, fun name => ?_⟩
  have hrep := hlast name
  rw [hmemory] at hrep
  exact ⟨hrep.content_eq, hrep.readBytes_eq⟩

/-- From a text of two a character is read, put back, written and sought. -/
theorem buffers_read_only_two :
    let state : State ℕ Unit Unit := ⟨fun idx => idx, fun _ => ⟨5, 5, 7, 5, 5, 5, ()⟩⟩
    let ops : List (Op ℕ Unit Unit) :=
      [.sbumpc (), .sputc () 9, .sungetc (), .pubseekpos () 1, .sgetn () 3]
    (State.run ops state).2.memory = state.memory ∧
      ((State.run ops state).2.buffers ()).readBytes = 2 := by
  intro state ops
  let views (_ : Unit) : Option ℕ × ℕ := (some 5, 2)
  have hconstruct (name : Unit) :
      construct () (views name).1 (views name).2 = .ok (state.buffers name) := rfl
  have hall := buffers_read_only (fun name => hconstruct name) ops
  exact ⟨hall.1, (hall.2.2 ()).2⟩

end Nstl.RoBuffer
