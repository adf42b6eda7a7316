import Nstl.Core.Environ
import Nstl.Text.Parse
import Nstl.Text.RangePrint

/-!
# What the children are started with

Every child of `multi_runner` gets the environment of the runner and two variables more: how many
children there are, and which of them it is.  On Linux all environments are built in one vector
that is cut back for every child, on macOS every child appends to its own copy, and on Windows
the environment is a block of terminated texts with an empty one at its end.

The arguments are passed on as they are, but on Windows, where a child gets one line of them.
-/

namespace Nstl.RunnerEnvironment

open Nstl.ByteString
open Nstl.Environ (equalsSign getenv getenv_append ValidName)
open Nstl.Parse

/-- "NSTL_PROCESSES_NUMBER" -/
def numberName : Bytes :=
  [78, 83, 84, 76, 95, 80, 82, 79, 67, 69, 83, 83, 69, 83, 95, 78, 85, 77, 66, 69, 82]

/-- "NSTL_PROCESSES_ID" -/
def idName : Bytes :=
  [78, 83, 84, 76, 95, 80, 82, 79, 67, 69, 83, 83, 69, 83, 95, 73, 68]

/-- `std::format` with a name, `'='` and a number -/
def entry (name : Bytes) (value : ℕ) : Bytes := Environ.entry name (formatInt value)

/-! ## Vectors of pointers -/

/-- A pointer of a vector, with none for `nullptr`. -/
abbrev Pointers := List (Option Bytes)

/-- What `execve` takes from a vector. -/
def upToNull : Pointers → List Bytes
  | [] | none :: _ => []
  | some text :: rest => text :: upToNull rest

/-- `std::vector::resize` -/
def resize (pointers : Pointers) (size : ℕ) : Pointers :=
  pointers.take size ++ List.replicate (size - pointers.length) none

/-- The variables that all children have, before the loops over the children. -/
def base (envv : List Bytes) (threads : ℕ) : Pointers :=
  envv.map some ++ [some (entry numberName threads)]

/-- `envvars` after this many turns of the loop in `start_processes` on Linux -/
def linuxVector (envv : List Bytes) (threads : ℕ) : ℕ → Pointers
  | 0 => base envv threads
  | idx + 1 =>
      resize (linuxVector envv threads idx) (base envv threads).length ++
        [some (entry idName idx), none]

/-- `envvars` of a child on macOS -/
def macosVector (envv : List Bytes) (threads idx : ℕ) : Pointers :=
  base envv threads ++ [some (entry idName idx), none]

/-! ## Blocks -/

/-- `env_vars` on Windows; the loop ends at an empty text. -/
def block (envv : List Bytes) (threads idx : ℕ) : Bytes :=
  (envv.takeWhile (· ≠ [])).flatMap (· ++ [nul]) ++ entry numberName threads ++ [nul] ++
    entry idName idx ++ [nul] ++ [nul]

/-- The texts of a block, up to the first that is empty, after the begin of one. -/
def readBlock (begun : Bytes) : Bytes → List Bytes
  | [] => []
  | ch :: rest =>
      if ch = nul then if begun = [] then [] else begun :: readBlock [] rest
      else readBlock (begun ++ [ch]) rest

inductive Platform where
  | linux
  | macos
  | win32
  deriving DecidableEq, Repr

/-- The environment that a child finds. -/
def childEnviron (envv : List Bytes) (threads idx : ℕ) : Platform → List Bytes
  | .linux => upToNull (linuxVector envv threads (idx + 1))
  | .macos => upToNull (macosVector envv threads idx)
  | .win32 => readBlock [] (block envv threads idx)

/-! ## The entries -/

section Entries

variable {envv : List Bytes} {threads idx : ℕ}

theorem upToNull_append_none (texts : List Bytes) (rest : Pointers) :
    upToNull (texts.map some ++ none :: rest) = texts := by
  induction texts with
  | nil => rfl
  | cons text texts ih =>
      rw [List.map_cons, List.cons_append, upToNull, ih]

/-- Whatever a turn has appended is gone in the next one. -/
theorem linuxVector_succ (idx : ℕ) :
    linuxVector envv threads (idx + 1) = macosVector envv threads idx := by
  have hcut : ∀ idx, resize (linuxVector envv threads idx) (base envv threads).length =
      base envv threads := by
    intro idx
    induction idx with
    | zero => simp [linuxVector, resize]
    | succ idx ih =>
        rw [linuxVector, ih, resize, List.take_left, List.length_append,
          Nat.sub_eq_zero_of_le (Nat.le_add_right _ _), List.replicate_zero, List.append_nil]
  rw [linuxVector, hcut, macosVector]

theorem upToNull_macosVector :
    upToNull (macosVector envv threads idx) =
      envv ++ [entry numberName threads, entry idName idx] := by
  have hsplit : macosVector envv threads idx =
      (envv ++ [entry numberName threads, entry idName idx]).map some ++ [none] := by
    simp [macosVector, base]
  rw [hsplit, upToNull_append_none]

/-- A text up to its terminator. -/
theorem readBlock_append {text : Bytes} (hnul : nul ∉ text) (begun rest : Bytes)
    (hne : begun ++ text ≠ []) :
    readBlock begun (text ++ nul :: rest) = (begun ++ text) :: readBlock [] rest := by
  induction text generalizing begun with
  | nil =>
      rw [List.append_nil] at hne ⊢
      rw [List.nil_append, readBlock, if_pos rfl, if_neg hne]
  | cons ch text ih =>
      obtain ⟨hch, htext⟩ := not_or.1 (mt List.mem_cons.2 hnul)
      rw [List.cons_append, readBlock, if_neg (Ne.symm hch),
        ih htext (begun ++ [ch]) (by simp), List.append_assoc]
      rfl

/-- Texts that are not empty are read back from a block. -/
theorem readBlock_flatMap {texts : List Bytes} (hnul : ∀ text ∈ texts, nul ∉ text)
    (hne : ∀ text ∈ texts, text ≠ []) (rest : Bytes) :
    readBlock [] (texts.flatMap (· ++ [nul]) ++ rest) = texts ++ readBlock [] rest := by
  induction texts with
  | nil => rfl
  | cons text texts ih =>
      obtain ⟨hfirst, hothers⟩ := List.forall_mem_cons.1 hnul
      obtain ⟨hfirst_ne, hothers_ne⟩ := List.forall_mem_cons.1 hne
      rw [List.flatMap_cons, List.append_assoc, List.append_assoc, List.singleton_append,
        readBlock_append hfirst [] _ hfirst_ne, ih hothers hothers_ne]
      rfl

theorem notMem_formatInt {ch : Byte} (hdigit : IpText.isDigit ch = false) (hminus : ch ≠ minus)
    (value : ℤ) : ch ∉ formatInt value := by
  have hdecimal := RangeText.notMem_decimalText hdigit value.natAbs
  rw [formatInt]
  split
  · exact fun hmem => (List.mem_cons.1 hmem).elim hminus hdecimal
  · exact hdecimal

theorem nul_notMem_entry {name : Bytes} (hname : nul ∉ name) (value : ℕ) :
    nul ∉ entry name value :=
  Environ.nul_notMem_entry hname (notMem_formatInt (by decide) (by decide) _)

theorem entry_ne_nil (name : Bytes) (value : ℕ) : entry name value ≠ [] :=
  List.append_ne_nil_of_right_ne_nil name (List.cons_ne_nil _ _)

/-- The block ends with the two variables of the child. -/
theorem readBlock_block (hnul : ∀ text ∈ envv, nul ∉ text) :
    readBlock [] (block envv threads idx) =
      envv.takeWhile (· ≠ []) ++ [entry numberName threads, entry idName idx] := by
  have hnumber : nul ∉ entry numberName threads := nul_notMem_entry (by decide) _
  have hid : nul ∉ entry idName idx := nul_notMem_entry (by decide) _
  have htexts : ∀ text ∈ envv.takeWhile (· ≠ []), nul ∉ text := fun text hmem =>
    hnul text ((List.takeWhile_prefix _).subset hmem)
  have hne : ∀ text ∈ envv.takeWhile (· ≠ []), text ≠ [] := by
    intro text hmem
    simpa using List.mem_takeWhile_imp hmem
  have hshape : block envv threads idx = (envv.takeWhile (· ≠ [])).flatMap (· ++ [nul]) ++
      (entry numberName threads ++ nul :: (entry idName idx ++ nul :: [nul])) := by
    simp [block]
  rw [hshape, readBlock_flatMap htexts hne, readBlock_append hnumber [] _ (entry_ne_nil _ _),
    readBlock_append hid [] _ (entry_ne_nil _ _)]
  rfl

end Entries

/-! ## What a child reads -/

/-- An entry is found under its own name only. -/
theorem getenv_entry {name other : Bytes} (hname : equalsSign ∉ name) (hother : ValidName other)
    (value : ℕ) :
    getenv [entry other value] name = if name = other then some (formatInt value) else none := by
  by_cases hempty : name = []
  · rw [hempty, if_neg (Ne.symm hother.1)]
    rfl
  · rw [Environ.getenv_of_ne_nil hempty, List.findSome?_singleton, entry,
      Environ.valueIn_entry hname hother.2]

theorem parseView_formatInt_uint32 {value : ℕ} (hvalue : value < 2 ^ 32) :
    parseView (fromCharsInt .uint32) 0 (formatInt value) = .ok (value : ℤ) := by
  refine parseView_formatInt 0 ⟨Int.natCast_nonneg value, ?_⟩
  have hmax : IntType.uint32.max = 2 ^ 32 - 1 := rfl
  rw [hmax]
  omega

/-- The children of one runner differ in one variable only.  Outside of Windows a child finds
what the runner finds, and its own two variables where the runner does not have them: they tell
it its index and the number of children, and those of an outer runner stay. -/
theorem children_identified {envv : List Bytes} {threads idx : ℕ}
    (hnul : ∀ text ∈ envv, nul ∉ text) (hthreads : threads < 2 ^ 32) (hidx : idx < threads) :
    (∀ platform, childEnviron envv threads idx platform =
      (if platform = .win32 then envv.takeWhile (· ≠ []) else envv) ++
        [entry numberName threads, entry idName idx]) ∧
    ∀ platform, platform ≠ .win32 →
      let child := getenv (childEnviron envv threads idx platform)
      (∀ name outer, getenv envv name = some outer → child name = some outer) ∧
      (∀ name, equalsSign ∉ name → name ≠ numberName → name ≠ idName →
        child name = getenv envv name) ∧
      (getenv envv numberName = none →
        (child numberName).map (parseView (fromCharsInt .uint32) 0) = some (.ok (threads : ℤ))) ∧
      (getenv envv idName = none →
        (child idName).map (parseView (fromCharsInt .uint32) 0) = some (.ok (idx : ℤ))) := by
  have henviron : ∀ platform, childEnviron envv threads idx platform =
      (if platform = .win32 then envv.takeWhile (· ≠ []) else envv) ++
        [entry numberName threads, entry idName idx] := by
    intro platform
    cases platform with
    | linux =>
        rw [childEnviron, linuxVector_succ, upToNull_macosVector]
        rfl
    | macos => exact upToNull_macosVector
    | win32 => exact readBlock_block hnul
  refine ⟨henviron, fun platform hposix => ?_⟩
  intro child
  have hchild (name : Bytes) (hname : equalsSign ∉ name) : child name =
      (getenv envv name).or
        ((if name = numberName then some (formatInt threads) else none).or
          (if name = idName then some (formatInt idx) else none)) := by
    change getenv (childEnviron envv threads idx platform) name = _
    rw [henviron, if_neg hposix, getenv_append, ← List.singleton_append, getenv_append,
      getenv_entry hname (by decide), getenv_entry hname (by decide)]
  refine ⟨fun name outer houter => ?_, fun name hname hnumber hid => ?_, fun hnone => ?_,
    fun hnone => ?_⟩
  · change getenv (childEnviron envv threads idx platform) name = _
    rw [henviron, if_neg hposix, getenv_append, houter, Option.some_or]
  · rw [hchild name hname, if_neg hnumber, if_neg hid, Option.or_none, Option.or_none]
  · rw [hchild numberName (by decide), hnone, if_pos rfl, Option.none_or, Option.some_or,
      Option.map_some, parseView_formatInt_uint32 hthreads]
  · rw [hchild idName (by decide), hnone, if_neg (by decide), if_pos rfl, Option.none_or,
      Option.none_or, Option.map_some, parseView_formatInt_uint32 (Nat.lt_trans hidx hthreads)]

/-- The second of three children, under a runner with an environment of one variable. -/
theorem children_identified_second :
    getenv (childEnviron [[65, 61, 66]] 3 1 .linux) [65] = some [66] ∧
      (getenv (childEnviron [[65, 61, 66]] 3 1 .linux) idName).map
        (parseView (fromCharsInt .uint32) 0) = some (.ok 1) := by
  obtain ⟨hsame, _, _, hid⟩ := (children_identified (by decide : ∀ text ∈ [[65, 61, 66]],
    nul ∉ text) (by decide : 3 < 2 ^ 32) (by decide : 1 < 3)).2 .linux (by decide)
  exact ⟨hsame [65] [66] (by decide), hid (by decide)⟩

/-! ## The command line -/

/-- The character `' '`. -/
def blank : Byte := 32

/-- `command_line` on Windows, of `argv_[0]` and the arguments behind it. -/
def commandLine (first : Bytes) (rest : List Bytes) : Bytes :=
  let line := rest.foldl (fun oss arg => oss ++ [blank] ++ arg) first
  strncpy [] line line.length ++ [nul]

section CommandLine

variable {first : Bytes} {rest : List Bytes}

theorem foldl_arguments (first : Bytes) (rest : List Bytes) :
    rest.foldl (fun oss arg => oss ++ [blank] ++ arg) first =
      [blank].intercalate (first :: rest) := by
  rw [RangePrint.intercalate_cons]
  induction rest generalizing first with
  | nil => exact (List.append_nil first).symm
  | cons arg rest ih =>
      rw [List.foldl_cons, ih, List.flatMap_cons]
      simp only [List.append_assoc]

theorem strncpy_of_notMem {src : Bytes} (hnul : nul ∉ src) : strncpy [] src src.length = src := by
  simp [strncpy, (cString_eq_self_iff src).2 hnul]

theorem nul_notMem_intercalate {texts : List Bytes} (hnul : ∀ text ∈ texts, nul ∉ text) :
    nul ∉ [blank].intercalate texts := by
  cases texts with
  | nil => exact List.not_mem_nil
  | cons first rest =>
      obtain ⟨hfirst, hrest⟩ := List.forall_mem_cons.1 hnul
      rw [RangePrint.intercalate_cons, List.mem_append, List.mem_flatMap, not_or]
      refine ⟨hfirst, ?_⟩
      rintro ⟨arg, harg, hmem⟩
      rcases List.mem_append.1 hmem with hblank | hmem
      · exact absurd (List.mem_singleton.1 hblank) (by decide)
      · exact hrest arg harg hmem

theorem commandLine_eq (hnul : ∀ arg ∈ first :: rest, nul ∉ arg) :
    commandLine first rest = [blank].intercalate (first :: rest) ++ [nul] := by
  rw [commandLine, foldl_arguments, strncpy_of_notMem (nul_notMem_intercalate hnul)]

/-- The line of a child on Windows tells its arguments, even to who knows how many there are,
only if there is but one or none of them has a blank: nothing is quoted. -/
theorem commandLine_determined_iff (hnul : ∀ arg ∈ first :: rest, nul ∉ arg) :
    (∀ other others, others.length = rest.length → (∀ arg ∈ other :: others, nul ∉ arg) →
      commandLine other others = commandLine first rest → other = first ∧ others = rest) ↔
      rest = [] ∨ ∀ arg ∈ first :: rest, blank ∉ arg := by
  have hgeneral := RangePrint.intercalate_determined_iff blank (List.cons_ne_nil first rest)
  rw [List.length_cons, Nat.add_eq_right, List.length_eq_zero_iff] at hgeneral
  rw [← hgeneral, commandLine_eq hnul]
  constructor
  · intro hdetermined texts hlength heq
    obtain ⟨other, others, rfl⟩ := List.exists_cons_of_length_eq_add_one hlength
    -- what is joined to a line without a terminator has none
    have hothers : ∀ arg ∈ other :: others, nul ∉ arg := fun arg harg hmem =>
      nul_notMem_intercalate hnul (heq ▸ RangePrint.mem_intercalate_of_mem harg hmem)
    obtain ⟨rfl, rfl⟩ := hdetermined other others (Nat.succ.inj hlength) hothers
      (by rw [commandLine_eq hothers, heq])
    rfl
  · intro hdetermined other others hlength hothers heq
    rw [commandLine_eq hothers] at heq
    have hsame := hdetermined (other :: others) (congrArg Nat.succ hlength)
      (List.append_cancel_right heq)
    exact List.cons.inj hsame

end CommandLine

/-- Two arguments, the first of which has a blank. -/
theorem commandLine_determined_iff_blank :
    ¬∀ other others, others.length = 1 → (∀ arg ∈ other :: others, nul ∉ arg) →
      commandLine other others = commandLine [65, 32, 66] [[67]] →
        other = [65, 32, 66] ∧ others = [[67]] := by
  intro hdetermined
  have hnul : ∀ arg ∈ [[65, 32, 66], [67]], nul ∉ arg := by decide
  exact absurd ((commandLine_determined_iff hnul).1 hdetermined) (by decide)

end Nstl.RunnerEnvironment
