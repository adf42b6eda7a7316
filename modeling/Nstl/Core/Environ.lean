import Nstl.Core.ByteString

/-!
# Environments of processes

An environment is a sequence of entries, each of them a name, `'='` and a value.  `getenv` finds
the first entry with a name, `setenv` replaces this one or appends another, and `unsetenv` removes
all that there are.

A variable has a name that is not empty and has no `'='` in it.  Any other name cannot be set or
removed; but as in glibc it can be looked for, and is then compared with the entries like the rest.
-/

namespace Nstl.Environ

open Nstl.ByteString

/-- The character `'='`. -/
def equalsSign : Byte := 61

/-- The names that `setenv` and `unsetenv` accept. -/
def ValidName (name : Bytes) : Prop := name ≠ [] ∧ equalsSign ∉ name

instance : DecidablePred ValidName := fun _ => inferInstanceAs (Decidable (_ ∧ _))

def entry (name value : Bytes) : Bytes := name ++ equalsSign :: value

/-- The value behind the name, in an entry that begins with it. -/
def valueIn (name text : Bytes) : Option Bytes :=
  if (name ++ [equalsSign]).isPrefixOf text then some (text.drop (name.length + 1)) else none

def getenv (environ : List Bytes) (name : Bytes) : Option Bytes :=
  if name = [] then none else environ.findSome? (valueIn name)

/-- What `setenv` makes of the entries, with overwriting. -/
def setEntry (name value : Bytes) : List Bytes → List Bytes
  | [] => [entry name value]
  | text :: rest =>
      if (valueIn name text).isSome then entry name value :: rest
      else text :: setEntry name value rest

/-- What `unsetenv` leaves of the entries. -/
def removeEntries (name : Bytes) (environ : List Bytes) : List Bytes :=
  environ.filter fun text => (valueIn name text).isNone

/-! ## One entry -/

section Entry

variable {name other value value' text : Bytes}

theorem valueIn_eq_some_iff : valueIn name text = some value ↔ text = entry name value := by
  have hlength : name.length + 1 = (name ++ [equalsSign]).length := by simp
  have hentry : entry name value = (name ++ [equalsSign]) ++ value := by simp [entry]
  rw [valueIn, hentry, hlength]
  constructor
  · intro hvalue
    split at hvalue
    next hbegin =>
      obtain ⟨rest, rfl⟩ := List.isPrefixOf_iff_prefix.1 hbegin
      rw [List.drop_left] at hvalue
      rw [Option.some.inj hvalue]
    next => cases hvalue
  · rintro rfl
    rw [if_pos (List.isPrefixOf_iff_prefix.2 (List.prefix_append _ _)), List.drop_left]

/-- The name of an entry ends at the first `'='`. -/
theorem takeWhile_entry (hname : equalsSign ∉ name) (value : Bytes) :
    (entry name value).takeWhile (· ≠ equalsSign) = name := by
  have hbefore : ∀ ch ∈ name, decide (ch ≠ equalsSign) = true := fun ch hmem =>
    decide_eq_true (ne_of_mem_of_not_mem hmem hname)
  rw [entry, List.takeWhile_append_of_pos hbefore]
  simp

theorem name_eq_of_entry_eq (hname : equalsSign ∉ name) (hother : equalsSign ∉ other)
    (heq : entry name value = entry other value') : name = other := by
  rw [← takeWhile_entry hname value, heq, takeWhile_entry hother]

/-- An entry is found under its own name only. -/
theorem valueIn_entry (hname : equalsSign ∉ name) (hother : equalsSign ∉ other) (value : Bytes) :
    valueIn name (entry other value) = if name = other then some value else none := by
  split
  next hsame => rw [valueIn_eq_some_iff, hsame]
  next hne =>
    rw [Option.eq_none_iff_forall_ne_some]
    intro found hfound
    exact hne (name_eq_of_entry_eq hother hname (valueIn_eq_some_iff.1 hfound)).symm

/-- An entry that has one name does not have the other. -/
theorem valueIn_of_ne (hname : equalsSign ∉ name) (hother : equalsSign ∉ other)
    (hne : name ≠ other) (hvalue : (valueIn other text).isSome) : valueIn name text = none := by
  obtain ⟨value, hvalue⟩ := Option.isSome_iff_exists.1 hvalue
  rw [valueIn_eq_some_iff.1 hvalue, valueIn_entry hname hother, if_neg hne]

theorem nul_notMem_entry (hname : nul ∉ name) (hvalue : nul ∉ value) :
    nul ∉ entry name value := by
  rw [entry, List.mem_append, List.mem_cons, not_or, not_or]
  exact ⟨hname, by decide, hvalue⟩

end Entry

/-! ## The entries -/

section Entries

variable {name watched value : Bytes} {environ others : List Bytes}

theorem getenv_append :
    getenv (environ ++ others) name = (getenv environ name).or (getenv others name) := by
  rw [getenv, getenv, getenv]
  split
  next => rfl
  next => exact List.findSome?_append

theorem getenv_of_ne_nil (hne : name ≠ []) :
    getenv environ name = environ.findSome? (valueIn name) :=
  if_neg hne

theorem mem_of_getenv (hget : getenv environ name = some value) : entry name value ∈ environ := by
  rw [getenv] at hget
  split at hget
  next => cases hget
  next =>
    obtain ⟨text, hmem, hvalue⟩ := List.exists_of_findSome?_eq_some hget
    exact valueIn_eq_some_iff.1 hvalue ▸ hmem

theorem mem_setEntry {text : Bytes} (hmem : text ∈ setEntry name value environ) :
    text = entry name value ∨ text ∈ environ := by
  induction environ with
  | nil => exact .inl (List.mem_singleton.1 hmem)
  | cons first rest ih =>
      rw [setEntry] at hmem
      split at hmem
      next => exact (List.mem_cons.1 hmem).imp_right (List.mem_cons_of_mem first)
      next =>
        rcases List.mem_cons.1 hmem with rfl | hrest
        · exact .inr List.mem_cons_self
        · exact (ih hrest).imp_right (List.mem_cons_of_mem first)

/-- One variable is set, and no other one is changed. -/
theorem getenv_setEntry (hname : ValidName name) (hwatched : ValidName watched) (value : Bytes) :
    getenv (setEntry name value environ) watched =
      if watched = name then some value else getenv environ watched := by
  have hfound := valueIn_entry hwatched.2 hname.2 value
  rw [getenv_of_ne_nil hwatched.1, getenv_of_ne_nil hwatched.1]
  by_cases hsame : watched = name
  · subst hsame
    rw [if_pos rfl] at hfound ⊢
    induction environ with
    | nil => rw [setEntry, List.findSome?_cons, hfound]
    | cons text rest ih =>
        rw [setEntry]
        split
        next => rw [List.findSome?_cons, hfound]
        next hvalue => rw [List.findSome?_cons, Option.not_isSome_iff_eq_none.1 hvalue, ih]
  · rw [if_neg hsame] at hfound ⊢
    induction environ with
    | nil => rw [setEntry, List.findSome?_cons, hfound]
    | cons text rest ih =>
        rw [setEntry]
        split
        next hvalue =>
          rw [List.findSome?_cons, hfound, List.findSome?_cons,
            valueIn_of_ne hwatched.2 hname.2 hsame hvalue]
        next => rw [List.findSome?_cons, List.findSome?_cons, ih]

/-- One variable is removed, and no other one is changed. -/
theorem getenv_removeEntries (hname : ValidName name) (hwatched : ValidName watched) :
    getenv (removeEntries name environ) watched =
      if watched = name then none else getenv environ watched := by
  rw [getenv_of_ne_nil hwatched.1, getenv_of_ne_nil hwatched.1, removeEntries]
  by_cases hsame : watched = name
  · rw [if_pos hsame, List.findSome?_eq_none_iff]
    intro text hmem
    rw [hsame]
    exact Option.isNone_iff_eq_none.1 (List.mem_filter.1 hmem).2
  · rw [if_neg hsame]
    induction environ with
    | nil => rfl
    | cons text rest ih =>
        rw [List.filter_cons, List.findSome?_cons]
        split
        next => rw [List.findSome?_cons, ih]
        next hvalue =>
          have hother : (valueIn name text).isSome := by
            simpa [Option.isSome_iff_ne_none] using hvalue
          rw [ih, valueIn_of_ne hwatched.2 hname.2 hsame hother]

end Entries

end Nstl.Environ
