import Mathlib.Algebra.Group.Nat.Defs
import Mathlib.Logic.Function.Basic
import Mathlib.Data.List.Basic

/-!
# A heap of blocks

A block is a list of cells, each of which holds an object or nothing.  The
functions of the C library that work on blocks are partial: what they leave
undefined has no value.  Which address an allocation returns, and whether it
succeeds, is the allocator's choice.
-/

namespace Nstl.Heaps

abbrev Address := ℕ

/-- The cells of a block; a cell without an object is not initialised. -/
abbrev Cells (Element : Type) := List (Option Element)

/-- The blocks that are in use. -/
structure Heap (Element : Type) where
  blocks : Address → Option (Cells Element)

/-- `SIZE_MAX`. -/
def sizeMax : ℕ := 2 ^ 64 - 1

/-- `PTRDIFF_MAX`: no allocation is larger. -/
def ptrdiffMax : ℕ := 2 ^ 63 - 1

variable {Element : Type}

/-! ## Cells -/

/-- Replace the cells from an index on. -/
def overwrite (cells : Cells Element) (start : ℕ) (part : Cells Element) : Cells Element :=
  cells.take start ++ part ++ cells.drop (start + part.length)

theorem overwrite_append (before part old after : Cells Element)
    (hlength : part.length = old.length) :
    overwrite (before ++ (old ++ after)) before.length part = before ++ (part ++ after) := by
  rw [overwrite, List.take_left, hlength, ← List.drop_drop, List.drop_left,
    List.drop_left, List.append_assoc]

/-- The cells of a block whose size changes: a prefix is kept. -/
def resized (cells : Cells Element) (count : ℕ) : Cells Element :=
  cells.take count ++ List.replicate (count - cells.length) none

theorem resized_append {first second : Cells Element} {count : ℕ}
    (hkeeps : (first ++ second).length ≤ count) :
    resized (first ++ second) count =
      first ++ (second ++ List.replicate (count - (first ++ second).length) none) := by
  rw [resized, List.take_of_length_le hkeeps, List.append_assoc]

/-! ## Blocks -/

namespace Heap

variable (heap : Heap Element)

/-- Give a block its cells, or take it out of use. -/
def put (address : Address) (cells : Option (Cells Element)) : Heap Element :=
  ⟨Function.update heap.blocks address cells⟩

@[simp]
theorem put_same (address : Address) (cells : Option (Cells Element)) :
    (heap.put address cells).blocks address = cells :=
  Function.update_self _ _ _

theorem put_other {address other : Address} (hne : other ≠ address)
    (cells : Option (Cells Element)) :
    (heap.put address cells).blocks other = heap.blocks other :=
  Function.update_of_ne hne _ _

@[simp]
theorem put_put (address : Address) (first second : Option (Cells Element)) :
    (heap.put address first).put address second = heap.put address second :=
  congrArg Heap.mk (Function.update_idem _ _ _)

theorem put_self {address : Address} {cells : Option (Cells Element)}
    (hcells : heap.blocks address = cells) : heap.put address cells = heap := by
  rw [put, ← hcells, Function.update_eq_self]

/-- `free`. -/
def free : Option Address → Option (Unit × Heap Element)
  | none => some ((), heap)
  | some address =>
      match heap.blocks address with
      | none => none
      | some _ => some ((), heap.put address none)

/-- The cells behind a pointer that `realloc` is given. -/
def reallocSource : Option Address → Option (Cells Element)
  | none => some []
  | some address => heap.blocks address

/-- There is no memory for a block: it is too large, or the allocator has none but a block
that is in use. -/
def Refuses (ptr : Option Address) (bytes : ℕ) (choice : Option Address) : Prop :=
  ptrdiffMax < bytes ∨
    ∀ address, choice = some address → ptr ≠ some address ∧ heap.blocks address ≠ none

/-- `realloc`, for a block of cells of `cellSize` bytes.  It fails, and leaves
everything as it is, for sizes above `PTRDIFF_MAX`, when the allocator chooses so,
and when it has no other block than one that is in use. -/
def realloc (ptr : Option Address) (bytes cellSize : ℕ) (choice : Option Address) :
    Option (Option Address × Heap Element) :=
  match heap.reallocSource ptr with
  | none => none
  | some cells =>
      match choice with
      | none => some (none, heap)
      | some address =>
          if ptrdiffMax < bytes ∨ (ptr ≠ some address ∧ heap.blocks address ≠ none) then
            some (none, heap)
          else
            match ptr with
            | none =>
                some (some address, heap.put address (some (resized cells (bytes / cellSize))))
            | some old =>
                some (some address,
                  (heap.put old none).put address
                    (some (resized cells (bytes / cellSize))))

/-- Change the cells of a block, where the function has a value. -/
def change {Value : Type} (ptr : Option Address)
    (f : Cells Element → Option (Value × Cells Element)) :
    Option (Value × Heap Element) :=
  match ptr with
  | none => none
  | some address =>
      match heap.blocks address with
      | none => none
      | some cells =>
          (f cells).map fun result => (result.1, heap.put address (some result.2))

/-- Placement `new`. -/
def constructAt (ptr : Option Address) (index : ℕ) (value : Element) :
    Option (Unit × Heap Element) :=
  heap.change ptr fun cells =>
    if index < cells.length then some ((), overwrite cells index [some value]) else none

/-- An explicit destructor call ends the lifetime of an object. -/
def destroyAt (ptr : Option Address) (index : ℕ) : Option (Unit × Heap Element) :=
  heap.change ptr fun cells =>
    match cells[index]? with
    | some (some _) => some ((), overwrite cells index [none])
    | _ => none

/-- Read an object. -/
def readAt (ptr : Option Address) (index : ℕ) : Option (Element × Heap Element) :=
  match ptr with
  | none => none
  | some address =>
      match (heap.blocks address).bind (·[index]?) with
      | some (some value) => some (value, heap)
      | _ => none

/-- `memmove` inside a block. -/
def memmove (ptr : Option Address) (target source count : ℕ) :
    Option (Unit × Heap Element) :=
  heap.change ptr fun cells =>
    if target + count ≤ cells.length ∧ source + count ≤ cells.length then
      some ((), overwrite cells target ((cells.drop source).take count))
    else none

/-- `memcpy` from the start of one block to the start of another one. -/
def memcpy (target source : Option Address) (count : ℕ) : Option (Unit × Heap Element) :=
  match source.bind heap.blocks with
  | none => none
  | some cells =>
      if target = source ∨ cells.length < count then none
      else
        heap.change target fun old =>
          if count ≤ old.length then some ((), overwrite old 0 (cells.take count)) else none

variable {heap}

/-! ## What the functions do where they are defined -/

theorem change_eq {Value : Type} {address : Address} {cells after : Cells Element}
    {f : Cells Element → Option (Value × Cells Element)} {result : Value}
    (hcells : heap.blocks address = some cells) (hf : f cells = some (result, after)) :
    heap.change (some address) f = some (result, heap.put address (some after)) := by
  simp [change, hcells, hf]

theorem constructAt_eq {address : Address} {before after : Cells Element}
    {old : Option Element} (value : Element)
    (hcells : heap.blocks address = some (before ++ old :: after)) :
    heap.constructAt (some address) before.length value =
      some ((), heap.put address (some (before ++ some value :: after))) := by
  have hoverwrite := overwrite_append before [some value] [old] after rfl
  apply change_eq hcells
  rw [if_pos (by simp)]
  exact congrArg (fun cells => some ((), cells)) hoverwrite

theorem destroyAt_eq {address : Address} {before after : Cells Element} {value : Element}
    (hcells : heap.blocks address = some (before ++ some value :: after)) :
    heap.destroyAt (some address) before.length =
      some ((), heap.put address (some (before ++ none :: after))) := by
  have hoverwrite := overwrite_append before [none] [some value] after rfl
  have hcell : (before ++ some value :: after)[before.length]? = some (some value) := by
    simp
  apply change_eq hcells
  rw [hcell]
  exact congrArg (fun cells => some ((), cells)) hoverwrite

theorem readAt_eq {address : Address} {cells : Cells Element} {index : ℕ} {value : Element}
    (hcells : heap.blocks address = some cells) (hcell : cells[index]? = some (some value)) :
    heap.readAt (some address) index = some (value, heap) := by
  simp [readAt, hcells, hcell]

/-- Moving cells down over a gap leaves them where the gap was. -/
theorem memmove_eq {address : Address} {before gap moved after : Cells Element}
    (hcells : heap.blocks address = some (before ++ (gap ++ (moved ++ after)))) :
    ∃ rest : Cells Element, rest.length = gap.length + after.length ∧
      heap.memmove (some address) before.length (before.length + gap.length) moved.length =
        some ((), heap.put address (some (before ++ (moved ++ rest)))) := by
  have hmoved : ((before ++ (gap ++ (moved ++ after))).drop
      (before.length + gap.length)).take moved.length = moved := by
    rw [← List.drop_drop, List.drop_left, List.drop_left, List.take_left]
  have hrest : ((gap ++ (moved ++ after)).drop moved.length).length =
      gap.length + after.length := by
    simp only [List.length_drop, List.length_append]
    omega
  refine ⟨(gap ++ (moved ++ after)).drop moved.length, hrest, ?_⟩
  apply change_eq hcells
  rw [if_pos (by simp only [List.length_append]; omega), hmoved, overwrite, List.take_left,
    ← List.drop_drop, List.drop_left, List.append_assoc]

theorem memcpy_eq {target source : Address} {copied after old : Cells Element}
    (hne : target ≠ source) (hsource : heap.blocks source = some (copied ++ after))
    (htarget : heap.blocks target = some old) (hroom : copied.length ≤ old.length) :
    heap.memcpy (some target) (some source) copied.length =
      some ((), heap.put target (some (copied ++ old.drop copied.length))) := by
  have hcopies : overwrite old 0 ((copied ++ after).take copied.length) =
      copied ++ old.drop copied.length := by
    rw [overwrite, List.take_left, List.take_zero, List.nil_append, Nat.zero_add]
  have hlong : ¬(copied ++ after).length < copied.length := by
    simp
  rw [memcpy, Option.bind_some, hsource]
  simp only [Option.some.injEq, hne, hlong, or_self, if_false]
  apply change_eq htarget
  rw [if_pos hroom, hcopies]

theorem free_eq {address : Address} {cells : Cells Element}
    (hcells : heap.blocks address = some cells) :
    heap.free (some address) = some ((), heap.put address none) := by
  rw [free, hcells]

/-- `realloc` either fails, where there is no memory, or hands out the block that the
allocator chooses: no other pointer refers to it and it starts with the old cells, and only
the old block goes out of use. -/
theorem realloc_cases {ptr : Option Address} {cells : Cells Element}
    (hcells : heap.reallocSource ptr = some cells) (bytes cellSize : ℕ)
    (choice : Option Address) :
    (heap.Refuses ptr bytes choice ∧
      heap.realloc ptr bytes cellSize choice = some (none, heap)) ∨
      ∃ address after, choice = some address ∧
        heap.realloc ptr bytes cellSize choice = some (some address, after) ∧
        ¬heap.Refuses ptr bytes choice ∧ bytes ≤ ptrdiffMax ∧
        (ptr = some address ∨ heap.blocks address = none) ∧
        after.blocks address = some (resized cells (bytes / cellSize)) ∧
        ∀ other, other ≠ address → ptr ≠ some other →
          after.blocks other = heap.blocks other := by
  rw [realloc, hcells]
  cases choice with
  | none => exact Or.inl ⟨Or.inr fun _ hnone => absurd hnone (by simp), rfl⟩
  | some address =>
      have hrefuses : heap.Refuses ptr bytes (some address) ↔
          ptrdiffMax < bytes ∨ (ptr ≠ some address ∧ heap.blocks address ≠ none) := by
        simp [Refuses]
      by_cases hfails : ptrdiffMax < bytes ∨ (ptr ≠ some address ∧ heap.blocks address ≠ none)
      · exact Or.inl ⟨hrefuses.2 hfails, if_pos hfails⟩
      · have hgives := mt hrefuses.1 hfails
        obtain ⟨hbytes, hfree⟩ := not_or.1 hfails
        have hfree : ptr = some address ∨ heap.blocks address = none := by
          by_cases hptr : ptr = some address
          · exact Or.inl hptr
          · exact Or.inr (not_not.1 fun hused => hfree ⟨hptr, hused⟩)
        right
        simp only [if_neg hfails]
        cases ptr with
        | none =>
            exact ⟨address, _, rfl, rfl, hgives, Nat.le_of_not_lt hbytes, hfree,
              put_same _ _ _, fun other hother _ => put_other _ hother _⟩
        | some old =>
            refine ⟨address, _, rfl, rfl, hgives, Nat.le_of_not_lt hbytes, hfree,
              put_same _ _ _, ?_⟩
            intro other hother hold
            rw [put_other _ hother, put_other _ (fun heq => hold (congrArg some heq.symm))]

/-- A block that `realloc` moved away from is out of use. -/
theorem realloc_moved {old address : Address} {bytes cellSize : ℕ} {choice : Option Address}
    {after : Heap Element}
    (hmoves : heap.realloc (some old) bytes cellSize choice = some (some address, after))
    (hne : old ≠ address) : after.blocks old = none := by
  rw [realloc] at hmoves
  cases hsource : heap.reallocSource (some old) with
  | none => simp [hsource] at hmoves
  | some cells =>
      cases choice with
      | none => simp [hsource] at hmoves
      | some found =>
          simp only [hsource] at hmoves
          split at hmoves
          next => simp at hmoves
          next =>
            cases hmoves
            rw [put_other _ hne, put_same]

end Heap

end Nstl.Heaps
