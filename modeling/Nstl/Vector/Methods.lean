import Mathlib.Data.Int.Notation
import Nstl.Core.Heap
import Nstl.Core.Program

/-!
# The methods of `nstl::vector`

A vector is a pointer to a block, the number of its elements and the number of
elements the block has room for.  The methods are programs over the heap and the
vectors that are alive; two methods that are called with the same object twice
see it twice.

Iterators are offsets from `begin()`.  Every method calls `realloc` at most once,
so one choice of the allocator is enough for a call.
-/

namespace Nstl.Vectors

open Nstl.Heaps
open Nstl.Programs

/-- The exceptions of the methods. -/
inductive Throw where
  | lengthError
  | badAlloc
  | runtimeError
  | invalidArgument
  | outOfRange
  deriving DecidableEq, Repr

structure Vec where
  ptr : Option Address
  size : ℕ
  capacity : ℕ
  deriving DecidableEq, Repr

/-- The members of a vector before the body of a constructor. -/
def Vec.initial : Vec := ⟨none, 0, 0⟩

/-- The objects of a program, and the local object of the copy assignment. -/
inductive ObjectId where
  | named (name : ℕ)
  | temporary
  deriving DecidableEq, Repr

/-- The heap and the vectors that are alive. -/
structure Store (Element : Type) where
  heap : Heap Element
  objects : ObjectId → Option Vec

/-- Arithmetic on `size_t`. -/
def wrap (value : ℕ) : ℕ := value % 2 ^ 64

variable {Element : Type}

def Store.setObject (store : Store Element) (this : ObjectId) (vec : Option Vec) :
    Store Element :=
  { store with objects := Function.update store.objects this vec }

@[simp]
theorem Store.setObject_same (store : Store Element) (this : ObjectId) (vec : Option Vec) :
    (store.setObject this vec).objects this = vec :=
  Function.update_self _ _ _

theorem Store.setObject_other (store : Store Element) {this other : ObjectId}
    (hne : other ≠ this) (vec : Option Vec) :
    (store.setObject this vec).objects other = store.objects other :=
  Function.update_of_ne hne _ _

abbrev Method (Element Value : Type) := Program (Store Element) Throw Value

/-! ## Objects and memory -/

/-- The members of an object. -/
def members (this : ObjectId) : Method Element Vec :=
  Program.update fun store => (store.objects this).map fun vec => (vec, store)

/-- Change members of an object. -/
def assign (this : ObjectId) (change : Vec → Vec) : Method Element Unit :=
  Program.update fun store =>
    (store.objects this).map fun vec => ((), store.setObject this (some (change vec)))

/-- A call of a function of the C library. -/
def onHeap {Value : Type} (call : Heap Element → Option (Value × Heap Element)) :
    Method Element Value :=
  Program.update fun store =>
    (call store.heap).map fun result => (result.1, { store with heap := result.2 })

/-- Run a constructor.  If its body throws there is no object. -/
def constructing (this : ObjectId) (body : Method Element Unit) : Method Element Unit :=
  Program.onThrow
    (do
      Program.update fun store => some ((), store.setObject this (some Vec.initial))
      body)
    (fun store => store.setObject this none)

/-! ## Capacity -/

section Growth

variable (cellSize : ℕ) (choice : Option Address)

def maxCapacity : ℕ := sizeMax / cellSize

def memReserve (this : ObjectId) (newCapacity : ℕ) : Method Element (Option Address) :=
  if maxCapacity cellSize < newCapacity then
    Program.raise .lengthError
  else do
    let vec ← members this
    let ptr ← onHeap (·.realloc vec.ptr (wrap (newCapacity * cellSize)) cellSize choice)
    if ptr = none then
      Program.raise .badAlloc
    else do
      assign this fun vec => { vec with ptr := ptr, capacity := newCapacity }
      return ptr

def autoCapacity (this : ObjectId) (needed : ℕ) : Method Element (Option Address) := do
  let vec ← members this
  if needed ≤ vec.capacity then
    return vec.ptr
  else if needed < 16 then
    memReserve cellSize choice this 16
  else
    memReserve cellSize choice this (max needed (wrap (vec.capacity * 2)))

def reserve (this : ObjectId) (newCapacity : ℕ) : Method Element Unit := do
  let _ ← autoCapacity cellSize choice this newCapacity
  return ()

/-- Both overloads of `push_back`: elements are copied byte by byte. -/
def pushBack (this : ObjectId) (value : Element) : Method Element Unit := do
  let vec ← members this
  let newSize := wrap (vec.size + 1)
  let ptr ← autoCapacity cellSize choice this newSize
  onHeap (·.constructAt ptr vec.size value)
  assign this fun vec => { vec with size := newSize }

end Growth

/-! ## Removing elements -/

/-- The loop of `clear`, from the last element down. -/
def clearFrom (this : ObjectId) : ℕ → Method Element Unit
  | 0 => return ()
  | size + 1 => do
      let vec ← members this
      onHeap (·.destroyAt vec.ptr size)
      assign this fun vec => { vec with size := size }
      clearFrom this size

def clear (this : ObjectId) : Method Element Unit := do
  let vec ← members this
  clearFrom this vec.size

def reset (this : ObjectId) : Method Element Unit := do
  clear this
  let vec ← members this
  onHeap (·.free vec.ptr)
  assign this fun vec => { vec with ptr := none, capacity := 0 }

/-- The destructor. -/
def destroy (this : ObjectId) : Method Element Unit := do
  reset this
  Program.update fun store => some ((), store.setObject this none)

def popBack (this : ObjectId) : Method Element Unit := do
  let vec ← members this
  if vec.size = 0 then
    Program.raise .runtimeError
  else do
    assign this fun vec => { vec with size := vec.size - 1 }
    onHeap (·.destroyAt vec.ptr (vec.size - 1))

/-- `_check_iterator`; `valid` excludes the end. -/
def checkIterator (valid : Bool) (this : ObjectId) (itr : ℤ) : Method Element Unit := do
  let vec ← members this
  if itr < 0 then
    Program.raise .invalidArgument
  else if valid then
    if (vec.size : ℤ) ≤ itr then Program.raise .invalidArgument else return ()
  else
    if (vec.size : ℤ) < itr then Program.raise .invalidArgument else return ()

/-- `erase(iterator)` behind its check, with the iterator it returns. -/
def removeAt (this : ObjectId) (itr : ℤ) : Method Element ℤ := do
  let vec ← members this
  let dist := (vec.size : ℤ) - itr - 1
  if dist = 0 then do
    popBack this
    let vec ← members this
    return vec.size
  else do
    onHeap (·.destroyAt vec.ptr itr.toNat)
    onHeap (·.memmove vec.ptr itr.toNat (itr.toNat + 1) dist.toNat)
    assign this fun vec => { vec with size := vec.size - 1 }
    return itr

def erase (this : ObjectId) (itr : ℤ) : Method Element ℤ := do
  checkIterator true this itr
  removeAt this itr

/-- The loop that destroys `count` elements. -/
def destroyElements (ptr : Option Address) : ℕ → ℕ → Method Element Unit
  | _, 0 => return ()
  | index, count + 1 => do
      onHeap (·.destroyAt ptr index)
      destroyElements ptr (index + 1) count

/-- `erase(iterator, iterator)` behind its checks. -/
def removeRange (this : ObjectId) (first last : ℤ) : Method Element ℤ := do
  let vec ← members this
  destroyElements vec.ptr first.toNat (last - first).toNat
  let dist := (vec.size : ℤ) - last
  assign this fun vec => { vec with size := vec.size - (last - first).toNat }
  if 0 < dist then do
    onHeap (·.memmove vec.ptr first.toNat last.toNat dist.toNat)
    return first
  else
    return first

def eraseRange (this : ObjectId) (first last : ℤ) : Method Element ℤ :=
  if first = last then
    return last
  else do
    checkIterator false this first
    checkIterator false this last
    if last < first then
      Program.raise .invalidArgument
    else
      removeRange this first last

/-- `at`. -/
def atIndex (this : ObjectId) (idx : ℕ) : Method Element Element := do
  let vec ← members this
  if idx < vec.size then
    onHeap (·.readAt vec.ptr idx)
  else
    Program.raise .outOfRange

/-- `release`: the members are handed to the caller. -/
def release (this : ObjectId) : Method Element Vec := do
  let vec ← members this
  assign this fun _ => Vec.initial
  return vec

/-! ## Construction and assignment -/

def defaultConstruct (this : ObjectId) : Method Element Unit :=
  constructing this (return ())

/-- The members of two objects change places. -/
def swap (this other : ObjectId) : Method Element Unit := do
  let left ← members this
  let right ← members other
  assign this fun _ => right
  assign other fun _ => left

def copyConstruct (cellSize : ℕ) (choice : Option Address) (this other : ObjectId) :
    Method Element Unit :=
  constructing this do
    let source ← members other
    if source.size = 0 then
      return ()
    else do
      let ptr ← autoCapacity cellSize choice this source.size
      onHeap (·.memcpy ptr source.ptr source.size)
      assign this fun vec => { vec with size := source.size }

def copyAssign (cellSize : ℕ) (choice : Option Address) (this other : ObjectId) :
    Method Element Unit :=
  if this ≠ other then do
    copyConstruct cellSize choice .temporary other
    swap this .temporary
    destroy .temporary
  else
    return ()

def moveConstruct (this other : ObjectId) : Method Element Unit :=
  constructing this (swap this other)

def moveAssign (this other : ObjectId) : Method Element Unit :=
  if this ≠ other then do
    reset this
    swap this other
  else
    return ()

end Nstl.Vectors
