import Nstl.Core.Framing

/-!
# Reading memory through a window

A routine that is handed the two ends of a buffer may look at the bytes between
them and at no others.  Reads go through the window here, so that a read outside
it, or an index whose machine type overflows, shows up as a fault of the run
instead of being computed on.  A run without a fault computes what the machine
computes.
-/

namespace Nstl.Memory

open Nstl.ByteString
open Nstl.Framing

inductive Fault where
  | readOutside (address : ℕ)
  | indexWrap (index : ℕ)
  deriving DecidableEq, Repr

/-- Memory, of which the addresses from `first` up to `last` may be read. -/
structure Window where
  memory : ℕ → Byte
  first : ℕ
  last : ℕ

/-- The `length` bytes stored from `address` on. -/
def contents (memory : ℕ → Byte) (address length : ℕ) : Bytes :=
  (List.range length).map fun offset => memory (address + offset)

@[simp]
theorem length_contents (memory : ℕ → Byte) (address length : ℕ) :
    (contents memory address length).length = length := by
  simp [contents]

@[simp]
theorem contents_zero (memory : ℕ → Byte) (address : ℕ) :
    contents memory address 0 = [] := rfl

theorem contents_succ (memory : ℕ → Byte) (address length : ℕ) :
    contents memory address (length + 1) =
      memory address :: contents memory (address + 1) length := by
  rw [contents, List.range_succ_eq_map, List.map_cons, List.map_map]
  congr 1
  apply List.map_congr_left
  intro offset _
  simp only [Function.comp_apply]
  congr 1
  omega

theorem contents_add (memory : ℕ → Byte) (address left right : ℕ) :
    contents memory address (left + right) =
      contents memory address left ++ contents memory (address + left) right := by
  induction left generalizing address with
  | zero => simp
  | succ left ih =>
      rw [show left + 1 + right = (left + right) + 1 by omega, contents_succ, ih,
        contents_succ, List.cons_append,
        show address + 1 + left = address + (left + 1) by omega]

theorem take_contents (memory : ℕ → Byte) (address : ℕ) {part length : ℕ}
    (hpart : part ≤ length) :
    (contents memory address length).take part = contents memory address part := by
  obtain ⟨rest, rfl⟩ := Nat.exists_eq_add_of_le hpart
  rw [contents_add, List.take_left' (length_contents _ _ _)]

theorem drop_contents (memory : ℕ → Byte) (address part length : ℕ) :
    (contents memory address length).drop part =
      contents memory (address + part) (length - part) := by
  by_cases hpart : part ≤ length
  · obtain ⟨rest, rfl⟩ := Nat.exists_eq_add_of_le hpart
    rw [contents_add, List.drop_left' (length_contents _ _ _), Nat.add_sub_cancel_left]
  · rw [List.drop_of_length_le (by rw [length_contents]; omega),
      Nat.sub_eq_zero_of_le (by omega), contents_zero]

/-- A memory that stores `bytes` from the address `address` on. -/
def storing (address : ℕ) (bytes : Bytes) : ℕ → Byte :=
  fun position => bytes.getD (position - address) 0

@[simp]
theorem contents_storing (address : ℕ) (bytes : Bytes) :
    contents (storing address bytes) address bytes.length = bytes := by
  apply List.ext_getElem
  · simp
  · intro index _ hright
    simp [contents, storing, List.getD_eq_getElem?_getD, List.getElem?_eq_getElem hright]

namespace Window

variable (window : Window)

/-- The window lets the `length` bytes from `address` on be read. -/
def Covers (address length : ℕ) : Prop :=
  window.first ≤ address ∧ address + length ≤ window.last

def read (address : ℕ) : Except Fault Byte :=
  if window.first ≤ address ∧ address < window.last then
    .ok (window.memory address)
  else .error (.readOutside address)

/-- Copy `length` bytes, one after the other. -/
def readBytes (address : ℕ) : ℕ → Except Fault Bytes
  | 0 => .ok []
  | length + 1 => do
      let byte ← window.read address
      let rest ← readBytes (address + 1) length
      return byte :: rest

def readGet16 (address : ℕ) : Except Fault UInt16 := do
  let high ← window.read address
  let low ← window.read (address + 1)
  return get16 high low

variable {window}

theorem Covers.read {address length : ℕ} (hcovers : window.Covers address length)
    (hlength : 0 < length) : window.read address = .ok (window.memory address) := by
  obtain ⟨hfirst, hlast⟩ := hcovers
  rw [Window.read, if_pos ⟨hfirst, by omega⟩]

/-- Any part of what the window covers is covered. -/
theorem Covers.mono {address length : ℕ}
    (hcovers : window.Covers address length) (part partLength : ℕ)
    (hpart : address ≤ part) (hend : part + partLength ≤ address + length) :
    window.Covers part partLength := by
  obtain ⟨hfirst, hlast⟩ := hcovers
  exact ⟨by omega, by omega⟩

theorem Covers.readBytes {address length : ℕ}
    (hcovers : window.Covers address length) :
    window.readBytes address length = .ok (contents window.memory address length) := by
  induction length generalizing address with
  | zero => rfl
  | succ length ih =>
      rw [Window.readBytes, hcovers.read (by omega),
        ih (hcovers.mono (address + 1) length (by omega) (by omega)), contents_succ]
      rfl

/-- A 16-bit read yields the number whose encoding is stored there. -/
theorem Covers.readGet16 {address : ℕ} (hcovers : window.Covers address 2) :
    ∃ value, window.readGet16 address = .ok value ∧
      bigEndian16 value = contents window.memory address 2 := by
  refine ⟨get16 (window.memory address) (window.memory (address + 1)), ?_, ?_⟩
  · rw [Window.readGet16, hcovers.read (by omega),
      (hcovers.mono (address + 1) 1 (by omega) (by omega)).read (by omega)]
    rfl
  · rw [bigEndian16_get16, contents_succ, contents_succ, contents_zero]

end Window

end Nstl.Memory
