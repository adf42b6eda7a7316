import Mathlib.Data.Int.Notation
import Mathlib.Data.Nat.Notation
import Mathlib.Tactic.Positivity
import Mathlib.Tactic.Ring

/-!
# Streams of bits

Numbers of a fixed width are lists of bits, the most significant one first.
-/

namespace Nstl.BitStream

/-- The lowest bits of a number in two's complement. -/
def bitsOf : ℕ → ℤ → List Bool
  | 0, _ => []
  | width + 1, value => decide (value / 2 ^ width % 2 = 1) :: bitsOf width value

/-- The number that a list of bits stands for. -/
def ofBits : List Bool → ℕ
  | [] => 0
  | bit :: rest => bit.toNat * 2 ^ rest.length + ofBits rest

@[simp]
theorem length_bitsOf (width : ℕ) (value : ℤ) : (bitsOf width value).length = width := by
  induction width with
  | zero => rfl
  | succ width ih => rw [bitsOf, List.length_cons, ih]

theorem ofBits_lt (bits : List Bool) : ofBits bits < 2 ^ bits.length := by
  induction bits with
  | nil => simp [ofBits]
  | cons bit rest ih =>
      rw [ofBits, List.length_cons, Nat.pow_succ]
      cases bit with
      | false => simp; omega
      | true => simp; omega

theorem ofBits_append (left right : List Bool) :
    ofBits (left ++ right) = ofBits left * 2 ^ right.length + ofBits right := by
  induction left with
  | nil => simp [ofBits]
  | cons bit rest ih =>
      rw [List.cons_append, ofBits, ofBits, ih, List.length_append, Nat.pow_add]
      ring

theorem ofBits_replicate_false (count : ℕ) : ofBits (List.replicate count false) = 0 := by
  induction count with
  | zero => rfl
  | succ count ih => simp [List.replicate_succ, ofBits, ih]

private theorem emod_pow_succ (value : ℤ) (width : ℕ) :
    value % 2 ^ (width + 1) = value / 2 ^ width % 2 * 2 ^ width + value % 2 ^ width := by
  have hquotient : value / 2 ^ (width + 1) = value / 2 ^ width / 2 := by
    rw [Int.ediv_ediv_of_nonneg (by positivity), ← pow_succ]
  rw [Int.emod_def, Int.emod_def (value / 2 ^ width), Int.emod_def value (2 ^ width),
    hquotient, pow_succ]
  ring

theorem ofBits_bitsOf (width : ℕ) (value : ℤ) :
    (ofBits (bitsOf width value) : ℤ) = value % 2 ^ width := by
  induction width with
  | zero => simp [bitsOf, ofBits]
  | succ width ih =>
      have hbit : ((decide (value / 2 ^ width % 2 = 1)).toNat : ℤ) = value / 2 ^ width % 2 := by
        rcases Int.emod_two_eq_zero_or_one (value / 2 ^ width) with hzero | hone
        · simp [hzero]
        · simp [hone]
      rw [bitsOf, ofBits, emod_pow_succ, length_bitsOf, Nat.cast_add, Nat.cast_mul, hbit, ih]
      simp

/-- The leading bits are the quotient. -/
theorem take_bitsOf {count width : ℕ} (hcount : count ≤ width) (value : ℤ) :
    (bitsOf width value).take count = bitsOf count (value / 2 ^ (width - count)) := by
  induction width generalizing count with
  | zero =>
      obtain rfl := Nat.le_zero.1 hcount
      rfl
  | succ width ih =>
      cases count with
      | zero => rfl
      | succ count =>
          have hle := Nat.le_of_succ_le_succ hcount
          have hpow : (2 : ℤ) ^ (width - count) * 2 ^ count = 2 ^ width := by
            rw [← pow_add, Nat.sub_add_cancel hle]
          rw [bitsOf, List.take_succ_cons, ih hle, bitsOf, Nat.succ_sub_succ,
            Int.ediv_ediv_of_nonneg (by positivity), hpow]

theorem drop_bitsOf (count width : ℕ) (value : ℤ) :
    (bitsOf width value).drop count = bitsOf (width - count) value := by
  induction width generalizing count with
  | zero => simp [bitsOf]
  | succ width ih =>
      cases count with
      | zero => rfl
      | succ count => rw [bitsOf, List.drop_succ_cons, ih, Nat.succ_sub_succ]

theorem bitsOf_add (first second : ℕ) (value : ℤ) :
    bitsOf (first + second) value = bitsOf first (value / 2 ^ second) ++ bitsOf second value := by
  rw [← List.take_append_drop first (bitsOf (first + second) value),
    take_bitsOf (Nat.le_add_right _ _), drop_bitsOf, Nat.add_sub_cancel_left]

theorem ofBits_bitsOf_natCast (width value : ℕ) :
    ofBits (bitsOf width value) = value % 2 ^ width := by
  have hbits := ofBits_bitsOf width value
  exact_mod_cast hbits

theorem ofBits_bitsOf_div (width shift value : ℕ) :
    ofBits (bitsOf width ((value : ℤ) / 2 ^ shift)) = value / 2 ^ shift % 2 ^ width := by
  have hbits := ofBits_bitsOf_natCast width (value / 2 ^ shift)
  push_cast at hbits
  exact hbits

/-- Reading a number back from its bits. -/
theorem bitsOf_ofBits_add (bits : List Bool) (multiple : ℤ) :
    bitsOf bits.length (multiple * 2 ^ bits.length + ofBits bits) = bits := by
  induction bits generalizing multiple with
  | nil => rfl
  | cons bit rest ih =>
      have hlt : (ofBits rest : ℤ) < 2 ^ rest.length := by
        exact_mod_cast ofBits_lt rest
      have hvalue : multiple * 2 ^ (rest.length + 1) + (ofBits (bit :: rest) : ℤ) =
          (2 * multiple + bit.toNat) * 2 ^ rest.length + ofBits rest := by
        rw [ofBits, pow_succ]
        push_cast
        ring
      have hquotient : ((2 * multiple + bit.toNat) * 2 ^ rest.length + ofBits rest : ℤ) /
          2 ^ rest.length = 2 * multiple + bit.toNat := by
        rw [add_comm, Int.add_mul_ediv_right _ _ (by positivity),
          Int.ediv_eq_zero_of_lt (by positivity) hlt, zero_add]
      have hbit : decide ((2 * multiple + bit.toNat) % 2 = 1) = bit := by
        cases bit with
        | false => simp
        | true => simp [Int.add_emod]
      rw [List.length_cons, hvalue, bitsOf, hquotient, hbit, ih]

theorem bitsOf_ofBits {bits : List Bool} {width : ℕ} (hlength : bits.length = width) :
    bitsOf width (ofBits bits) = bits := by
  have hbits := bitsOf_ofBits_add bits 0
  rwa [zero_mul, zero_add, hlength] at hbits

theorem bitsOf_zero (width : ℕ) : bitsOf width 0 = List.replicate width false := by
  have hbits := bitsOf_ofBits (List.length_replicate : (List.replicate width false).length = width)
  rwa [ofBits_replicate_false] at hbits

/-- Only the lowest bits of a number count. -/
theorem bitsOf_congr {width : ℕ} {left right : ℤ}
    (heq : left % 2 ^ width = right % 2 ^ width) : bitsOf width left = bitsOf width right := by
  have hself : ∀ value : ℤ, bitsOf width (value % 2 ^ width) = bitsOf width value := by
    intro value
    rw [← ofBits_bitsOf, bitsOf_ofBits (length_bitsOf width value)]
  rw [← hself left, heq, hself right]

/-! ## Groups of bits -/

/-- The first `count` bits, with zeros where there are no more. -/
def padded (count : ℕ) (bits : List Bool) : List Bool :=
  (bits ++ List.replicate count false).take count

@[simp]
theorem length_padded (count : ℕ) (bits : List Bool) : (padded count bits).length = count := by
  simp [padded]

theorem padded_of_le {count : ℕ} {bits : List Bool} (hcount : count ≤ bits.length) :
    padded count bits = bits.take count := by
  rw [padded, List.take_append_of_le_length hcount]

theorem padded_of_ge {count : ℕ} {bits : List Bool} (hcount : bits.length ≤ count) :
    padded count bits = bits ++ List.replicate (count - bits.length) false := by
  rw [padded, List.take_append, List.take_of_length_le hcount, List.take_replicate,
    Nat.min_eq_left (Nat.sub_le _ _)]

/-- The bits can be taken in two parts. -/
theorem padded_split {first count : ℕ} {bits : List Bool} (hfirst : first ≤ count)
    (hbits : first ≤ bits.length) :
    padded count bits = bits.take first ++ padded (count - first) (bits.drop first) := by
  by_cases hcount : count ≤ bits.length
  · have hrest : count - first ≤ (bits.drop first).length := by
      rw [List.length_drop]
      omega
    rw [padded_of_le hcount, padded_of_le hrest, ← List.take_add,
      Nat.add_sub_cancel' hfirst]
  · have hrest : (bits.drop first).length ≤ count - first := by
      rw [List.length_drop]
      omega
    rw [padded_of_ge (Nat.le_of_not_le hcount), padded_of_ge hrest, ← List.append_assoc,
      List.take_append_drop, List.length_drop]
    congr 2
    omega

/-- The numbers in the complete groups of a list of bits. -/
def groups (width : ℕ) (bits : List Bool) : List ℕ :=
  if _hgroup : 0 < width ∧ width ≤ bits.length then
    ofBits (bits.take width) :: groups width (bits.drop width)
  else []
termination_by bits.length
decreasing_by
  rw [List.length_drop]
  omega

/-- The numbers in the groups of a list of bits, the last one filled with zeros. -/
def filledGroups (width : ℕ) (bits : List Bool) : List ℕ :=
  if _hgroup : 0 < width ∧ bits ≠ [] then
    ofBits (padded width bits) :: filledGroups width (bits.drop width)
  else []
termination_by bits.length
decreasing_by
  have hpos := List.length_pos_of_ne_nil _hgroup.2
  rw [List.length_drop]
  omega

theorem groups_of_le {width : ℕ} (hwidth : 0 < width) {bits : List Bool}
    (hbits : width ≤ bits.length) :
    groups width bits = ofBits (bits.take width) :: groups width (bits.drop width) := by
  rw [groups, dif_pos ⟨hwidth, hbits⟩]

theorem groups_append {width : ℕ} (hwidth : 0 < width) {first : List Bool}
    (hfirst : first.length = width) (rest : List Bool) :
    groups width (first ++ rest) = ofBits first :: groups width rest := by
  subst hfirst
  rw [groups_of_le hwidth (by simp), List.take_left, List.drop_left]

theorem groups_of_lt {width : ℕ} {bits : List Bool} (hshort : bits.length < width) :
    groups width bits = [] := by
  rw [groups, dif_neg (fun hgroup => absurd hgroup.2 (Nat.not_le.2 hshort))]

theorem length_groups {width : ℕ} (hwidth : 0 < width) (bits : List Bool) :
    (groups width bits).length = bits.length / width := by
  induction hlength : bits.length using Nat.strongRecOn generalizing bits with
  | ind length ih =>
      subst hlength
      by_cases hle : width ≤ bits.length
      · rw [groups_of_le hwidth hle, List.length_cons,
          ih _ (by rw [List.length_drop]; omega) _ rfl, List.length_drop,
          Nat.div_eq_sub_div hwidth hle]
      · rw [groups_of_lt (Nat.lt_of_not_le hle), List.length_nil,
          Nat.div_eq_of_lt (Nat.lt_of_not_le hle)]

@[simp]
theorem filledGroups_nil (width : ℕ) : filledGroups width [] = [] := by
  rw [filledGroups, dif_neg (fun hgroup => hgroup.2 rfl)]

theorem filledGroups_of_ne_nil {width : ℕ} (hwidth : 0 < width) {bits : List Bool}
    (hbits : bits ≠ []) :
    filledGroups width bits =
      ofBits (padded width bits) :: filledGroups width (bits.drop width) := by
  rw [filledGroups, dif_pos ⟨hwidth, hbits⟩]

theorem filledGroups_append {width : ℕ} (hwidth : 0 < width) {first : List Bool}
    (hfirst : first.length = width) (rest : List Bool) :
    filledGroups width (first ++ rest) = ofBits first :: filledGroups width rest := by
  have hne : first ++ rest ≠ [] := by
    intro hnil
    have hlength := congrArg List.length hnil
    rw [List.length_append, List.length_nil] at hlength
    omega
  subst hfirst
  rw [filledGroups_of_ne_nil hwidth hne, padded_of_le (by simp), List.take_left,
    List.drop_left]

theorem lt_of_mem_filledGroups {width : ℕ} {bits : List Bool} {group : ℕ}
    (hgroup : group ∈ filledGroups width bits) : group < 2 ^ width := by
  fun_induction filledGroups width bits with
  | case1 bits hguard ih =>
      rcases List.mem_cons.1 hgroup with rfl | hrest
      · have hlt := ofBits_lt (padded width bits)
        rwa [length_padded] at hlt
      · exact ih hrest
  | case2 => exact absurd hgroup (by simp)

/-- The bits of the filled groups are the bits and the zeros. -/
theorem flatMap_filledGroups {width : ℕ} (hwidth : 0 < width) (bits : List Bool) :
    ∃ zeros, zeros < width ∧ (bits.length + zeros) % width = 0 ∧
      (filledGroups width bits).flatMap (fun group : ℕ => bitsOf width group) =
        bits ++ List.replicate zeros false := by
  fun_induction filledGroups width bits with
  | case1 bits hguard ih =>
      rw [List.flatMap_cons, bitsOf_ofBits (length_padded width bits)]
      by_cases hlong : width ≤ bits.length
      · obtain ⟨zeros, hzeros, hmod, hrest⟩ := ih
        refine ⟨zeros, hzeros, ?_, ?_⟩
        · rw [List.length_drop] at hmod
          rw [← hmod, ← Nat.add_mod_right (bits.length - width + zeros) width]
          congr 1
          omega
        · rw [hrest, padded_of_le hlong, ← List.append_assoc, List.take_append_drop]
      · have hshort := Nat.le_of_not_le hlong
        have hpos := List.length_pos_of_ne_nil hguard.2
        refine ⟨width - bits.length, by omega, ?_, ?_⟩
        · rw [Nat.add_sub_cancel' hshort, Nat.mod_self]
        · rw [List.drop_of_length_le hshort, filledGroups_nil, List.flatMap_nil,
            List.append_nil, padded_of_ge hshort]
  | case2 bits hguard =>
      have hnil : bits = [] := by
        by_contra hne
        exact hguard ⟨hwidth, hne⟩
      exact ⟨0, hwidth, by simp [hnil], by simp [hnil]⟩

end Nstl.BitStream
