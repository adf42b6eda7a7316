import Nstl.Core.KeyedOrder

/-!
# Maps in a sorted sequence

A map that keeps its entries in one sequence, in the order of their keys.  A lookup is
a binary search.  An insertion looks for its place first, and a hint where the place
could be saves comparisons and changes nothing else.
-/

namespace Nstl.Container

open Nstl.KeyedOrder

variable {Key Value : Type*} [LinearOrder Key]

/-! ## Places -/

section Place

/-- Whether the key comes before the entry, if there is one. -/
def comesBefore (key : Key) : Option (Key × Value) → Bool
  | none => true
  | some entry => decide (key < entry.1)

/-- The first of the entries from `first` up to `last` that is not less than the key. -/
def lowerBoundIn (entries : List (Key × Value)) (key : Key) (first last : ℕ) : ℕ :=
  first + partitionPoint (fun entry => decide (entry.1 < key)) ((entries.take last).drop first)

/-- The place of a key between two positions, and whether it would be new there. -/
def placeIn (entries : List (Key × Value)) (key : Key) (first last : ℕ) : ℕ × Bool :=
  let pos := lowerBoundIn entries key first last
  (pos, pos == last || comesBefore key entries[pos]?)

def place (entries : List (Key × Value)) (key : Key) : ℕ × Bool :=
  placeIn entries key 0 entries.length

/-- The search with a hint: the key may belong right there, or what is searched is the
side of the hint on which it belongs. -/
def placeAt (entries : List (Key × Value)) (hint : ℕ) (key : Key) : ℕ × Bool :=
  if comesBefore key entries[hint]? then
    match hint with
    | 0 => (0, true)
    | prev + 1 =>
        match entries[prev]? with
        | none => place entries key
        | some entry =>
            if entry.1 < key then (prev + 1, true)
            else if !decide (key < entry.1) then (prev, false)
            else placeIn entries key 0 prev
  else placeIn entries key hint entries.length

variable {entries : List (Key × Value)} {key : Key} {point : ℕ}

/-- The entries with smaller keys are the first `point` ones. -/
abbrev IsPlace (entries : List (Key × Value)) (key : Key) (point : ℕ) : Prop :=
  PartitionedAt (fun entry => decide (entry.1 < key)) entries point

theorem IsPlace.lt_iff (hpoint : IsPlace entries key point) {i : ℕ} {entry : Key × Value}
    (hentry : entries[i]? = some entry) : entry.1 < key ↔ i < point := by
  rw [← hpoint.2 i entry hentry, decide_eq_true_eq]

theorem exists_isPlace (hascending : Ascending Prod.fst entries) (key : Key) :
    ∃ point, IsPlace entries key point := by
  apply partitionedAt_of_pairwise
  apply hascending.imp
  intro left right hless hright
  rw [decide_eq_true_eq] at hright ⊢
  exact hless.trans hright

theorem Ascending.lt_of_lt (hascending : Ascending Prod.fst entries) {i j : ℕ}
    {left right : Key × Value} (hleft : entries[i]? = some left)
    (hright : entries[j]? = some right) (hij : i < j) : left.1 < right.1 := by
  obtain ⟨hi, rfl⟩ := List.getElem?_eq_some_iff.1 hleft
  obtain ⟨hj, rfl⟩ := List.getElem?_eq_some_iff.1 hright
  exact List.pairwise_iff_getElem.1 hascending i j hi hj hij

/-- A position whose entry is not behind the key does not lie behind the key's place. -/
theorem IsPlace.le_point (hpoint : IsPlace entries key point)
    (hascending : Ascending Prod.fst entries) {i : ℕ} {entry : Key × Value}
    (hentry : entries[i]? = some entry) (hle : entry.1 ≤ key) : i ≤ point := by
  by_contra hlt
  have hi := (List.getElem?_eq_some_iff.1 hentry).1
  have hsome := List.getElem?_eq_getElem (show point < entries.length by omega)
  have hless := Ascending.lt_of_lt hascending hsome hentry (by omega)
  exact Nat.lt_irrefl point ((hpoint.lt_iff hsome).1 (hless.trans_le hle))

theorem IsPlace.index_eq (hpoint : IsPlace entries key point)
    (hascending : Ascending Prod.fst entries) {i : ℕ} {value : Value}
    (hentry : entries[i]? = some (key, value)) : i = point := by
  apply Nat.le_antisymm (hpoint.le_point hascending hentry le_rfl)
  apply Nat.le_of_not_lt
  intro hlt
  exact lt_irrefl key ((hpoint.lt_iff hentry).2 hlt)

/-- The key is there exactly if its place holds it. -/
theorem IsPlace.absent_iff (hpoint : IsPlace entries key point)
    (hascending : Ascending Prod.fst entries) :
    comesBefore key entries[point]? = true ↔ ∀ entry ∈ entries, entry.1 ≠ key := by
  constructor
  · intro hbefore entry hmem heq
    obtain ⟨i, hentry⟩ := List.mem_iff_getElem?.1 hmem
    subst heq
    rw [← hpoint.index_eq hascending hentry, hentry] at hbefore
    exact lt_irrefl entry.1 (of_decide_eq_true hbefore)
  · intro habsent
    cases hentry : entries[point]? with
    | none => rfl
    | some entry =>
        have hnotLess : ¬entry.1 < key := fun hless =>
          Nat.lt_irrefl point ((hpoint.lt_iff hentry).1 hless)
        have hne := habsent entry (List.mem_of_getElem? hentry)
        exact decide_eq_true (lt_of_le_of_ne (not_lt.1 hnotLess) hne.symm)

theorem IsPlace.lowerBoundIn_eq (hpoint : IsPlace entries key point) {first last : ℕ}
    (hfirst : first ≤ point) (hlast : point ≤ last) (hlength : last ≤ entries.length) :
    lowerBoundIn entries key first last = point := by
  have hwithin : IsPlace ((entries.take last).drop first) key (point - first) := by
    constructor
    · rw [List.length_drop, List.length_take]
      omega
    · intro i entry hentry
      rw [List.getElem?_drop, List.getElem?_take] at hentry
      split at hentry
      · rw [hpoint.2 _ entry hentry]
        omega
      · cases hentry
  rw [lowerBoundIn, partitionPoint_eq hwithin]
  omega

/-- A search between two positions is enough if the key does not come behind the
second one. -/
theorem IsPlace.placeIn_eq (hpoint : IsPlace entries key point) {first last : ℕ}
    (hfirst : first ≤ point) (hlast : point ≤ last) (hlength : last ≤ entries.length)
    (hend : comesBefore key entries[last]? = true) :
    placeIn entries key first last = (point, comesBefore key entries[point]?) := by
  simp only [placeIn, hpoint.lowerBoundIn_eq hfirst hlast hlength]
  by_cases hequal : point = last
  · rw [hequal, hend, Bool.or_true]
  · rw [beq_false_of_ne hequal, Bool.false_or]

theorem comesBefore_end (entries : List (Key × Value)) (key : Key) :
    comesBefore key entries[entries.length]? = true := by
  rw [List.getElem?_eq_none (Nat.le_refl _)]
  rfl

theorem IsPlace.place_eq (hpoint : IsPlace entries key point) :
    place entries key = (point, comesBefore key entries[point]?) :=
  hpoint.placeIn_eq (Nat.zero_le _) hpoint.1 (Nat.le_refl _) (comesBefore_end entries key)

/-- A position that the key comes before does not lie in front of the key's place. -/
theorem IsPlace.point_le (hpoint : IsPlace entries key point) {i : ℕ}
    (hbefore : comesBefore key entries[i]? = true) : point ≤ i := by
  by_contra hlt
  have hi : i < entries.length := Nat.lt_of_lt_of_le (Nat.lt_of_not_le hlt) hpoint.1
  have hentry := List.getElem?_eq_getElem hi
  rw [hentry] at hbefore
  have hless := (hpoint.lt_iff hentry).2 (Nat.lt_of_not_le hlt)
  exact lt_asymm hless (of_decide_eq_true hbefore)

/-- A key that comes before the hint belongs right behind the entry in front of the
hint, or is that entry's, or belongs further in front. -/
theorem IsPlace.behind_prev_eq (hpoint : IsPlace entries key point)
    (hascending : Ascending Prod.fst entries) {prev : ℕ} {entry : Key × Value}
    (hentry : entries[prev]? = some entry)
    (hbefore : comesBefore key entries[prev + 1]? = true) :
    (if entry.1 < key then (prev + 1, true)
      else if !decide (key < entry.1) then (prev, false)
      else placeIn entries key 0 prev) = (point, comesBefore key entries[point]?) := by
  rcases lt_trichotomy entry.1 key with hless | hequal | hbehind
  · have hlt := (hpoint.lt_iff hentry).1 hless
    have hle := hpoint.point_le hbefore
    obtain rfl : point = prev + 1 := by omega
    rw [if_pos hless, hbefore]
  · subst hequal
    obtain rfl := hpoint.index_eq hascending hentry
    simp [hentry, comesBefore]
  · have hend : comesBefore key entries[prev]? = true := by
      rw [hentry]
      exact decide_eq_true hbehind
    have hlength := (List.getElem?_eq_some_iff.1 hentry).1
    rw [if_neg (lt_asymm hbehind), decide_eq_true hbehind, Bool.not_true,
      if_neg Bool.false_ne_true]
    exact hpoint.placeIn_eq (Nat.zero_le _) (hpoint.point_le hend) hlength.le hend

/-- The hint makes no difference. -/
theorem placeAt_eq (hascending : Ascending Prod.fst entries) (hint : ℕ) (key : Key) :
    placeAt entries hint key = place entries key := by
  obtain ⟨point, hpoint⟩ := exists_isPlace hascending key
  rw [hpoint.place_eq]
  unfold placeAt
  split
  next hbefore =>
      split
      next =>
          obtain rfl := Nat.le_zero.1 (hpoint.point_le hbefore)
          rw [hbefore]
      next prev =>
          split
          next => exact hpoint.place_eq
          next entry hentry => exact hpoint.behind_prev_eq hascending hentry hbefore
  next hnotBefore =>
      cases hentry : entries[hint]? with
      | none =>
          rw [hentry] at hnotBefore
          exact absurd rfl hnotBefore
      | some entry =>
          rw [hentry] at hnotBefore
          have hle : entry.1 ≤ key := not_lt.1 fun hlt => hnotBefore (decide_eq_true hlt)
          exact hpoint.placeIn_eq (hpoint.le_point hascending hentry hle) hpoint.1
            (Nat.le_refl _) (comesBefore_end entries key)

theorem IsPlace.lt_of_mem_take (hpoint : IsPlace entries key point) {entry : Key × Value}
    (hentry : entry ∈ entries.take point) : entry.1 < key := by
  obtain ⟨i, hi⟩ := List.mem_iff_getElem?.1 hentry
  rw [List.getElem?_take] at hi
  split at hi
  next hlt => exact (hpoint.lt_iff hi).2 hlt
  next => cases hi

theorem IsPlace.le_of_mem_drop (hpoint : IsPlace entries key point) {entry : Key × Value}
    (hentry : entry ∈ entries.drop point) : key ≤ entry.1 := by
  obtain ⟨i, hi⟩ := List.mem_iff_getElem?.1 hentry
  rw [List.getElem?_drop] at hi
  apply not_lt.1
  intro hless
  have hlt := (hpoint.lt_iff hi).1 hless
  omega

/-- A new key fits in at its place. -/
theorem IsPlace.ascending (hpoint : IsPlace entries key point)
    (hascending : Ascending Prod.fst entries) (habsent : ∀ entry ∈ entries, entry.1 ≠ key)
    (value : Value) :
    Ascending Prod.fst (entries.take point ++ (key, value) :: entries.drop point) := by
  have hbehind : ∀ entry ∈ entries.drop point, key < entry.1 := by
    intro entry hentry
    exact lt_of_le_of_ne (hpoint.le_of_mem_drop hentry)
      (habsent entry (List.mem_of_mem_drop hentry)).symm
  refine List.pairwise_append.2 ⟨hascending.take, ?_, ?_⟩
  · exact List.pairwise_cons.2 ⟨hbehind, hascending.drop⟩
  · intro left hleft right hright
    have hless := hpoint.lt_of_mem_take hleft
    cases List.mem_cons.1 hright with
    | inl heq => exact heq ▸ hless
    | inr hmem => exact hless.trans (hbehind right hmem)

end Place

/-! ## The map -/

@[ext]
structure SortedMap (Key Value : Type*) [LinearOrder Key] where
  entries : List (Key × Value)
  ascending : Ascending Prod.fst entries

namespace SortedMap

def empty : SortedMap Key Value := ⟨[], List.Pairwise.nil⟩

def size (map : SortedMap Key Value) : ℕ := map.entries.length

def find (map : SortedMap Key Value) (key : Key) : Option Value :=
  match map.entries[lowerBoundIn map.entries key 0 map.size]? with
  | none => none
  | some entry => if key < entry.1 then none else some entry.2

theorem place_spec (map : SortedMap Key Value) (key : Key) :
    IsPlace map.entries key (place map.entries key).1 ∧
      ((place map.entries key).2 = true ↔ ∀ entry ∈ map.entries, entry.1 ≠ key) := by
  obtain ⟨point, hpoint⟩ := exists_isPlace map.ascending key
  rw [hpoint.place_eq]
  exact ⟨hpoint, hpoint.absent_iff map.ascending⟩

/-- Put the entry in its place, unless the key is there. -/
def commit (map : SortedMap Key Value) (key : Key) (value : Value) (found : ℕ × Bool)
    (hfound : found = place map.entries key) : SortedMap Key Value :=
  if hnew : found.2 = true then
    { entries := map.entries.take found.1 ++ (key, value) :: map.entries.drop found.1
      ascending := by
        rw [hfound] at hnew ⊢
        obtain ⟨hpoint, habsent⟩ := map.place_spec key
        exact hpoint.ascending map.ascending (habsent.1 hnew) value }
  else map

/-- The map, the position of the key and whether it is new. -/
def emplace (map : SortedMap Key Value) (key : Key) (value : Value) :
    SortedMap Key Value × ℕ × Bool :=
  let found := place map.entries key
  (map.commit key value found rfl, found)

/-- The map and the position of the key. -/
def emplaceHint (map : SortedMap Key Value) (hint : ℕ) (key : Key) (value : Value) :
    SortedMap Key Value × ℕ :=
  let found := placeAt map.entries hint key
  (map.commit key value found (placeAt_eq map.ascending hint key), found.1)

variable {map : SortedMap Key Value} {key other : Key} {value : Value}

theorem find_eq_some_iff : map.find key = some value ↔ (key, value) ∈ map.entries := by
  obtain ⟨point, hpoint⟩ := exists_isPlace map.ascending key
  rw [find, size, hpoint.lowerBoundIn_eq (Nat.zero_le _) hpoint.1 (Nat.le_refl _)]
  constructor
  · intro hfind
    split at hfind
    next => cases hfind
    next entry hentry =>
        split at hfind
        next => cases hfind
        next hnotBefore =>
            have hnotLess : ¬entry.1 < key := fun hless =>
              Nat.lt_irrefl point ((hpoint.lt_iff hentry).1 hless)
            have hkey : entry.1 = key := le_antisymm (not_lt.1 hnotBefore) (not_lt.1 hnotLess)
            have hmem := List.mem_of_getElem? hentry
            rwa [← hkey, ← Option.some.inj hfind]
  · intro hmem
    obtain ⟨i, hentry⟩ := List.mem_iff_getElem?.1 hmem
    rw [← hpoint.index_eq map.ascending hentry, hentry]
    exact if_neg (lt_irrefl key)

theorem find_eq_none_iff : map.find key = none ↔ ∀ entry ∈ map.entries, entry.1 ≠ key := by
  rw [Option.eq_none_iff_forall_not_mem]
  constructor
  · rintro hnone ⟨other, value⟩ hmem rfl
    exact hnone value (find_eq_some_iff.2 hmem)
  · intro habsent value hfind
    exact habsent _ (find_eq_some_iff.1 hfind) rfl

theorem fresh_iff : (place map.entries key).2 = true ↔ map.find key = none := by
  rw [(map.place_spec key).2, find_eq_none_iff]

theorem find_empty : (empty : SortedMap Key Value).find key = none :=
  find_eq_none_iff.2 (by simp [empty])

theorem emplaceHint_eq (map : SortedMap Key Value) (hint : ℕ) (key : Key) (value : Value) :
    (map.emplaceHint hint key value).1 = (map.emplace key value).1 := by
  simp only [emplaceHint, emplace, placeAt_eq map.ascending]

theorem emplace_known (hfind : map.find key ≠ none) : (map.emplace key value).1 = map :=
  dif_neg fun hnew => hfind (fresh_iff.1 hnew)

theorem entries_emplace (hfind : map.find key = none) :
    (map.emplace key value).1.entries.Perm ((key, value) :: map.entries) := by
  have hnew := fresh_iff.2 hfind
  simp only [emplace, commit, dif_pos hnew]
  refine List.perm_middle.trans ?_
  rw [List.take_append_drop]

theorem find_emplace_of_ne (hne : other ≠ key) :
    (map.emplace key value).1.find other = map.find other := by
  cases hfind : map.find key with
  | some old => rw [emplace_known (by rw [hfind]; exact Option.some_ne_none _)]
  | none =>
      ext found
      rw [find_eq_some_iff, find_eq_some_iff, (entries_emplace hfind).mem_iff, List.mem_cons,
        or_iff_right]
      intro heq
      exact hne (congrArg Prod.fst heq)

end SortedMap

end Nstl.Container
