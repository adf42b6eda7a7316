import Nstl.Text.SplitView

/-!
# Printing of ranges

`range_print` writes the items of a range with a delimiter between them, `range_map_print` the
keys and the values of a map with a second delimiter between the two.  Neither quotes anything:
whether a range can be read back with `split_view_func` is a matter of what its items contain, and
of `skip_empty_`, which has to be false for items without a character.
-/

namespace Nstl.RangePrint

open Nstl.SplitView

/-! ## Texts that are joined -/

section Joined

variable {CharT : Type*} {delim : CharT}

theorem intercalate_cons (sep text : List CharT) (texts : List (List CharT)) :
    sep.intercalate (text :: texts) = text ++ texts.flatMap (sep ++ ·) := by
  induction texts generalizing text with
  | nil => simp
  | cons next texts ih =>
      rw [List.intercalate_cons_cons, ih, List.flatMap_cons]
      simp only [List.append_assoc]

theorem intercalate_append {sep : List CharT} {front back : List (List CharT)}
    (hfront : front ≠ []) (hback : back ≠ []) :
    sep.intercalate (front ++ back) = sep.intercalate front ++ sep ++ sep.intercalate back := by
  obtain ⟨first, front, rfl⟩ := List.exists_cons_of_ne_nil hfront
  obtain ⟨second, back, rfl⟩ := List.exists_cons_of_ne_nil hback
  rw [List.cons_append, intercalate_cons, intercalate_cons, intercalate_cons,
    List.flatMap_append, List.flatMap_cons]
  simp only [List.append_assoc]

/-- Texts that are joined behind the same texts. -/
theorem intercalate_append_congr {sep : List CharT} {left right : List (List CharT)}
    (front : List (List CharT)) (hleft : left ≠ []) (hright : right ≠ [])
    (heq : sep.intercalate left = sep.intercalate right) :
    sep.intercalate (front ++ left) = sep.intercalate (front ++ right) := by
  cases front with
  | nil => exact heq
  | cons text front =>
      rw [intercalate_append (List.cons_ne_nil _ _) hleft,
        intercalate_append (List.cons_ne_nil _ _) hright, heq]

/-- A delimiter in a text and the one next to the text can change their parts. -/
theorem intercalate_shift (front : List (List CharT)) (first second third : List CharT)
    (back : List (List CharT)) :
    [delim].intercalate (front ++ first :: (second ++ delim :: third) :: back) =
      [delim].intercalate (front ++ (first ++ delim :: second) :: third :: back) := by
  refine intercalate_append_congr front (List.cons_ne_nil _ _) (List.cons_ne_nil _ _) ?_
  simp [intercalate_cons]

theorem mem_intercalate_of_mem {sep text : List CharT} {texts : List (List CharT)} {ch : CharT}
    (htext : text ∈ texts) (hch : ch ∈ text) : ch ∈ sep.intercalate texts := by
  obtain ⟨front, back, rfl⟩ := List.append_of_mem htext
  have htail : ch ∈ sep.intercalate (text :: back) := by
    rw [intercalate_cons]
    exact List.mem_append_left _ hch
  cases front with
  | nil => exact htail
  | cons first front =>
      rw [intercalate_append (List.cons_ne_nil _ _) (List.cons_ne_nil _ _)]
      exact List.mem_append_right _ htail

/-- Two texts next to each other, one of which has the delimiter. -/
theorem exists_adjacent {texts : List (List CharT)} (hlength : 2 ≤ texts.length)
    {text : List CharT} (htext : text ∈ texts) (hdelim : delim ∈ text) :
    ∃ front first second back, texts = front ++ first :: second :: back ∧
      (delim ∈ first ∨ delim ∈ second) := by
  obtain ⟨front, back, rfl⟩ := List.append_of_mem htext
  cases back with
  | cons next back => exact ⟨front, text, next, back, rfl, .inl hdelim⟩
  | nil =>
      rcases List.eq_nil_or_concat front with rfl | ⟨front, before, rfl⟩
      · exact absurd hlength (by simp)
      · exact ⟨front, before, text, [], by simp, .inr hdelim⟩

variable [DecidableEq CharT]

/-- There is one delimiter between two texts each, and there are those in the texts. -/
theorem count_intercalate {texts : List (List CharT)} (hne : texts ≠ []) :
    ([delim].intercalate texts).count delim + 1 = texts.flatten.count delim + texts.length := by
  induction texts with
  | nil => contradiction
  | cons text texts ih =>
      cases texts with
      | nil => rw [List.intercalate_singleton, List.flatten_singleton, List.length_singleton]
      | cons next texts =>
          have hrest := ih (List.cons_ne_nil _ _)
          rw [List.intercalate_cons_cons, List.count_append, List.count_append,
            List.count_singleton_self, List.flatten_cons, List.count_append, List.length_cons]
          omega

/-- Joined texts are split where they were joined if there are as many afterwards. -/
theorem notMem_of_length_splitOn {texts : List (List CharT)} (hne : texts ≠ [])
    (hlength : (([delim].intercalate texts).splitOn delim).length = texts.length) :
    ∀ text ∈ texts, delim ∉ text := by
  rw [length_splitOn, count_intercalate hne] at hlength
  have hnone : delim ∉ texts.flatten := List.count_eq_zero.1 (by omega)
  exact fun text htext hmem => hnone (List.mem_flatten.2 ⟨text, htext, hmem⟩)

/-- Texts are read back exactly if the delimiter is in none of them. -/
theorem splitOn_intercalate_iff {texts : List (List CharT)} (hne : texts ≠ []) :
    ([delim].intercalate texts).splitOn delim = texts ↔ ∀ text ∈ texts, delim ∉ text :=
  ⟨fun heq => notMem_of_length_splitOn hne (congrArg List.length heq),
    fun hnone => List.splitOn_intercalate delim hnone hne⟩

/-- How many texts there were and what they are joined tell the texts, exactly if there was
only one or the delimiter is in none of them. -/
theorem intercalate_determined_iff (delim : CharT) {texts : List (List CharT)} (hne : texts ≠ []) :
    (∀ others : List (List CharT), others.length = texts.length →
      [delim].intercalate others = [delim].intercalate texts → others = texts) ↔
      texts.length = 1 ∨ ∀ text ∈ texts, delim ∉ text := by
  have hpos := List.length_pos_of_ne_nil hne
  constructor
  · intro hdetermined
    by_contra! hnot
    obtain ⟨hlength, text, htext, hdelim⟩ := hnot
    obtain ⟨front, first, second, back, rfl, hadjacent⟩ :=
      exists_adjacent (by omega) htext hdelim
    -- the delimiter in the text and the one next to the text change their parts
    rcases hadjacent with hfirst | hsecond
    · obtain ⟨before, after, rfl⟩ := List.append_of_mem hfirst
      have hsame := hdetermined _ (by simp) (intercalate_shift front before after second back)
      simp at hsame
    · obtain ⟨before, after, rfl⟩ := List.append_of_mem hsecond
      have hsame := hdetermined _ (by simp) (intercalate_shift front first before after back).symm
      simp at hsame
  · rintro (hone | hnone) others hlength heq
    · obtain ⟨text, rfl⟩ := List.length_eq_one_iff.1 hone
      obtain ⟨other, rfl⟩ := List.length_eq_one_iff.1 hlength
      rw [List.intercalate_singleton, List.intercalate_singleton] at heq
      rw [heq]
    · have hothers : others ≠ [] := List.ne_nil_of_length_pos (by omega)
      have hsplit := (splitOn_intercalate_iff hne).2 hnone
      rw [← heq] at hsplit
      have hclean := notMem_of_length_splitOn hothers (by rw [hsplit, hlength])
      rw [← (splitOn_intercalate_iff hothers).2 hclean, hsplit]

end Joined

/-! ## The streamers -/

section Streamers

variable {CharT Item Key Value : Type*}

/-- The loop of both `operator<<`: what is put for each item, with the delimiter in front. -/
def streamLoop (put : List CharT → Item → List CharT) (delim : List CharT) (os : List CharT) :
    List Item → List CharT
  | [] => os
  | item :: rest => streamLoop put delim (put (os ++ delim) item) rest

def streamRange (put : List CharT → Item → List CharT) (delim : List CharT) (os : List CharT) :
    List Item → List CharT
  | [] => os
  | item :: rest => streamLoop put delim (put os item) rest

structure Streamer (Item CharT : Type*) where
  range : List Item
  delim : List CharT

/-- `operator<<` for a `Streamer`, with the texts of the items. -/
def Streamer.write (text : Item → List CharT) (os : List CharT) (str : Streamer Item CharT) :
    List CharT :=
  streamRange (fun os item => os ++ text item) str.delim os str.range

structure MapStreamer (Key Value CharT : Type*) where
  range : List (Key × Value)
  delim : List CharT
  eqDelim : List CharT

/-- `operator<<` for a `MapStreamer`. -/
def MapStreamer.write (key : Key → List CharT) (value : Value → List CharT) (os : List CharT)
    (str : MapStreamer Key Value CharT) : List CharT :=
  streamRange (fun os item => os ++ key item.1 ++ str.eqDelim ++ value item.2) str.delim os
    str.range

variable {put : List CharT → Item → List CharT} {text : Item → List CharT}
  {delim : List CharT}

theorem streamLoop_eq (hput : ∀ os item, put os item = os ++ text item) (os : List CharT)
    (items : List Item) :
    streamLoop put delim os items = os ++ items.flatMap fun item => delim ++ text item := by
  induction items generalizing os with
  | nil => exact (List.append_nil os).symm
  | cons item items ih =>
      rw [streamLoop, ih, hput, List.flatMap_cons]
      simp only [List.append_assoc]

/-- The items are joined behind what was written before. -/
theorem streamRange_eq (hput : ∀ os item, put os item = os ++ text item) (os : List CharT)
    (items : List Item) :
    streamRange put delim os items = os ++ delim.intercalate (items.map text) := by
  cases items with
  | nil => simp [streamRange]
  | cons item items =>
      rw [streamRange, streamLoop_eq hput, hput, List.map_cons, intercalate_cons,
        List.flatMap_map, List.append_assoc]

theorem Streamer.write_eq (os : List CharT) (str : Streamer Item CharT) :
    str.write text os = os ++ str.delim.intercalate (str.range.map text) :=
  streamRange_eq (fun _ _ => rfl) os str.range

theorem MapStreamer.write_eq (key : Key → List CharT) (value : Value → List CharT)
    (os : List CharT) (str : MapStreamer Key Value CharT) :
    str.write key value os = os ++ str.delim.intercalate
      (str.range.map fun item => key item.1 ++ str.eqDelim ++ value item.2) :=
  streamRange_eq (fun os item => by simp only [List.append_assoc]) os str.range

end Streamers

/-! ## Reading back -/

section Reading

variable {CharT Item Key Value : Type*} [DecidableEq CharT] {delim eqDelim : CharT}

theorem splitCalls_false (view : List CharT) (delim : CharT) :
    splitCalls view delim false = view.splitOn delim := by
  rw [splitCalls_eq, kept_false]

/-- What `range_print` writes is split, with `skip_empty_` false, into the items exactly if no item
has the delimiter. -/
theorem rangePrint_readable_iff (text : Item → List CharT) {items : List Item}
    (hne : items ≠ []) :
    splitCalls (Streamer.write text [] ⟨items, [delim]⟩) delim false = items.map text ↔
      ∀ item ∈ items, delim ∉ text item := by
  have htexts : items.map text ≠ [] := mt List.map_eq_nil_iff.1 hne
  rw [splitCalls_false, Streamer.write_eq, List.nil_append, splitOn_intercalate_iff htexts,
    List.forall_mem_map]

/-- A key and its value, between which the only delimiter is. -/
theorem splitOn_pair_iff {key value : List CharT} :
    (key ++ [eqDelim] ++ value).splitOn eqDelim = [key, value] ↔
      eqDelim ∉ key ∧ eqDelim ∉ value := by
  have hjoined : key ++ [eqDelim] ++ value = [eqDelim].intercalate [key, value] := by simp
  rw [hjoined, splitOn_intercalate_iff (List.cons_ne_nil _ _)]
  simp

/-- What `range_map_print` writes, split at the one delimiter and every part of it at the other,
both with `skip_empty_` false, is the keys and the values of the map exactly if none of them has
any of the two delimiters and these differ. -/
theorem rangeMapPrint_readable_iff (key : Key → List CharT) (value : Value → List CharT)
    {items : List (Key × Value)} (hne : items ≠ []) :
    (splitCalls (MapStreamer.write key value [] ⟨items, [delim], [eqDelim]⟩) delim false).map
        (fun part => splitCalls part eqDelim false) =
      items.map (fun item => [key item.1, value item.2]) ↔
      delim ≠ eqDelim ∧ ∀ item ∈ items, (delim ∉ key item.1 ∧ delim ∉ value item.2) ∧
        eqDelim ∉ key item.1 ∧ eqDelim ∉ value item.2 := by
  have hparts : (items.map fun item => key item.1 ++ [eqDelim] ++ value item.2) ≠ [] :=
    mt List.map_eq_nil_iff.1 hne
  simp only [splitCalls_false]
  rw [MapStreamer.write_eq, List.nil_append]
  constructor
  · intro hread
    -- as many parts as items: the delimiter is in none of the items
    have hlength := congrArg List.length hread
    simp only [List.length_map] at hlength
    have hclean := notMem_of_length_splitOn hparts (by rw [hlength, List.length_map])
    have hdelims := List.forall_mem_map.1 hclean
    rw [(splitOn_intercalate_iff hparts).2 hclean, List.map_map] at hread
    have hpairs := List.map_inj_left.1 hread
    obtain ⟨some, hsome⟩ := List.exists_mem_of_ne_nil items hne
    refine ⟨fun heq => hdelims some hsome (by simp [heq]), fun item hitem => ?_⟩
    have hitem_delims := hdelims item hitem
    simp only [List.mem_append, not_or] at hitem_delims
    exact ⟨⟨hitem_delims.1.1, hitem_delims.2⟩, splitOn_pair_iff.1 (hpairs item hitem)⟩
  · rintro ⟨hdiffer, hclean⟩
    have hdelims : ∀ part ∈ items.map (fun item => key item.1 ++ [eqDelim] ++ value item.2),
        delim ∉ part := by
      rw [List.forall_mem_map]
      intro item hitem
      simpa [hdiffer] using (hclean item hitem).1
    rw [(splitOn_intercalate_iff hparts).2 hdelims, List.map_map]
    exact List.map_congr_left fun item hitem => splitOn_pair_iff.2 (hclean item hitem).2

theorem rangeMapPrint_readable_iff_two :
    (splitCalls (MapStreamer.write (fun key : ℕ => [key]) (fun value : ℕ => [value, value]) []
        ⟨[(3, 4), (5, 6)], [0], [1]⟩) 0 false).map (fun part => splitCalls part 1 false) =
      [[[3], [4, 4]], [[5], [6, 6]]] :=
  (rangeMapPrint_readable_iff _ _ (by decide)).2 (by decide)

end Reading

end Nstl.RangePrint
