import Mathlib.Computability.Language

/-!
# Productions of a grammar

The operators of ABNF as operations on languages, and what they keep: a set of characters
that the words are made of, and a way to begin.
-/

namespace Nstl.Grammar

open scoped Computability

variable {CharT : Type*}

/-- A single character of a class. -/
def oneOf (accepts : CharT → Bool) : Language CharT :=
  {word | ∃ ch, accepts ch = true ∧ word = [ch]}

/-- The one word `text`. -/
def exactly (text : List CharT) : Language CharT := {word | word = text}

def optional (language : Language CharT) : Language CharT := 1 + language

def oneOrMore (language : Language CharT) : Language CharT := language * language∗

/-- At most `count` times. -/
def upTo (language : Language CharT) : ℕ → Language CharT
  | 0 => 1
  | count + 1 => 1 + language * upTo language count

theorem mem_exactly_mul {text word : List CharT} {language : Language CharT} :
    word ∈ exactly text * language ↔ ∃ rest ∈ language, word = text ++ rest := by
  rw [Language.mem_mul]
  constructor
  · rintro ⟨_, rfl, rest, hrest, rfl⟩
    exact ⟨rest, hrest, rfl⟩
  · rintro ⟨rest, hrest, rfl⟩
    exact ⟨text, rfl, rest, hrest, rfl⟩

theorem mem_optional {language : Language CharT} {word : List CharT} :
    word ∈ optional language ↔ word = [] ∨ word ∈ language := Iff.rfl

/-- A repetition is empty or starts with one of its words. -/
theorem mem_kstar_iff {language : Language CharT} {word : List CharT} :
    word ∈ language∗ ↔ word = [] ∨ word ∈ language * language∗ := by
  rw [← mem_optional, optional, Language.one_add_self_mul_kstar_eq_kstar]

theorem append_mem_kstar {language : Language CharT} {word rest : List CharT}
    (hword : word ∈ language) (hrest : rest ∈ language∗) : word ++ rest ∈ language∗ :=
  mem_kstar_iff.2 (Or.inr (Language.append_mem_mul hword hrest))

/-- A repetition that is not empty has a first word. -/
theorem mem_oneOrMore_of_ne_nil {language : Language CharT} {word : List CharT}
    (hword : word ∈ language∗) (hne : word ≠ []) : word ∈ oneOrMore language :=
  (mem_kstar_iff.1 hword).resolve_left hne

/-- An induction on the words of a repetition. -/
theorem kstar_induction {language : Language CharT} {motive : List CharT → Prop}
    (hnil : motive [])
    (happend : ∀ word ∈ language, ∀ rest ∈ language∗, motive rest → motive (word ++ rest))
    {text : List CharT} (htext : text ∈ language∗) : motive text := by
  obtain ⟨words, rfl, hwords⟩ := Language.mem_kstar.1 htext
  clear htext
  induction words with
  | nil => exact hnil
  | cons word words ih =>
      have hrest := fun part hpart => hwords part (List.mem_cons_of_mem word hpart)
      exact happend word (hwords word List.mem_cons_self) words.flatten
        (Language.join_mem_kstar hrest) (ih hrest)

/-! ## The characters of the words -/

/-- All words are made of the characters of a class. -/
def CharsIn (accepts : CharT → Bool) (language : Language CharT) : Prop :=
  ∀ word ∈ language, ∀ ch ∈ word, accepts ch = true

namespace CharsIn

variable {accepts : CharT → Bool} {first second language : Language CharT}

theorem one : CharsIn accepts 1 := by
  intro word hword ch hch
  rw [(Language.mem_one word).1 hword] at hch
  cases hch

theorem add (hfirst : CharsIn accepts first) (hsecond : CharsIn accepts second) :
    CharsIn accepts (first + second) := by
  rintro word (hword | hword)
  · exact hfirst word hword
  · exact hsecond word hword

theorem mul (hfirst : CharsIn accepts first) (hsecond : CharsIn accepts second) :
    CharsIn accepts (first * second) := by
  intro word hword
  obtain ⟨before, hbefore, after, hafter, rfl⟩ := Language.mem_mul.1 hword
  exact List.forall_mem_append.2 ⟨hfirst before hbefore, hsecond after hafter⟩

theorem pow (hlanguage : CharsIn accepts language) (count : ℕ) :
    CharsIn accepts (language ^ count) := by
  induction count with
  | zero => rw [pow_zero]; exact one
  | succ count ih => rw [pow_succ]; exact ih.mul hlanguage

theorem kstar (hlanguage : CharsIn accepts language) : CharsIn accepts language∗ := by
  intro word hword ch hch
  obtain ⟨words, rfl, hwords⟩ := Language.mem_kstar.1 hword
  obtain ⟨part, hpart, hmem⟩ := List.mem_flatten.1 hch
  exact hlanguage part (hwords part hpart) ch hmem

theorem optional (hlanguage : CharsIn accepts language) :
    CharsIn accepts (optional language) := one.add hlanguage

theorem oneOrMore (hlanguage : CharsIn accepts language) :
    CharsIn accepts (oneOrMore language) := hlanguage.mul hlanguage.kstar

theorem upTo (hlanguage : CharsIn accepts language) (count : ℕ) :
    CharsIn accepts (upTo language count) := by
  induction count with
  | zero => exact one
  | succ count ih => exact one.add (hlanguage.mul ih)

theorem oneOf {inner : CharT → Bool} (hinner : ∀ {ch}, inner ch = true → accepts ch = true) :
    CharsIn accepts (oneOf inner) := by
  rintro _ ⟨ch, hch, rfl⟩
  exact List.forall_mem_singleton.2 (hinner hch)

theorem exactly {text : List CharT} (htext : text.all accepts = true) :
    CharsIn accepts (exactly text) := by
  rintro _ rfl
  exact List.all_eq_true.1 htext

theorem mono {larger : CharT → Bool} (hlanguage : CharsIn accepts language)
    (hlarger : ∀ {ch}, accepts ch = true → larger ch = true) : CharsIn larger language :=
  fun word hword ch hch => hlarger (hlanguage word hword ch hch)

end CharsIn

end Nstl.Grammar
