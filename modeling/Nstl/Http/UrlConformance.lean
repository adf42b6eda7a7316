import Mathlib.Order.CompletePartialOrder
import Nstl.Http.UrlGrammar

/-!
# References and the regular expression

The regular expression takes a reference of RFC 3986 apart in the same way as the grammar
does, so that every reference is accepted with its own components.  Its negated classes say
little about the characters of the components: what is accepted beyond the references is
found by looking at the components one by one.
-/

namespace Nstl.UrlGrammar

open scoped Computability
open Nstl.Backtracking
open Nstl.ByteString
open Nstl.Grammar
open Nstl.Url (Components Decomposes colon slash question hash)

/-! ## How the components begin -/

theorem ne_nil_of_mem_encoded {more word : Bytes} (hword : word ∈ encoded more) : word ≠ [] := by
  rcases hword with ⟨ch, -, rfl⟩ | hpct
  · exact List.cons_ne_nil ch []
  · obtain ⟨rest, -, rfl⟩ := mem_exactly_mul.1 hpct
    exact List.cons_ne_nil percent rest

/-- A segment that is not empty begins with a character of its own. -/
theorem head_oneOrMore {more word : Bytes} (hword : word ∈ oneOrMore (encoded more)) :
    ∃ ch rest, word = ch :: rest ∧ encodedChar more ch = true := by
  have hchars := (charsIn_encoded (List.Subset.refl more)).oneOrMore word hword
  obtain ⟨first, hfirst, rest, -, rfl⟩ := Language.mem_mul.1 hword
  obtain ⟨ch, tail, rfl⟩ := List.exists_cons_of_ne_nil (ne_nil_of_mem_encoded hfirst)
  exact ⟨ch, tail ++ rest, rfl, hchars ch List.mem_cons_self⟩

theorem head_pathAbempty {path : Bytes} (hpath : path ∈ pathAbempty) {ch : Byte}
    (hhead : path.head? = some ch) : ch = slash := by
  rcases mem_kstar_iff.1 hpath with rfl | hmul
  · cases hhead
  · obtain ⟨first, hfirst, rest, -, rfl⟩ := Language.mem_mul.1 hmul
    obtain ⟨segment, -, rfl⟩ := mem_exactly_mul.1 hfirst
    exact (Option.some.inj hhead).symm

theorem not_slash_of_segment {more path : Bytes} (hmore : encodedChar more slash = false)
    (hpath : path ∈ oneOrMore (encoded more) * pathAbempty) : ¬[slash] <+: path := by
  obtain ⟨first, hfirst, rest, -, rfl⟩ := Language.mem_mul.1 hpath
  obtain ⟨ch, tail, rfl, hch⟩ := head_oneOrMore hfirst
  intro hslash
  rw [← (List.cons_prefix_cons.1 hslash).1, hmore] at hch
  cases hch

/-- Without an authority a path does not begin with two slashes. -/
theorem not_slashes_of_path {more path : Bytes} (hmore : encodedChar more slash = false)
    (hpath : path ∈ pathAbsolute + (oneOrMore (encoded more) * pathAbempty + pathEmpty)) :
    ¬[slash, slash] <+: path := by
  rcases hpath with habsolute | hrootless | hempty
  · obtain ⟨rest, hrest, rfl⟩ := mem_exactly_mul.1 habsolute
    intro hslashes
    have hslash : [slash] <+: rest := (List.cons_prefix_cons.1 hslashes).2
    rcases mem_optional.1 hrest with rfl | hsegment
    · cases List.prefix_nil.1 hslash
    · exact not_slash_of_segment (by decide) hsegment hslash
  · intro hslashes
    have hslash : [slash] <+: [slash, slash] := List.prefix_append [slash] [slash]
    exact not_slash_of_segment hmore hrootless (hslash.trans hslashes)
  · rw [(Language.mem_one path).1 hempty]
    exact fun hslashes => List.cons_ne_nil _ _ (List.prefix_nil.1 hslashes)

/-- Without a scheme a path has no colon before its first slash. -/
theorem segment_of_noscheme {path : Bytes}
    (hpath : path ∈ pathAbsolute + (pathNoscheme + pathEmpty)) :
    ∃ first rest, path = first ++ rest ∧ (∀ ch ∈ first, Url.schemeChar ch = true) ∧
      ∀ {ch}, rest.head? = some ch → ch = slash := by
  rcases hpath with habsolute | hnoscheme | hempty
  · obtain ⟨rest, -, rfl⟩ := mem_exactly_mul.1 habsolute
    exact ⟨[], _, rfl, by simp, fun hhead => (Option.some.inj hhead).symm⟩
  · obtain ⟨first, hfirst, rest, hrest, rfl⟩ := Language.mem_mul.1 hnoscheme
    refine ⟨first, rest, rfl, fun ch hch => ?_, head_pathAbempty hrest⟩
    have hchar := (charsIn_encoded (List.Subset.refl _)).oneOrMore first hfirst ch hch
    exact decide_eq_true (not_mem_of_all (by decide) hchar)
  · rw [(Language.mem_one path).1 hempty]
    exact ⟨[], [], rfl, by simp, by simp⟩

/-! ## Conforming components are a decomposition -/

theorem charsIn_path {scheme : Option Bytes} :
    CharsIn pathByte (pathAbsolute + (rootlessFor scheme + pathEmpty)) := by
  have hrootless : CharsIn pathByte (rootlessFor scheme) := by
    rw [rootlessFor]
    split
    · exact charsIn_pathRootless
    · exact charsIn_pathNoscheme
  exact charsIn_pathAbsolute.add (hrootless.add .one)

theorem Conforms.path_charsIn {components : Components} (hconforms : Conforms components) :
    ∀ ch ∈ components.path, pathByte ch = true := by
  cases hauthority : components.authority with
  | some authority =>
      exact charsIn_pathAbempty _ (hconforms.hier.authority hauthority).2
  | none => exact charsIn_path _ (hconforms.hier.path hauthority)

theorem Conforms.not_slashes {components : Components} (hconforms : Conforms components)
    (hauthority : components.authority = none) : ¬[slash, slash] <+: components.path := by
  have hpath := hconforms.hier.path hauthority
  rw [rootlessFor] at hpath
  split at hpath
  · exact not_slashes_of_path (by decide) hpath
  · exact not_slashes_of_path (by decide) hpath

/-- In a relative reference the first of the delimiters is not a colon. -/
theorem Conforms.no_scheme {components : Components} (hconforms : Conforms components)
    (hscheme : components.scheme = none) :
    ∃ first rest, components.afterScheme = first ++ rest ∧
      (∀ ch ∈ first, Url.schemeChar ch = true) ∧
      ∀ {ch}, rest.head? = some ch → ch ∈ [slash, question, hash] := by
  cases hauthority : components.authority with
  | some authority =>
      refine ⟨[], components.afterScheme, rfl, by simp, fun {ch} hhead => ?_⟩
      rw [Components.afterScheme, hauthority] at hhead
      exact Option.some.inj hhead ▸ List.mem_cons_self
  | none =>
      have hpath := hconforms.hier.path hauthority
      rw [hscheme] at hpath
      obtain ⟨first, rest, heq, hfirst, hrest⟩ := segment_of_noscheme hpath
      refine ⟨first, rest ++ components.afterPath, ?_, hfirst, fun {ch} hhead => ?_⟩
      · rw [Components.afterScheme, hauthority, Components.afterAuthority, heq]
        exact List.append_assoc first rest _
      · cases rest with
        | nil => exact List.mem_cons_of_mem _ (by simpa using Url.head_afterPath hhead)
        | cons other rest =>
            have hslash : ch = slash := hrest hhead
            exact hslash ▸ List.mem_cons_self

theorem not_scheme_of_delimiter {text first rest : Bytes} (htext : text = first ++ rest)
    (hfirst : ∀ ch ∈ first, Url.schemeChar ch = true)
    (hrest : ∀ {ch}, rest.head? = some ch → ch ∈ [slash, question, hash])
    {run more : Bytes} (hrun : text = run ++ colon :: more) :
    ¬∀ ch ∈ run, Url.schemeChar ch = true := by
  intro hall
  have hcolon : text.dropWhile Url.schemeChar = colon :: more := by
    rw [hrun, dropWhile_stop (by decide) hall]
  cases rest with
  | nil =>
      rw [htext, List.append_nil, List.dropWhile_eq_nil_iff.2 hfirst] at hcolon
      cases hcolon
  | cons ch rest =>
      have hch : ch ∈ [slash, question, hash] := hrest rfl
      have hstop : Url.schemeChar ch = false := decide_eq_false (not_not.2 (.tail _ hch))
      rw [htext, dropWhile_stop hstop hfirst] at hcolon
      rw [(List.cons.inj hcolon).1] at hch
      revert hch
      decide

theorem Conforms.decomposes {components : Components} (hconforms : Conforms components) :
    Decomposes components.recompose components where
  recompose_eq := rfl
  scheme_chars {scheme} hscheme := by
    have hrule := hconforms.scheme hscheme
    refine ⟨?_, fun ch hch => not_mem_of_all (by decide) (charsIn_schemeRule scheme hrule ch hch)⟩
    obtain ⟨first, ⟨ch, -, rfl⟩, rest, -, rfl⟩ := Language.mem_mul.1 hrule
    exact List.cons_ne_nil ch rest
  authority_chars hauthority ch hch :=
    not_mem_of_all (by decide)
      (charsIn_authorityRule _ (hconforms.hier.authority hauthority).1 ch hch)
  path_chars ch hch := not_mem_of_all (by decide) (hconforms.path_charsIn ch hch)
  query_chars {query} hquery hmem := by
    have hchar := charsIn_queryRule query (hconforms.hier.query hquery) hash hmem
    revert hchar
    decide
  scheme_taken hscheme run rest hurl _ hall := by
    obtain ⟨first, more, htext, hfirst, hmore⟩ := hconforms.no_scheme hscheme
    rw [Components.recompose, hscheme] at hurl
    exact not_scheme_of_delimiter htext hfirst hmore hurl fun ch hch => decide_eq_true (hall ch hch)
  authority_taken := hconforms.not_slashes
  authority_ends hauthority _ hhead :=
    head_pathAbempty (hconforms.hier.authority hauthority).2 hhead

/-! ## Every reference is accepted -/

/-- The characters of references. -/
def referenceByte : Byte → Bool :=
  encodedChar [colon, atSign, slash, question, hash, 91, 93]

theorem charsIn_uriReference : CharsIn referenceByte uriReference := by
  have hscheme : CharsIn referenceByte schemeRule := charsIn_schemeRule.mono fun {ch} hch => by
    simp only [schemeByte, referenceByte, encodedChar, unreserved, subDelims, Bool.or_eq_true,
      List.contains_iff_mem, List.mem_cons] at hch ⊢
    tauto
  have habempty : CharsIn referenceByte pathAbempty :=
    charsIn_pathAbempty.mono (encodedChar_mono (by simp))
  have hauthority : CharsIn referenceByte authorityRule :=
    charsIn_authorityRule.mono (encodedChar_mono (by simp))
  have hhier (scheme : Option Bytes) : CharsIn referenceByte (hierPart (rootlessFor scheme)) :=
    ((CharsIn.exactly (by decide)).mul (hauthority.mul habempty)).add
      (charsIn_path.mono (encodedChar_mono (by simp)))
  have htail : CharsIn referenceByte uriTail :=
    ((CharsIn.exactly (by decide)).mul
      (charsIn_queryRule.mono (encodedChar_mono (by simp)))).optional.mul
      ((CharsIn.exactly (by decide)).mul
        (charsIn_fragmentRule.mono (encodedChar_mono (by simp)))).optional
  exact (hscheme.mul ((CharsIn.exactly (by decide)).mul ((hhier (some [])).mul htail))).add
    ((hhier none).mul htail)

/-- Every reference is accepted. -/
theorem isValidUrl_of_mem_uriReference {url : Bytes} (hurl : url ∈ uriReference) :
    Url.isValidUrl url = true := by
  rw [Url.isValidUrl_iff]
  rintro ⟨ch, hch, hterminator⟩
  have hmem : ch ∈ url := (List.dropWhile_sublist _).subset (List.mem_of_mem_tail hch)
  have hfragment : Url.fragmentChar ch = true :=
    decide_eq_true (not_mem_of_all (by decide) (charsIn_uriReference url hurl ch hmem))
  rw [hfragment] at hterminator
  cases hterminator

/-! ## What the regular expression does not look at

Once a text is taken apart at its delimiters, the rules for the paths come down to the
characters, and to a colon at the begin. -/

/-- Slashes and the characters of segments, in any order. -/
def pathText : Language Byte := (encoded [colon, atSign, slash])∗

section PathText

theorem encoded_le {less more : Bytes} (hless : less ⊆ more) : encoded less ≤ encoded more := by
  refine add_le_add ?_ le_rfl
  rintro _ ⟨ch, hch, rfl⟩
  refine ⟨ch, ?_, rfl⟩
  simp only [Bool.or_eq_true, List.contains_iff_mem] at hch ⊢
  exact hch.imp_right fun hmem => hless hmem

theorem segment_le_pathText : segment ≤ pathText := kstar_mono (encoded_le (by simp))

theorem slash_le_pathText : exactly [slash] ≤ pathText := by
  refine le_trans ?_ le_kstar
  rintro _ rfl
  exact Or.inl ⟨slash, by decide, rfl⟩

theorem mul_le_pathText {first second : Language Byte} (hfirst : first ≤ pathText)
    (hsecond : second ≤ pathText) : first * second ≤ pathText :=
  calc first * second ≤ pathText * pathText := mul_le_mul' hfirst hsecond
    _ = pathText := kstar_mul_kstar _

theorem pathAbempty_le_pathText : pathAbempty ≤ pathText :=
  calc pathAbempty ≤ pathText∗ := kstar_mono (mul_le_pathText slash_le_pathText segment_le_pathText)
    _ = pathText := kstar_idem _

theorem oneOrMore_le_pathText {more : Bytes} (hmore : more ⊆ [colon, atSign, slash]) :
    oneOrMore (encoded more) * pathAbempty ≤ pathText := by
  have hencoded : encoded more ≤ pathText := (encoded_le hmore).trans le_kstar
  have hstar : (encoded more)∗ ≤ pathText := kstar_mono (encoded_le hmore)
  exact mul_le_pathText (mul_le_pathText hencoded hstar) pathAbempty_le_pathText

theorem slash_or_pchar {word : Bytes} (hword : word ∈ encoded [colon, atSign, slash]) :
    word = [slash] ∨ word ∈ pchar := by
  rcases hword with ⟨ch, hch, rfl⟩ | hpct
  · by_cases hslash : ch = slash
    · exact Or.inl (by rw [hslash])
    · refine Or.inr (Or.inl ⟨ch, ?_, rfl⟩)
      simpa [hslash] using hch
  · exact Or.inr (Or.inr hpct)

/-- The characters up to the first slash, and the segments from there on. -/
theorem exists_segment_of_pathText {path : Bytes} (hpath : path ∈ pathText) :
    ∃ first ∈ segment, ∃ rest ∈ pathAbempty, path = first ++ rest := by
  refine kstar_induction (motive := fun path =>
    ∃ first ∈ segment, ∃ rest ∈ pathAbempty, path = first ++ rest) ?_ ?_ hpath
  · exact ⟨[], Language.nil_mem_kstar _, [], Language.nil_mem_kstar _, rfl⟩
  · rintro word hword _ - ⟨first, hfirst, rest, hrest, rfl⟩
    rcases slash_or_pchar hword with rfl | hpchar
    · exact ⟨[], Language.nil_mem_kstar _, [slash] ++ first ++ rest,
        append_mem_kstar (mem_exactly_mul.2 ⟨first, hfirst, rfl⟩) hrest, rfl⟩
    · exact ⟨word ++ first, append_mem_kstar hpchar hfirst, rest, hrest,
        (List.append_assoc word first rest).symm⟩

theorem first_eq_nil {first rest : Bytes} (hfirst : first ∈ segment)
    (hhead : ∀ {ch}, (first ++ rest).head? = some ch → ch = slash) : first = [] := by
  by_contra hne
  obtain ⟨ch, tail, rfl, hch⟩ := head_oneOrMore (mem_oneOrMore_of_ne_nil hfirst hne)
  rw [hhead rfl] at hch
  revert hch
  decide

/-- Behind an authority. -/
theorem mem_pathAbempty_iff {path : Bytes} (hhead : ∀ {ch}, path.head? = some ch → ch = slash) :
    path ∈ pathAbempty ↔ path ∈ pathText := by
  refine ⟨fun hpath => pathAbempty_le_pathText hpath, fun hpath => ?_⟩
  obtain ⟨first, hfirst, rest, hrest, rfl⟩ := exists_segment_of_pathText hpath
  rwa [first_eq_nil hfirst hhead]

theorem mem_pathAbsolute_or_empty {path : Bytes} (hpath : path ∈ pathAbempty)
    (hslashes : ¬[slash, slash] <+: path) : path ∈ pathAbsolute ∨ path ∈ pathEmpty := by
  rcases mem_kstar_iff.1 hpath with rfl | hmul
  · exact Or.inr rfl
  · obtain ⟨word, hword, rest, hrest, rfl⟩ := Language.mem_mul.1 hmul
    obtain ⟨first, hfirst, rfl⟩ := mem_exactly_mul.1 hword
    refine Or.inl (mem_exactly_mul.2 ⟨first ++ rest, mem_optional.2 ?_, List.append_assoc _ _ _⟩)
    by_cases hne : first = []
    · subst hne
      refine Or.inl ?_
      cases rest with
      | nil => rfl
      | cons ch rest =>
          obtain rfl := head_pathAbempty hrest rfl
          exact absurd ⟨rest, rfl⟩ hslashes
    · exact Or.inr (Language.append_mem_mul (mem_oneOrMore_of_ne_nil hfirst hne) hrest)

theorem path_le_pathText {more : Bytes} (hmore : more ⊆ [colon, atSign, slash]) :
    pathAbsolute + (oneOrMore (encoded more) * pathAbempty + pathEmpty) ≤ pathText := by
  have hempty : pathEmpty ≤ pathText := one_le_kstar
  have hoptional : optional (segmentNz * pathAbempty) ≤ pathText :=
    add_le one_le_kstar (oneOrMore_le_pathText (by simp))
  exact add_le (mul_le_pathText slash_le_pathText hoptional)
    (add_le (oneOrMore_le_pathText hmore) hempty)

/-- A first segment and the rest are an absolute path, one that starts with the segment,
or nothing, as long as the text is not taken for an authority. -/
theorem append_mem_path {more first rest : Bytes} (hfirst : first ∈ (encoded more)∗)
    (hrest : rest ∈ pathAbempty) (hslashes : ¬[slash, slash] <+: first ++ rest) :
    first ++ rest ∈ pathAbsolute + (oneOrMore (encoded more) * pathAbempty + pathEmpty) := by
  by_cases hne : first = []
  · subst hne
    rcases mem_pathAbsolute_or_empty hrest hslashes with habsolute | hempty
    · exact Or.inl habsolute
    · exact Or.inr (Or.inr hempty)
  · exact Or.inr (Or.inl (Language.append_mem_mul (mem_oneOrMore_of_ne_nil hfirst hne) hrest))

/-- Without an authority, behind a scheme. -/
theorem mem_rootless_iff {path : Bytes} (hslashes : ¬[slash, slash] <+: path) :
    path ∈ pathAbsolute + (pathRootless + pathEmpty) ↔ path ∈ pathText := by
  refine ⟨fun hpath => path_le_pathText (by simp) hpath, fun hpath => ?_⟩
  obtain ⟨first, hfirst, rest, hrest, rfl⟩ := exists_segment_of_pathText hpath
  exact append_mem_path hfirst hrest hslashes

theorem segment_without_colon {first : Bytes} (hfirst : first ∈ segment) :
    colon ∉ first → first ∈ (encoded [atSign])∗ := by
  refine kstar_induction (motive := fun first => colon ∉ first → first ∈ (encoded [atSign])∗)
    ?_ ?_ hfirst
  · exact fun _ => Language.nil_mem_kstar _
  · intro word hword rest _ ih hcolon
    rw [List.mem_append, not_or] at hcolon
    refine append_mem_kstar ?_ (ih hcolon.2)
    rcases hword with ⟨ch, hch, rfl⟩ | hpct
    · have hne : ch ≠ colon := fun heq => hcolon.1 (heq ▸ List.mem_cons_self)
      refine Or.inl ⟨ch, ?_, rfl⟩
      simpa [hne] using hch
    · exact Or.inr hpct

/-- The first colon of a first segment would be the end of a scheme. -/
theorem colon_not_mem_first {first rest : Bytes} (hfirst : first ∈ segment)
    (hcolon : ¬[colon] <+: first ++ rest)
    (hscheme : ∀ run more, first ++ rest = run ++ colon :: more → run ≠ [] →
      ¬∀ ch ∈ run, Url.schemeChar ch = true) : colon ∉ first := by
  intro hmem
  have hchars := (charsIn_encoded (List.Subset.refl _)).kstar first hfirst
  obtain ⟨run, more, rfl, hrun⟩ := List.eq_append_cons_of_mem hmem
  refine hscheme run (more ++ rest) (List.append_assoc _ _ _) ?_ fun ch hch => ?_
  · rintro rfl
    exact hcolon ⟨more ++ rest, rfl⟩
  · have hchar := hchars ch (List.mem_append_left _ hch)
    have hdelimiter : ch ∉ [slash, question, hash] := not_mem_of_all (by decide) hchar
    refine decide_eq_true fun hbad => ?_
    rcases List.mem_cons.1 hbad with rfl | hother
    · exact hrun hch
    · exact hdelimiter hother

/-- Without an authority and without a scheme. -/
theorem mem_noscheme_iff {path : Bytes} (hslashes : ¬[slash, slash] <+: path)
    (hscheme : ∀ run rest, path = run ++ colon :: rest → run ≠ [] →
      ¬∀ ch ∈ run, Url.schemeChar ch = true) :
    path ∈ pathAbsolute + (pathNoscheme + pathEmpty) ↔
      path ∈ pathText ∧ ¬[colon] <+: path := by
  constructor
  · intro hpath
    refine ⟨path_le_pathText (by simp) hpath, ?_⟩
    rintro ⟨rest, rfl⟩
    obtain ⟨first, more, heq, hfirst, hmore⟩ := segment_of_noscheme hpath
    exact not_scheme_of_delimiter heq hfirst (fun hhead => hmore hhead ▸ List.mem_cons_self)
      (List.nil_append (colon :: rest)).symm (by simp)
  · rintro ⟨hpath, hcolon⟩
    obtain ⟨first, hfirst, rest, hrest, rfl⟩ := exists_segment_of_pathText hpath
    have hnot : colon ∉ first := colon_not_mem_first hfirst hcolon hscheme
    exact append_mem_path (segment_without_colon hfirst hnot) hrest hslashes

end PathText

/-- What is left to check once a text is taken apart: the characters of each component,
how a scheme and an authority are made up, and a colon at the begin. -/
structure WellFormed (components : Components) : Prop where
  scheme : ∀ {scheme}, components.scheme = some scheme → scheme ∈ schemeRule
  authority : ∀ {authority}, components.authority = some authority → authority ∈ authorityRule
  path : components.path ∈ pathText
  no_colon : components.scheme = none → components.authority = none →
    ¬[colon] <+: components.path
  query : ∀ {query}, components.query = some query → query ∈ queryRule
  fragment : ∀ {fragment}, components.fragment = some fragment → fragment ∈ fragmentRule

/-- The rules for the path, once it is known what it follows. -/
theorem path_rules_iff {url : Bytes} {components : Components}
    (hdec : Decomposes url components) (hauthority : components.authority = none) :
    components.path ∈ pathAbsolute + (rootlessFor components.scheme + pathEmpty) ↔
      components.path ∈ pathText ∧ (components.scheme = none → ¬[colon] <+: components.path) := by
  have hslashes := hdec.authority_taken hauthority
  cases hscheme : components.scheme with
  | some scheme =>
      have hrules := mem_rootless_iff hslashes
      simpa [rootlessFor] using hrules
  | none =>
      have hrules := mem_noscheme_iff hslashes fun run rest heq hne hall => by
        refine hdec.scheme_taken hscheme run (rest ++ components.afterPath) ?_ hne
          fun ch hch => of_decide_eq_true (hall ch hch)
        rw [← hdec.recompose_eq, Components.recompose, hscheme, Components.afterScheme, hauthority,
          Components.afterAuthority, heq]
        exact List.append_assoc run (colon :: rest) components.afterPath
      simpa [rootlessFor] using hrules

theorem conforms_iff_wellFormed {url : Bytes} {components : Components}
    (hdec : Decomposes url components) : Conforms components ↔ WellFormed components := by
  constructor
  · intro hconforms
    have hhier := hconforms.hier
    refine ⟨hconforms.scheme, fun hsome => (hhier.authority hsome).1, ?_, ?_, hhier.query,
      hhier.fragment⟩
    · cases hauthority : components.authority with
      | some authority => exact pathAbempty_le_pathText (hhier.authority hauthority).2
      | none => exact ((path_rules_iff hdec hauthority).1 (hhier.path hauthority)).1
    · intro hscheme hauthority
      exact ((path_rules_iff hdec hauthority).1 (hhier.path hauthority)).2 hscheme
  · intro hwell
    refine ⟨hwell.scheme, fun hsome => ⟨hwell.authority hsome, ?_⟩, fun hnone => ?_, hwell.query,
      hwell.fragment⟩
    · exact (mem_pathAbempty_iff (hdec.authority_ends hsome)).2 hwell.path
    · exact (path_rules_iff hdec hnone).2
        ⟨hwell.path, fun hscheme => hwell.no_colon hscheme hnone⟩

/-- What is accepted is a reference exactly if there is nothing wrong with its components
where the regular expression does not look; a text with a line terminator in the fragment
is not accepted. -/
theorem accepted_is_reference_iff (url : Bytes) :
    (Url.isValidUrl url = true → url ∈ uriReference) ↔
      (∃ before after, url = before ++ hash :: after ∧ hash ∉ before ∧
        ∃ ch ∈ after, ch = newline ∨ ch = Url.carriageReturn) ∨
      ∃ components, Decomposes url components ∧ WellFormed components := by
  rw [← Url.hasTerminator_iff, Url.isValidUrl_iff, mem_uriReference_iff]
  constructor
  · intro haccepted
    by_cases hterminator : Url.HasTerminator url
    · exact Or.inl hterminator
    · obtain ⟨components, hconforms, rfl⟩ := haccepted hterminator
      have hdec := hconforms.decomposes
      exact Or.inr ⟨components, hdec, (conforms_iff_wellFormed hdec).1 hconforms⟩
  · rintro (hterminator | ⟨components, hdec, hwell⟩) hvalid
    · exact absurd hterminator hvalid
    · exact ⟨components, (conforms_iff_wellFormed hdec).2 hwell, hdec.recompose_eq⟩

/-- The components of `a:b`. -/
def schemeAndPath : Components := ⟨some [97], none, [98], none, none⟩

theorem conforms_schemeAndPath : Conforms schemeAndPath := by
  have hscheme : [97] ∈ schemeRule :=
    Language.mem_mul.2 ⟨[97], ⟨97, by decide, rfl⟩, [], Language.nil_mem_kstar _, rfl⟩
  have hsegment : [98] ∈ segmentNz :=
    Language.mem_mul.2 ⟨[98], Or.inl ⟨98, by decide, rfl⟩, [], Language.nil_mem_kstar _, rfl⟩
  have hpath : [98] ∈ pathRootless :=
    Language.mem_mul.2 ⟨[98], hsegment, [], Language.nil_mem_kstar _, rfl⟩
  refine ⟨fun heq => ?_, ?_, fun _ => Or.inr (Or.inl hpath), ?_, ?_⟩
  · rwa [← Option.some.inj heq]
  all_goals
    intro _ heq
    cases heq

theorem schemeAndPath_is_reference : [97, 58, 98] ∈ uriReference := by
  have hdec : Decomposes [97, 58, 98] schemeAndPath := conforms_schemeAndPath.decomposes
  have hwell := (conforms_iff_wellFormed hdec).1 conforms_schemeAndPath
  exact (accepted_is_reference_iff [97, 58, 98]).2 (Or.inr ⟨schemeAndPath, hdec, hwell⟩) (by decide)

/-- A space is accepted, and there is no reference with one. -/
theorem space_accepted : Url.isValidUrl [32] = true ∧ [32] ∉ uriReference := by
  refine ⟨by decide, fun hreference => ?_⟩
  have hspace := charsIn_uriReference [32] hreference 32 List.mem_cons_self
  revert hspace
  decide

end Nstl.UrlGrammar
