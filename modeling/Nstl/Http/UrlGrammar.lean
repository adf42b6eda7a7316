import Nstl.Core.Grammar
import Nstl.Http.Url

/-!
# The grammar of RFC 3986

`is_valid_url` is said to validate a URL per RFC 3986.  Here are the productions of
`URI-reference`, with the names that the RFC gives them; letters in quotes stand for both
cases.  A reference is also described by its components, the way in which the regular
expression reports them.
-/

namespace Nstl.UrlGrammar

open scoped Computability
open Nstl.Backtracking
open Nstl.ByteString
open Nstl.Grammar
open Nstl.Url (Components Decomposes colon slash question hash)

/-! ## Characters -/

/-- The characters from one to another. -/
def range (first last ch : Byte) : Bool := first ≤ ch && ch ≤ last

def alpha (ch : Byte) : Bool := range 65 90 ch || range 97 122 ch

def digit (ch : Byte) : Bool := range 48 57 ch

def hexdig (ch : Byte) : Bool := digit ch || range 65 70 ch || range 97 102 ch

/-- Letters, digits and `-._~`. -/
def unreserved (ch : Byte) : Bool := alpha ch || digit ch || [45, 46, 95, 126].contains ch

/-- The characters ``!$&'()*+,;=``. -/
def subDelims (ch : Byte) : Bool := [33, 36, 38, 39, 40, 41, 42, 43, 44, 59, 61].contains ch

def percent : Byte := 37

def dot : Byte := 46

def atSign : Byte := 64

def pctEncoded : Language Byte := exactly [percent] * (oneOf hexdig * oneOf hexdig)

/-- The alternative of `unreserved`, `pct-encoded`, `sub-delims` and further characters. -/
def encoded (more : Bytes) : Language Byte :=
  oneOf (fun ch => unreserved ch || subDelims ch || more.contains ch) + pctEncoded

def pchar : Language Byte := encoded [colon, atSign]

/-! ## Components -/

def schemeRule : Language Byte :=
  oneOf alpha * (oneOf fun ch => alpha ch || digit ch || [43, 45, 46].contains ch)∗

def userinfo : Language Byte := (encoded [colon])∗

def decOctet : Language Byte :=
  oneOf digit + oneOf (range 49 57) * oneOf digit + exactly [49] * oneOf digit ^ 2 +
    exactly [50] * (oneOf (range 48 52) * oneOf digit) + exactly [50, 53] * oneOf (range 48 53)

def ipv4Address : Language Byte := decOctet * (exactly [dot] * decOctet) ^ 3

def h16 : Language Byte := oneOf hexdig * upTo (oneOf hexdig) 3

def ls32 : Language Byte := h16 * (exactly [colon] * h16) + ipv4Address

/-- The groups `h16 ":"`. -/
def h16Colon : Language Byte := h16 * exactly [colon]

/-- At most `count` groups and another one, or nothing, before the two colons. -/
def beforeColons (count : ℕ) : Language Byte :=
  optional (upTo h16Colon count * h16) * exactly [colon, colon]

def ipv6Address : Language Byte :=
  h16Colon ^ 6 * ls32 + exactly [colon, colon] * (h16Colon ^ 5 * ls32) +
    beforeColons 0 * (h16Colon ^ 4 * ls32) + beforeColons 1 * (h16Colon ^ 3 * ls32) +
    beforeColons 2 * (h16Colon ^ 2 * ls32) + beforeColons 3 * (h16Colon * ls32) +
    beforeColons 4 * ls32 + beforeColons 5 * h16 + beforeColons 6

def ipvFuture : Language Byte :=
  oneOf [86, 118].contains * (oneOrMore (oneOf hexdig) * (exactly [dot] *
    oneOrMore (oneOf fun ch => unreserved ch || subDelims ch || [colon].contains ch)))

def ipLiteral : Language Byte := exactly [91] * ((ipv6Address + ipvFuture) * exactly [93])

def regName : Language Byte := (encoded [])∗

def host : Language Byte := ipLiteral + ipv4Address + regName

def port : Language Byte := (oneOf digit)∗

def authorityRule : Language Byte :=
  optional (userinfo * exactly [atSign]) * (host * optional (exactly [colon] * port))

def segment : Language Byte := pchar∗

def segmentNz : Language Byte := oneOrMore pchar

def segmentNzNc : Language Byte := oneOrMore (encoded [atSign])

def pathAbempty : Language Byte := (exactly [slash] * segment)∗

def pathAbsolute : Language Byte := exactly [slash] * optional (segmentNz * pathAbempty)

def pathNoscheme : Language Byte := segmentNzNc * pathAbempty

def pathRootless : Language Byte := segmentNz * pathAbempty

def pathEmpty : Language Byte := 1

def queryRule : Language Byte := (encoded [colon, atSign, slash, question])∗

def fragmentRule : Language Byte := (encoded [colon, atSign, slash, question])∗

/-! ## References -/

/-- `hier-part`, and `relative-part` with the other kind of paths without a slash at the
begin. -/
def hierPart (rootless : Language Byte) : Language Byte :=
  exactly [slash, slash] * (authorityRule * pathAbempty) + (pathAbsolute + (rootless + pathEmpty))

/-- The optional parts behind the path. -/
def uriTail : Language Byte :=
  optional (exactly [question] * queryRule) * optional (exactly [hash] * fragmentRule)

def uri : Language Byte :=
  schemeRule * (exactly [colon] * (hierPart pathRootless * uriTail))

def relativeRef : Language Byte := hierPart pathNoscheme * uriTail

def uriReference : Language Byte := uri + relativeRef

/-! ## References by their components -/

/-- The components behind the scheme are derivable from their productions; a path without
an authority before it has to begin in a way that depends on the scheme. -/
structure HierConforms (rootless : Language Byte) (components : Components) : Prop where
  authority : ∀ {authority}, components.authority = some authority →
    authority ∈ authorityRule ∧ components.path ∈ pathAbempty
  path : components.authority = none → components.path ∈ pathAbsolute + (rootless + pathEmpty)
  query : ∀ {query}, components.query = some query → query ∈ queryRule
  fragment : ∀ {fragment}, components.fragment = some fragment → fragment ∈ fragmentRule

/-- The paths that may stand without an authority and without a slash at the begin. -/
def rootlessFor (scheme : Option Bytes) : Language Byte :=
  if scheme.isSome then pathRootless else pathNoscheme

/-- Every component is derivable from its production. -/
structure Conforms (components : Components) : Prop where
  scheme : ∀ {scheme}, components.scheme = some scheme → scheme ∈ schemeRule
  hier : HierConforms (rootlessFor components.scheme) components

theorem mem_optional_delimited {lead word : Bytes} {language : Language Byte} :
    word ∈ optional (exactly lead * language) ↔
      ∃ part, word = delimitedText lead part ∧ ∀ body, part = some body → body ∈ language := by
  rw [mem_optional, mem_exactly_mul]
  constructor
  · rintro (rfl | ⟨body, hbody, rfl⟩)
    · exact ⟨none, rfl, by simp⟩
    · exact ⟨some body, rfl, fun _ heq => Option.some.inj heq ▸ hbody⟩
  · rintro ⟨part, rfl, hpart⟩
    cases part with
    | none => exact Or.inl rfl
    | some body => exact Or.inr ⟨body, hpart body rfl, rfl⟩

theorem mem_hierPart {rootless : Language Byte} {word : Bytes} :
    word ∈ hierPart rootless ↔
      ∃ authority path, word = delimitedText [slash, slash] authority ++ path ∧
        (∀ body, authority = some body → body ∈ authorityRule ∧ path ∈ pathAbempty) ∧
        (authority = none → path ∈ pathAbsolute + (rootless + pathEmpty)) := by
  rw [hierPart, Language.mem_add, mem_exactly_mul]
  constructor
  · rintro (⟨rest, hrest, rfl⟩ | hword)
    · obtain ⟨authority, hauthority, path, hpath, rfl⟩ := Language.mem_mul.1 hrest
      refine ⟨some authority, path, by simp [delimitedText], ?_, by simp⟩
      intro body heq
      exact ⟨Option.some.inj heq ▸ hauthority, hpath⟩
    · exact ⟨none, word, rfl, by simp, fun _ => hword⟩
  · rintro ⟨authority, path, rfl, hsome, hnone⟩
    cases authority with
    | none => exact Or.inr (hnone rfl)
    | some body =>
        obtain ⟨hbody, hpath⟩ := hsome body rfl
        refine Or.inl ⟨body ++ path, Language.append_mem_mul hbody hpath, ?_⟩
        simp [delimitedText]

theorem mem_uriTail {word : Bytes} :
    word ∈ uriTail ↔
      ∃ query fragment, word = delimitedText [question] query ++ delimitedText [hash] fragment ∧
        (∀ body, query = some body → body ∈ queryRule) ∧
        ∀ body, fragment = some body → body ∈ fragmentRule := by
  rw [uriTail, Language.mem_mul]
  constructor
  · rintro ⟨first, hfirst, second, hsecond, rfl⟩
    obtain ⟨query, rfl, hquery⟩ := mem_optional_delimited.1 hfirst
    obtain ⟨fragment, rfl, hfragment⟩ := mem_optional_delimited.1 hsecond
    exact ⟨query, fragment, rfl, hquery, hfragment⟩
  · rintro ⟨query, fragment, rfl, hquery, hfragment⟩
    exact ⟨_, mem_optional_delimited.2 ⟨query, rfl, hquery⟩,
      _, mem_optional_delimited.2 ⟨fragment, rfl, hfragment⟩, rfl⟩

theorem mem_hierPart_mul_uriTail {rootless : Language Byte} {word : Bytes}
    (scheme : Option Bytes) :
    word ∈ hierPart rootless * uriTail ↔
      ∃ components : Components, components.scheme = scheme ∧
        HierConforms rootless components ∧ components.afterScheme = word := by
  rw [Language.mem_mul]
  constructor
  · rintro ⟨first, hfirst, second, hsecond, rfl⟩
    obtain ⟨authority, path, rfl, hauthority, hpath⟩ := mem_hierPart.1 hfirst
    obtain ⟨query, fragment, rfl, hquery, hfragment⟩ := mem_uriTail.1 hsecond
    refine ⟨⟨scheme, authority, path, query, fragment⟩, rfl,
      ⟨hauthority _, hpath, hquery _, hfragment _⟩, ?_⟩
    exact (List.append_assoc _ path _).symm
  · rintro ⟨⟨_, authority, path, query, fragment⟩, rfl, hconforms, rfl⟩
    exact ⟨_, mem_hierPart.2 ⟨authority, path, rfl, fun _ => hconforms.authority, hconforms.path⟩,
      _, mem_uriTail.2 ⟨query, fragment, rfl, fun _ => hconforms.query,
        fun _ => hconforms.fragment⟩, List.append_assoc _ path _⟩

/-- The references are what conforming components make up. -/
theorem mem_uriReference_iff {url : Bytes} :
    url ∈ uriReference ↔ ∃ components, Conforms components ∧ components.recompose = url := by
  rw [uriReference, Language.mem_add, uri, relativeRef, Language.mem_mul]
  constructor
  · rintro (⟨scheme, hscheme, rest, hrest, rfl⟩ | hrelative)
    · obtain ⟨word, hword, rfl⟩ := mem_exactly_mul.1 hrest
      obtain ⟨components, hsome, hhier, rfl⟩ := (mem_hierPart_mul_uriTail (some scheme)).1 hword
      refine ⟨components, ⟨fun heq => ?_, by rwa [hsome]⟩, ?_⟩
      · rw [hsome] at heq
        exact Option.some.inj heq ▸ hscheme
      · rw [Components.recompose, hsome]
        exact List.append_assoc scheme [colon] _
    · obtain ⟨components, hnone, hhier, rfl⟩ := (mem_hierPart_mul_uriTail none).1 hrelative
      refine ⟨components, ⟨by simp [hnone], by rwa [hnone]⟩, ?_⟩
      rw [Components.recompose, hnone]
      rfl
  · rintro ⟨components, ⟨hscheme, hhier⟩, rfl⟩
    cases hsome : components.scheme with
    | some scheme =>
        rw [hsome] at hhier
        refine Or.inl ⟨scheme, hscheme hsome, [colon] ++ components.afterScheme, ?_, ?_⟩
        · exact mem_exactly_mul.2 ⟨_, (mem_hierPart_mul_uriTail (some scheme)).2
            ⟨components, hsome, hhier, rfl⟩, rfl⟩
        · rw [Components.recompose, hsome]
          exact (List.append_assoc scheme [colon] _).symm
    | none =>
        rw [hsome] at hhier
        refine Or.inr ((mem_hierPart_mul_uriTail none).2 ⟨components, hsome, hhier, ?_⟩)
        rw [Components.recompose, hsome]
        rfl

/-! ## The characters of the components -/

/-- The characters of words that are made of `encoded more`. -/
def encodedChar (more : Bytes) (ch : Byte) : Bool :=
  unreserved ch || subDelims ch || ch == percent || more.contains ch

theorem digit_unreserved {ch : Byte} (hch : digit ch = true) : unreserved ch = true := by
  simp [unreserved, hch]

theorem hexdig_unreserved {ch : Byte} (hch : hexdig ch = true) : unreserved ch = true := by
  simp only [hexdig, unreserved, alpha, digit, range, Bool.or_eq_true, Bool.and_eq_true,
    decide_eq_true_eq] at hch ⊢
  grind

section EncodedChar

variable {more : Bytes} {ch : Byte}

theorem encodedChar_of_unreserved (hch : unreserved ch = true) : encodedChar more ch = true := by
  simp [encodedChar, hch]

theorem encodedChar_of_listed
    (hch : (unreserved ch || subDelims ch || more.contains ch) = true) :
    encodedChar more ch = true := by
  simp only [encodedChar, Bool.or_eq_true] at hch ⊢
  tauto

theorem encodedChar_mono {less : Bytes} (hless : less ⊆ more)
    (hch : encodedChar less ch = true) : encodedChar more ch = true := by
  simp only [encodedChar, Bool.or_eq_true, List.contains_iff_mem] at hch ⊢
  exact hch.imp_right fun hmem => hless hmem

/-- A class without some characters. -/
theorem not_mem_of_all {accepts : Byte → Bool} {excluded : Bytes}
    (hall : (excluded.all fun ch => !accepts ch) = true) (hch : accepts ch = true) :
    ch ∉ excluded := by
  intro hmem
  have hnot := List.all_eq_true.1 hall ch hmem
  rw [hch] at hnot
  cases hnot

end EncodedChar

section Characters

variable {more : Bytes}

theorem charsIn_unreserved {accepts : Byte → Bool}
    (haccepts : ∀ {ch}, accepts ch = true → unreserved ch = true) :
    CharsIn (encodedChar more) (oneOf accepts) :=
  .oneOf fun hch => encodedChar_of_unreserved (haccepts hch)

theorem charsIn_pctEncoded : CharsIn (encodedChar more) pctEncoded :=
  (CharsIn.exactly (by simp [encodedChar, percent])).mul
    ((charsIn_unreserved hexdig_unreserved).mul (charsIn_unreserved hexdig_unreserved))

theorem charsIn_encoded {less : Bytes} (hless : less ⊆ more) :
    CharsIn (encodedChar more) (encoded less) :=
  (CharsIn.oneOf fun hch => encodedChar_mono hless (encodedChar_of_listed hch)).add
    charsIn_pctEncoded

theorem charsIn_digit : CharsIn (encodedChar more) (oneOf digit) :=
  charsIn_unreserved digit_unreserved

theorem charsIn_hexdig : CharsIn (encodedChar more) (oneOf hexdig) :=
  charsIn_unreserved hexdig_unreserved

end Characters

/-- The characters of an authority; the brackets are those of an address. -/
def authorityByte : Byte → Bool := encodedChar [colon, atSign, 91, 93]

def pathByte : Byte → Bool := encodedChar [colon, atSign, slash]

def queryByte : Byte → Bool := encodedChar [colon, atSign, slash, question]

def schemeByte (ch : Byte) : Bool := alpha ch || digit ch || [43, 45, 46].contains ch

theorem charsIn_schemeRule : CharsIn schemeByte schemeRule :=
  (CharsIn.oneOf fun hch => by simp [schemeByte, hch]).mul (CharsIn.oneOf fun hch => hch).kstar

section Authority

theorem range_digit {first last ch : Byte} (hfirst : 48 ≤ first) (hlast : last ≤ 57)
    (hch : range first last ch = true) : digit ch = true := by
  simp only [digit, range, Bool.and_eq_true, decide_eq_true_eq] at hch ⊢
  exact ⟨UInt8.le_trans hfirst hch.1, UInt8.le_trans hch.2 hlast⟩

theorem charsIn_range {first last : Byte} (hfirst : 48 ≤ first) (hlast : last ≤ 57) :
    CharsIn authorityByte (oneOf (range first last)) :=
  charsIn_unreserved fun hch => digit_unreserved (range_digit hfirst hlast hch)

theorem charsIn_decOctet : CharsIn authorityByte decOctet :=
  ((((charsIn_digit.add ((charsIn_range (by decide) (by decide)).mul charsIn_digit)).add
    ((CharsIn.exactly (by decide)).mul (charsIn_digit.pow 2))).add
    ((CharsIn.exactly (by decide)).mul
      ((charsIn_range (by decide) (by decide)).mul charsIn_digit))).add
    ((CharsIn.exactly (by decide)).mul (charsIn_range (by decide) (by decide))))

theorem charsIn_ipv4Address : CharsIn authorityByte ipv4Address :=
  charsIn_decOctet.mul (((CharsIn.exactly (by decide)).mul charsIn_decOctet).pow 3)

theorem charsIn_h16 : CharsIn authorityByte h16 :=
  charsIn_hexdig.mul (charsIn_hexdig.upTo 3)

theorem charsIn_ls32 : CharsIn authorityByte ls32 :=
  (charsIn_h16.mul ((CharsIn.exactly (by decide)).mul charsIn_h16)).add charsIn_ipv4Address

theorem charsIn_h16Colon : CharsIn authorityByte h16Colon :=
  charsIn_h16.mul (.exactly (by decide))

theorem charsIn_beforeColons (count : ℕ) : CharsIn authorityByte (beforeColons count) :=
  ((charsIn_h16Colon.upTo count).mul charsIn_h16).optional.mul (.exactly (by decide))

theorem charsIn_ipv6Address : CharsIn authorityByte ipv6Address := by
  have hfull (count : ℕ) : CharsIn authorityByte (h16Colon ^ count * ls32) :=
    (charsIn_h16Colon.pow count).mul charsIn_ls32
  refine .add (.add (.add (.add (.add (.add (.add (.add ?_ ?_) ?_) ?_) ?_) ?_) ?_) ?_) ?_
  · exact hfull 6
  · exact (CharsIn.exactly (by decide)).mul (hfull 5)
  · exact (charsIn_beforeColons 0).mul (hfull 4)
  · exact (charsIn_beforeColons 1).mul (hfull 3)
  · exact (charsIn_beforeColons 2).mul (hfull 2)
  · exact (charsIn_beforeColons 3).mul (charsIn_h16Colon.mul charsIn_ls32)
  · exact (charsIn_beforeColons 4).mul charsIn_ls32
  · exact (charsIn_beforeColons 5).mul charsIn_h16
  · exact charsIn_beforeColons 6

theorem charsIn_ipvFuture : CharsIn authorityByte ipvFuture := by
  have hversion : CharsIn authorityByte (oneOf [86, 118].contains) :=
    CharsIn.oneOf fun hch => by
      rcases List.mem_pair.1 (List.contains_iff_mem.1 hch) with rfl | rfl <;> decide
  have hlisted : CharsIn authorityByte
      (oneOf fun ch => unreserved ch || subDelims ch || [colon].contains ch) :=
    CharsIn.oneOf fun hch => encodedChar_mono (by simp) (encodedChar_of_listed hch)
  exact hversion.mul (charsIn_hexdig.oneOrMore.mul
    ((CharsIn.exactly (by decide)).mul hlisted.oneOrMore))

theorem charsIn_authorityRule : CharsIn authorityByte authorityRule := by
  have huserinfo : CharsIn authorityByte userinfo := (charsIn_encoded (by simp)).kstar
  have hliteral : CharsIn authorityByte ipLiteral :=
    (CharsIn.exactly (by decide)).mul
      ((charsIn_ipv6Address.add charsIn_ipvFuture).mul (.exactly (by decide)))
  have hregName : CharsIn authorityByte regName := (charsIn_encoded (by simp)).kstar
  have hhost : CharsIn authorityByte host := (hliteral.add charsIn_ipv4Address).add hregName
  have hport : CharsIn authorityByte (exactly [colon] * port) :=
    (CharsIn.exactly (by decide)).mul charsIn_digit.kstar
  exact (huserinfo.mul (.exactly (by decide))).optional.mul (hhost.mul hport.optional)

end Authority

section Path

theorem charsIn_pathAbempty : CharsIn pathByte pathAbempty :=
  ((CharsIn.exactly (by decide)).mul (charsIn_encoded (by simp)).kstar).kstar

theorem charsIn_pathAbsolute : CharsIn pathByte pathAbsolute :=
  (CharsIn.exactly (by decide)).mul
    ((charsIn_encoded (by simp)).oneOrMore.mul charsIn_pathAbempty).optional

theorem charsIn_pathRootless : CharsIn pathByte pathRootless :=
  (charsIn_encoded (by simp)).oneOrMore.mul charsIn_pathAbempty

theorem charsIn_pathNoscheme : CharsIn pathByte pathNoscheme :=
  (charsIn_encoded (by simp)).oneOrMore.mul charsIn_pathAbempty

theorem charsIn_queryRule : CharsIn queryByte queryRule :=
  (charsIn_encoded (List.Subset.refl _)).kstar

theorem charsIn_fragmentRule : CharsIn queryByte fragmentRule :=
  (charsIn_encoded (List.Subset.refl _)).kstar

end Path

end Nstl.UrlGrammar
