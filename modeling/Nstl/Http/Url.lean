import Nstl.Core.ByteString
import Nstl.Core.GreedyReader

/-!
# Taking a URL apart

`is_valid_url` matches its argument with one regular expression, whose groups are the
components of the URL:

`^(([^:/?#]+):)?(//([^/?#]*))?([^?#]*)(\?([^#]*))?(#(.*))?`

Four of the five parts are optional and their characters overlap, so that there are many
ways to take a text apart.  The search finds the one that is found by reading the parts
from left to right, and it fails only if the fragment has a line terminator in it.
-/

namespace Nstl.Url

open Nstl.Backtracking
open Nstl.ByteString

def colon : Byte := 58

def slash : Byte := 47

def question : Byte := 63

def hash : Byte := 35

def carriageReturn : Byte := 13

/-! ## The regular expression -/

/-- The class `[^:/?#]`. -/
def schemeChar (ch : Byte) : Bool := ch ∉ [colon, slash, question, hash]

/-- The class `[^/?#]`. -/
def authorityChar (ch : Byte) : Bool := ch ∉ [slash, question, hash]

/-- The class `[^?#]`. -/
def pathChar (ch : Byte) : Bool := ch ∉ [question, hash]

/-- The class `[^#]`. -/
def queryChar (ch : Byte) : Bool := ch ∉ [hash]

/-- The dot, which leaves out line terminators. -/
def fragmentChar (ch : Byte) : Bool := ch ∉ [newline, carriageReturn]

section Classes

variable {ch : Byte}

@[simp]
theorem schemeChar_iff :
    schemeChar ch = true ↔ ch ≠ colon ∧ ch ≠ slash ∧ ch ≠ question ∧ ch ≠ hash := by
  simp [schemeChar]

@[simp]
theorem authorityChar_iff :
    authorityChar ch = true ↔ ch ≠ slash ∧ ch ≠ question ∧ ch ≠ hash := by
  simp [authorityChar]

@[simp]
theorem pathChar_iff : pathChar ch = true ↔ ch ≠ question ∧ ch ≠ hash := by
  simp [pathChar]

@[simp]
theorem queryChar_iff : queryChar ch = true ↔ ch ≠ hash := by
  simp [queryChar]

theorem authorityChar_eq_false_iff :
    authorityChar ch = false ↔ ch = slash ∨ ch = question ∨ ch = hash := by
  simp [authorityChar, or_iff_not_imp_left]

theorem pathChar_eq_false_iff : pathChar ch = false ↔ ch = question ∨ ch = hash := by
  simp [pathChar, or_iff_not_imp_left]

theorem queryChar_eq_false_iff : queryChar ch = false ↔ ch = hash := by
  simp [queryChar]

end Classes

def urlReg : Pattern Byte :=
  .seq .start
    (.seq (terminated schemeChar colon 1 2)
      (.seq (delimited [slash, slash] authorityChar 3 4)
        (.seq (.group 5 (.star (.char pathChar)))
          (.seq (delimited [question] queryChar 6 7) (delimited [hash] fragmentChar 8 9)))))

/-- The groups of `ResIdx`. -/
def protocol : ℕ := 2

def hostname : ℕ := 4

def path : ℕ := 5

def params : ℕ := 7

/-- The group of the fragment, which has no name in `ResIdx`. -/
def fragment : ℕ := 9

/-- The groups of a successful match. -/
def matchUrl (url : Bytes) : Option (Captures Byte) := fullMatch urlReg url

def isValidUrl (url : Bytes) : Bool := (matchUrl url).isSome

/-! ## Reading the parts one after the other -/

def readFragment : Reader Byte := readDelimited [hash] fragmentChar 8 9 readEnd

def readQuery : Reader Byte := readDelimited [question] queryChar 6 7 readFragment

def readPath : Reader Byte := readRun pathChar 5 readQuery

def readAuthority : Reader Byte := readDelimited [slash, slash] authorityChar 3 4 readPath

def readScheme : Reader Byte := readTerminated schemeChar colon 1 2 readAuthority

/-- A line terminator behind the first `#`. -/
def HasTerminator (text : Bytes) : Prop :=
  ∃ ch ∈ (text.dropWhile queryChar).tail, fragmentChar ch = false

def FragmentFails (text : Bytes) : Prop :=
  if [hash] <+: text then (text.drop 1).dropWhile fragmentChar ≠ [] else text ≠ []

def QueryFails (text : Bytes) : Prop :=
  if [question] <+: text then FragmentFails ((text.drop 1).dropWhile queryChar)
  else FragmentFails text

theorem readFragment_failsOn : FailsOn readFragment FragmentFails :=
  readDelimited_failsOn readEnd_failsOn [hash] 8 9

theorem readQuery_failsOn : FailsOn readQuery QueryFails :=
  readDelimited_failsOn readFragment_failsOn [question] 6 7

theorem fragmentFails_cons {ch : Byte} (hch : ch ≠ hash) (text : Bytes) :
    FragmentFails (ch :: text) := by
  rw [FragmentFails, if_neg (by simp [hch.symm])]
  exact List.cons_ne_nil ch text

theorem queryFails_cons {ch : Byte} (hch : pathChar ch = true) (text : Bytes) :
    QueryFails (ch :: text) := by
  obtain ⟨hquestion, hhash⟩ := pathChar_iff.1 hch
  rw [QueryFails, if_neg (by simp [hquestion.symm])]
  exact fragmentFails_cons hhash text

theorem hasTerminator_append {text : Bytes} (htext : ∀ ch ∈ text, queryChar ch = true)
    (rest : Bytes) : HasTerminator (text ++ rest) ↔ HasTerminator rest := by
  rw [HasTerminator, HasTerminator, List.dropWhile_append_of_pos htext]

/-- What is skipped without a `#` does not matter. -/
theorem hasTerminator_dropWhile {accepts : Byte → Bool}
    (haccepts : ∀ {ch}, accepts ch = true → queryChar ch = true) (text : Bytes) :
    HasTerminator (text.dropWhile accepts) ↔ HasTerminator text := by
  have hall : ∀ ch ∈ text.takeWhile accepts, queryChar ch = true :=
    fun ch hch => haccepts (List.mem_takeWhile_imp hch)
  have hskipped := hasTerminator_append hall (text.dropWhile accepts)
  rw [List.takeWhile_append_dropWhile] at hskipped
  exact hskipped.symm

/-- From the first `#` on, the fragment fails on line terminators only. -/
theorem fragmentFails_dropWhile (text : Bytes) :
    FragmentFails (text.dropWhile queryChar) ↔ HasTerminator text := by
  rw [HasTerminator]
  cases hrest : text.dropWhile queryChar with
  | nil => simp [FragmentFails]
  | cons ch rest =>
      have hhead : (text.dropWhile queryChar).head? = some ch := by rw [hrest]; rfl
      have hch : ch = hash := queryChar_eq_false_iff.1 (head_dropWhile hhead)
      rw [FragmentFails, if_pos (by simp [hch]), List.drop_one, List.tail_cons, Ne,
        List.dropWhile_eq_nil_iff]
      simp

/-- From the first `?` or `#` on, so do query and fragment together. -/
theorem queryFails_dropWhile (text : Bytes) :
    QueryFails (text.dropWhile pathChar) ↔ HasTerminator text := by
  rw [← hasTerminator_dropWhile (fun hch => queryChar_iff.2 (pathChar_iff.1 hch).2) text]
  cases hrest : text.dropWhile pathChar with
  | nil => simp [QueryFails, FragmentFails, HasTerminator]
  | cons ch rest =>
      have hhead : (text.dropWhile pathChar).head? = some ch := by rw [hrest]; rfl
      rcases pathChar_eq_false_iff.1 (head_dropWhile hhead) with rfl | rfl
      · rw [QueryFails, if_pos (by simp), List.drop_one, List.tail_cons, fragmentFails_dropWhile]
        exact (hasTerminator_append (List.forall_mem_singleton.2 rfl) rest).symm
      · rw [QueryFails, if_neg (by simp [question, hash])]
        exact fragmentFails_dropWhile (hash :: rest)

/-! ## The search and the reading -/

theorem readPath_failsOn : FailsOn readPath HasTerminator := fun text captures =>
  (readRun_failsOn readQuery_failsOn 5 text captures).trans (queryFails_dropWhile text)

theorem readAuthority_failsOn : FailsOn readAuthority HasTerminator := by
  intro text captures
  rw [readAuthority, readDelimited_failsOn readPath_failsOn [slash, slash] 3 4 text captures]
  dsimp only
  split
  next hfound =>
    obtain ⟨rest, rfl⟩ := hfound
    rw [List.drop_left, hasTerminator_append (by simp [slash, hash])]
    exact hasTerminator_dropWhile (fun hch => queryChar_iff.2 (authorityChar_iff.1 hch).2.2) rest
  next => rfl

section Search

variable (pos : Position Byte)

/-- What is left for the end of the search. -/
def atEnd (pos : Position Byte) : Option (Captures Byte) :=
  if pos.rest.isEmpty then some pos.captures else none

theorem question_ne_hash : question ≠ hash := by decide

/-- Where a shorter run of characters is never good enough. -/
theorem noBetterInside_of_cons {accepts : Byte → Bool} {fails : Bytes → Prop}
    (hcons : ∀ {ch}, accepts ch = true → ∀ text, fails (ch :: text)) :
    NoBetterInside accepts fails := by
  intro text count hcount _
  obtain ⟨ch, rest, hdrop, hch⟩ := exists_drop_of_lt_takeWhile hcount
  rw [hdrop]
  exact hcons hch rest

theorem run_fragment :
    run (delimited [hash] fragmentChar 8 9) pos atEnd = readFragment pos.rest pos.captures :=
  run_eq_readDelimited (fun _ => rfl) readEnd_failsOn
    (noBetterInside_of_cons fun _ text => List.cons_ne_nil _ text) (List.cons_ne_nil _ _)
    (fun _ _ => List.cons_ne_nil _ _) 8 9 pos

theorem run_query :
    run (delimited [question] queryChar 6 7) pos
      (fun after => run (delimited [hash] fragmentChar 8 9) after atEnd) =
      readQuery pos.rest pos.captures :=
  run_eq_readDelimited run_fragment readFragment_failsOn
    (noBetterInside_of_cons fun hch => fragmentFails_cons (queryChar_iff.1 hch))
    (List.cons_ne_nil question []) (fun text _ => fragmentFails_cons question_ne_hash text)
    6 7 pos

theorem run_path :
    run (.group 5 (.star (.char pathChar))) pos
      (fun after => run (delimited [question] queryChar 6 7) after
        fun after => run (delimited [hash] fragmentChar 8 9) after atEnd) =
      readPath pos.rest pos.captures :=
  run_eq_readRun run_query readQuery_failsOn (noBetterInside_of_cons queryFails_cons) 5 pos

/-- Where the text behind a run of characters decides alone. -/
theorem noBetterInside_hasTerminator {accepts : Byte → Bool}
    (haccepts : ∀ {ch}, accepts ch = true → queryChar ch = true) :
    NoBetterInside accepts HasTerminator := by
  intro text count hcount hbad
  have htake : text.take count = (text.takeWhile accepts).take count := by
    rw [← take_takeWhile text, List.take_take, Nat.min_eq_left hcount.le]
  have hall : ∀ ch ∈ text.take count, queryChar ch = true := fun ch hch => by
    rw [htake] at hch
    exact haccepts (List.mem_takeWhile_imp (List.mem_of_mem_take hch))
  rw [hasTerminator_dropWhile haccepts, ← List.take_append_drop count text] at hbad
  exact (hasTerminator_append hall _).1 hbad

theorem run_authority :
    run (delimited [slash, slash] authorityChar 3 4) pos
      (fun after => run (.group 5 (.star (.char pathChar))) after
        fun after => run (delimited [question] queryChar 6 7) after
          fun after => run (delimited [hash] fragmentChar 8 9) after atEnd) =
      readAuthority pos.rest pos.captures := by
  have haccepts : ∀ {ch}, authorityChar ch = true → queryChar ch = true :=
    fun hch => queryChar_iff.2 (authorityChar_iff.1 hch).2.2
  refine run_eq_readDelimited run_path readPath_failsOn (noBetterInside_hasTerminator haccepts)
    (List.cons_ne_nil slash [slash]) (fun text hbad => ?_) 3 4 pos
  rw [hasTerminator_dropWhile haccepts] at hbad
  exact (hasTerminator_append (by simp [slash, hash]) text).2 hbad

theorem run_scheme :
    run (terminated schemeChar colon 1 2) pos
      (fun after => run (delimited [slash, slash] authorityChar 3 4) after
        fun after => run (.group 5 (.star (.char pathChar))) after
          fun after => run (delimited [question] queryChar 6 7) after
            fun after => run (delimited [hash] fragmentChar 8 9) after atEnd) =
      readScheme pos.rest pos.captures := by
  refine run_eq_readTerminated run_authority readAuthority_failsOn (by decide)
    (fun text rest hall hbad => ?_) 1 2 pos
  have hscheme : ∀ ch ∈ text ++ [colon], queryChar ch = true :=
    List.forall_mem_append.2 ⟨fun ch hch => queryChar_iff.2 (schemeChar_iff.1 (hall ch hch)).2.2.2,
      List.forall_mem_singleton.2 rfl⟩
  rw [← List.singleton_append, ← List.append_assoc]
  exact (hasTerminator_append hscheme rest).2 hbad

end Search

/-- The search finds what is read from left to right. -/
theorem matchUrl_eq (url : Bytes) : matchUrl url = readScheme url fun _ => none :=
  run_scheme ⟨0, url, fun _ => none⟩

/-! ## The components -/

@[ext]
structure Components where
  scheme : Option Bytes
  authority : Option Bytes
  path : Bytes
  query : Option Bytes
  fragment : Option Bytes
  deriving DecidableEq

namespace Components

/-- The components in the groups of a match. -/
def ofGroups (groups : Captures Byte) : Components where
  scheme := groups protocol
  authority := groups hostname
  path := (groups Url.path).getD []
  query := groups params
  fragment := groups Url.fragment

variable (components : Components)

def afterQuery : Bytes := delimitedText [hash] components.fragment

def afterPath : Bytes := delimitedText [question] components.query ++ components.afterQuery

def afterAuthority : Bytes := components.path ++ components.afterPath

def afterScheme : Bytes :=
  delimitedText [slash, slash] components.authority ++ components.afterAuthority

/-- The components with their delimiters. -/
def recompose : Bytes := terminatedText colon components.scheme ++ components.afterScheme

end Components

/-- The components, each with its own characters, make up the text; the scheme is there
whenever there can be one, and so is the authority, which goes as far as it can. -/
structure Decomposes (url : Bytes) (components : Components) : Prop where
  recompose_eq : components.recompose = url
  scheme_chars : ∀ {scheme}, components.scheme = some scheme →
    scheme ≠ [] ∧ ∀ ch ∈ scheme, ch ∉ [colon, slash, question, hash]
  authority_chars : ∀ {authority}, components.authority = some authority →
    ∀ ch ∈ authority, ch ∉ [slash, question, hash]
  path_chars : ∀ ch ∈ components.path, ch ∉ [question, hash]
  query_chars : ∀ {query}, components.query = some query → hash ∉ query
  scheme_taken : components.scheme = none → ∀ run rest, url = run ++ colon :: rest →
    run ≠ [] → ¬∀ ch ∈ run, ch ∉ [colon, slash, question, hash]
  authority_taken : components.authority = none → ¬[slash, slash] <+: components.path
  authority_ends : ∀ {authority}, components.authority = some authority →
    ∀ {ch}, components.path.head? = some ch → ch = slash

/-- The same in terms of the parts that are read one after the other. -/
structure ReadAs (url : Bytes) (components : Components) : Prop where
  scheme : TerminatedPart schemeChar colon url components.scheme components.afterScheme
  authority : DelimitedPart [slash, slash] authorityChar components.afterScheme
    components.authority components.afterAuthority
  path : RunPart pathChar components.afterAuthority components.path components.afterPath
  query : DelimitedPart [question] queryChar components.afterPath components.query
    components.afterQuery

/-- There is one way to read a text. -/
theorem ReadAs.unique {url : Bytes} {components other : Components}
    (hread : ReadAs url components) (hother : ReadAs url other) : components = other := by
  obtain ⟨hscheme, hafterScheme⟩ := hread.scheme.unique (by decide) hother.scheme
  have hauthority := hread.authority
  rw [hafterScheme] at hauthority
  obtain ⟨hauthority, hafterAuthority⟩ := hauthority.unique hother.authority
  have hpath := hread.path
  rw [hafterAuthority] at hpath
  obtain ⟨hpath, hafterPath⟩ := hpath.unique hother.path
  have hquery := hread.query
  rw [hafterPath] at hquery
  obtain ⟨hquery, hafterQuery⟩ := hquery.unique hother.query
  have hfragment : components.fragment = other.fragment :=
    delimitedText_injective (List.cons_ne_nil hash []) hafterQuery
  exact Components.ext hscheme hauthority hpath hquery hfragment

section Keeps

variable {index : ℕ}

theorem readFragment_keeps (hindex : index < 8) : Keeps readFragment index :=
  readDelimited_keeps (readEnd_keeps index) [hash] (by omega) (by omega)

theorem readQuery_keeps (hindex : index < 6) : Keeps readQuery index :=
  readDelimited_keeps (readFragment_keeps (by omega)) [question] (by omega) (by omega)

theorem readPath_keeps (hindex : index < 5) : Keeps readPath index :=
  readRun_keeps (readQuery_keeps (by omega)) (by omega)

theorem readAuthority_keeps (hindex : index < 3) : Keeps readAuthority index :=
  readDelimited_keeps (readPath_keeps (by omega)) [slash, slash] (by omega) (by omega)

end Keeps

theorem readFragment_spec {text : Bytes} {captures groups : Captures Byte}
    (hread : readFragment text captures = some groups) (hnew : captures fragment = none) :
    text = delimitedText [hash] (groups fragment) := by
  obtain ⟨rest, after, hend, hpart, -⟩ :=
    readDelimited_spec (by decide) (readEnd_keeps fragment) hnew hread
  have hrest : rest = [] := by
    by_contra hne
    rw [(readEnd_failsOn rest after).2 hne] at hend
    cases hend
  have htext := hpart.text_eq
  rwa [hrest, List.append_nil] at htext

/-- The groups of a match are the parts that were read. -/
theorem readAs_of_matchUrl {url : Bytes} {groups : Captures Byte}
    (hmatch : matchUrl url = some groups) :
    (groups path).isSome ∧ ReadAs url (.ofGroups groups) := by
  rw [matchUrl_eq] at hmatch
  obtain ⟨rest1, after1, hread1, hscheme, hkept1⟩ :=
    readTerminated_spec (by decide) (by decide) (readAuthority_keeps (by decide)) rfl hmatch
  obtain ⟨rest2, after2, hread2, hauthority, hkept2⟩ :=
    readDelimited_spec (by decide) (readPath_keeps (by decide))
      (hkept1 hostname (by decide) (by decide)) hread1
  obtain ⟨body, rest3, after3, hread3, hbody, hpath, hkept3⟩ :=
    readRun_spec (readQuery_keeps (by decide)) hread2
  have hnew3 (index : ℕ) (hindex : 5 < index) : after3 index = none := by
    rw [hkept3 index (by omega), hkept2 index (by omega) (by unfold hostname; omega),
      hkept1 index (by omega) (by omega)]
  obtain ⟨rest4, after4, hread4, hquery, hkept4⟩ :=
    readDelimited_spec (by decide) (readFragment_keeps (by decide)) (hnew3 params (by decide))
      hread3
  have hfragment : rest4 = (Components.ofGroups groups).afterQuery := by
    refine readFragment_spec hread4 ?_
    rw [hkept4 fragment (by decide) (by decide), hnew3 fragment (by decide)]
  -- the rests are what the components behind them make up
  subst hfragment
  obtain rfl : rest3 = (Components.ofGroups groups).afterPath := hquery.text_eq
  have hpathEq : (Components.ofGroups groups).path = body := by
    rw [Components.ofGroups, path, hbody, Option.getD_some]
  rw [← hpathEq] at hpath
  obtain rfl : rest2 = (Components.ofGroups groups).afterAuthority := hpath.text_eq
  obtain rfl : rest1 = (Components.ofGroups groups).afterScheme := hauthority.text_eq
  exact ⟨by rw [path, hbody]; rfl, hscheme, hauthority, hpath, hquery⟩

/-! ## The components of a decomposition -/

theorem head_afterQuery {components : Components} {ch : Byte}
    (hhead : components.afterQuery.head? = some ch) : ch = hash := by
  cases hfragment : components.fragment with
  | none => simp [Components.afterQuery, hfragment, delimitedText] at hhead
  | some fragment =>
      simp only [Components.afterQuery, hfragment, delimitedText, Option.elim_some,
        List.cons_append, List.head?_cons, Option.some.injEq] at hhead
      exact hhead.symm

theorem head_afterPath {components : Components} {ch : Byte}
    (hhead : components.afterPath.head? = some ch) : ch = question ∨ ch = hash := by
  cases hquery : components.query with
  | none =>
      rw [Components.afterPath, hquery] at hhead
      exact Or.inr (head_afterQuery hhead)
  | some query =>
      simp only [Components.afterPath, hquery, delimitedText, Option.elim_some,
        List.cons_append, List.head?_cons, Option.some.injEq] at hhead
      exact Or.inl hhead.symm

/-- What was read is a decomposition. -/
theorem ReadAs.decomposes {url : Bytes} {components : Components}
    (hread : ReadAs url components) : Decomposes url components where
  recompose_eq := hread.scheme.text_eq.symm
  scheme_chars hscheme := by
    obtain ⟨hne, hall⟩ := hread.scheme.accepted hscheme
    exact ⟨hne, fun ch hch => of_decide_eq_true (hall ch hch)⟩
  authority_chars hauthority ch hch :=
    of_decide_eq_true (hread.authority.accepted hauthority ch hch)
  path_chars ch hch := of_decide_eq_true (hread.path.accepted ch hch)
  query_chars hquery hmem := queryChar_iff.1 (hread.query.accepted hquery hash hmem) rfl
  scheme_taken hscheme run rest hurl hne hall :=
    hread.scheme.missing hscheme run rest hurl hne fun ch hch => decide_eq_true (hall ch hch)
  authority_taken hauthority hpath := by
    refine hread.authority.missing hauthority ?_
    rw [Components.afterScheme, hauthority]
    exact hpath.trans (List.prefix_append _ _)
  authority_ends {authority} hauthority {ch} hhead := by
    have hafter : components.afterAuthority.head? = some ch := by
      rw [Components.afterAuthority, List.head?_append, hhead, Option.some_or]
    have hpath := pathChar_iff.1 (hread.path.accepted ch (List.mem_of_head? hhead))
    rcases authorityChar_eq_false_iff.1 (hread.authority.stopped hauthority hafter) with
      hslash | hquestion | hhash
    · exact hslash
    · exact absurd hquestion hpath.1
    · exact absurd hhash hpath.2

/-- Two slashes at the begin belong to the path if there is none behind it. -/
theorem slashes_of_append {path rest : Bytes} (hlead : [slash, slash] <+: path ++ rest)
    (hrest : rest.head? ≠ some slash) : [slash, slash] <+: path := by
  match path with
  | [] =>
      obtain ⟨more, rfl⟩ := hlead
      exact absurd rfl hrest
  | [first] =>
      have hsecond : [slash] <+: rest := (List.cons_prefix_cons.1 hlead).2
      obtain ⟨more, rfl⟩ := hsecond
      exact absurd rfl hrest
  | first :: second :: path =>
      obtain ⟨rfl, hsecond⟩ := List.cons_prefix_cons.1 hlead
      obtain ⟨rfl, -⟩ := List.cons_prefix_cons.1 hsecond
      exact ⟨path, rfl⟩

/-- A decomposition can be read. -/
theorem Decomposes.readAs {url : Bytes} {components : Components}
    (hdec : Decomposes url components) : ReadAs url components where
  scheme :=
    ⟨hdec.recompose_eq.symm, fun hscheme => ⟨(hdec.scheme_chars hscheme).1, fun ch hch =>
        decide_eq_true ((hdec.scheme_chars hscheme).2 ch hch)⟩,
      fun hscheme run rest hurl hne hall => hdec.scheme_taken hscheme run rest hurl hne
        fun ch hch => of_decide_eq_true (hall ch hch)⟩
  authority := by
    refine ⟨rfl, fun hauthority ch hch => decide_eq_true (hdec.authority_chars hauthority ch hch),
      ?_, ?_⟩
    · intro authority hauthority ch hhead
      refine authorityChar_eq_false_iff.2 ?_
      cases hpath : components.path with
      | nil =>
          rw [Components.afterAuthority, hpath] at hhead
          exact Or.inr (head_afterPath hhead)
      | cons first path =>
          rw [Components.afterAuthority, hpath] at hhead
          exact Or.inl (hdec.authority_ends hauthority (by rw [hpath]; exact hhead))
    · intro hauthority hlead
      rw [Components.afterScheme, hauthority] at hlead
      exact hdec.authority_taken hauthority (slashes_of_append hlead fun hhead => by
        rcases head_afterPath hhead with heq | heq <;> cases heq)
  path :=
    ⟨rfl, fun ch hch => decide_eq_true (hdec.path_chars ch hch),
      fun hhead => pathChar_eq_false_iff.2 (head_afterPath hhead)⟩
  query := by
    refine ⟨rfl, fun hquery ch hch => queryChar_iff.2 fun heq => ?_, ?_, fun hquery hlead => ?_⟩
    · exact hdec.query_chars hquery (heq ▸ hch)
    · intro query _ ch hhead
      exact queryChar_eq_false_iff.2 (head_afterQuery hhead)
    · rw [Components.afterPath, hquery] at hlead
      obtain ⟨rest, hrest⟩ := hlead
      have hhead : components.afterQuery.head? = some question := by
        change ([] ++ components.afterQuery).head? = some question
        exact hrest ▸ rfl
      exact question_ne_hash (head_afterQuery hhead)

/-! ## Every text but those with a line terminator in the fragment -/

theorem readScheme_failsOn : FailsOn readScheme HasTerminator := by
  intro text captures
  rw [readScheme, readTerminated_failsOn readAuthority_failsOn colon 1 2 text captures]
  dsimp only
  split
  next hfound =>
    obtain ⟨-, rest, hrest⟩ := hfound
    have haccepts : ∀ {ch}, schemeChar ch = true → queryChar ch = true :=
      fun hch => queryChar_iff.2 (schemeChar_iff.1 hch).2.2.2
    rw [← hasTerminator_dropWhile haccepts text, ← hrest]
    exact (hasTerminator_append (List.forall_mem_singleton.2 rfl) rest).symm
  next => rfl

theorem isValidUrl_iff (url : Bytes) : isValidUrl url = true ↔ ¬HasTerminator url := by
  rw [isValidUrl, matchUrl_eq, ← readScheme_failsOn url fun _ => none]
  exact Option.isSome_iff_ne_none

theorem hasTerminator_iff (url : Bytes) :
    HasTerminator url ↔ ∃ before after, url = before ++ hash :: after ∧ hash ∉ before ∧
      ∃ ch ∈ after, ch = newline ∨ ch = carriageReturn := by
  have hterminator (ch : Byte) :
      fragmentChar ch = false ↔ ch = newline ∨ ch = carriageReturn := by
    simp [fragmentChar, or_iff_not_imp_left]
  simp only [HasTerminator, hterminator]
  constructor
  · rintro ⟨ch, hch, heq⟩
    cases hrest : url.dropWhile queryChar with
    | nil => simp [hrest] at hch
    | cons first after =>
        have hhead : (url.dropWhile queryChar).head? = some first := by rw [hrest]; rfl
        obtain rfl := queryChar_eq_false_iff.1 (head_dropWhile hhead)
        refine ⟨url.takeWhile queryChar, after, ?_, fun hmem => ?_, ch, ?_, heq⟩
        · rw [← hrest, List.takeWhile_append_dropWhile]
        · exact queryChar_iff.1 (List.mem_takeWhile_imp hmem) rfl
        · rwa [hrest] at hch
  · rintro ⟨before, after, rfl, hbefore, ch, hch, heq⟩
    have hall : ∀ ch ∈ before, queryChar ch = true :=
      fun ch hmem => queryChar_iff.2 fun hhash => hbefore (hhash ▸ hmem)
    rw [dropWhile_stop (by decide) hall]
    exact ⟨ch, hch, heq⟩

/-- A text is accepted unless there is a line terminator behind its first `#`, and the
groups are then its one decomposition. -/
theorem url_decomposition (url : Bytes) :
    (isValidUrl url = false ↔ ∃ before after, url = before ++ hash :: after ∧ hash ∉ before ∧
      ∃ ch ∈ after, ch = newline ∨ ch = carriageReturn) ∧
    ∀ groups, matchUrl url = some groups →
      (groups path).isSome ∧ Decomposes url (.ofGroups groups) ∧
        ∀ other, Decomposes url other → other = .ofGroups groups := by
  refine ⟨?_, fun groups hmatch => ?_⟩
  · rw [← hasTerminator_iff, ← Bool.not_eq_true, isValidUrl_iff, not_not]
  · obtain ⟨hpath, hread⟩ := readAs_of_matchUrl hmatch
    exact ⟨hpath, hread.decomposes, fun other hother => hother.readAs.unique hread⟩

/-- The text `a:b`. -/
theorem url_decomposition_scheme :
    ∃ groups, matchUrl [97, 58, 98] = some groups ∧ Decomposes [97, 58, 98] (.ofGroups groups) := by
  have hvalid : (matchUrl [97, 58, 98]).isSome = true := by decide
  obtain ⟨groups, hmatch⟩ := Option.isSome_iff_exists.1 hvalid
  exact ⟨groups, hmatch, ((url_decomposition [97, 58, 98]).2 groups hmatch).2.1⟩

end Nstl.Url
