import Nstl.Dns.NameCompression

/-!
# TXT records

The data of a TXT record are strings, each behind a byte that holds its length, and
`txt_name` puts the strings of a record together again.  The lengths come from the
other side: they may point anywhere.  The scan is given on a window that holds the
data of the record and nothing else, so that it is seen to stay inside; on this
window it computes what the client computes on the message.
-/

namespace Nstl.DnsTxt

open Nstl.ByteString
open Nstl.DnsMessage
open Nstl.DnsQuery
open Nstl.Framing
open Nstl.Memory
open Nstl.NameCompression

/-- The loop of `txt_name` over the data of a record.  The absence of a result is the
flag `valid` being cleared. -/
def scanTxt (window : Window) (p last : ℕ) (item : Bytes) : Except Fault (Option Bytes) :=
  if p < last then
    match window.read p with
    | .error fault => .error fault
    | .ok textLen =>
        if last < p + 1 + textLen.toNat then .ok none
        else
          match window.readBytes (p + 1) textLen.toNat with
          | .error fault => .error fault
          | .ok text => scanTxt window (p + 1 + textLen.toNat) last (item ++ text)
  else .ok (some item)
termination_by last - p

/-- The bytes of a message as memory. -/
def messageMemory (message : Bytes) : ℕ → Byte :=
  fun position => message.getD position 0

/-- The part of the memory that holds the data of a record. -/
def rdataWindow (message : Bytes) (record : RawRecord) : Window where
  memory := messageMemory message
  first := record.rdata
  last := record.rdata + record.rdlen.toNat

def rdata (message : Bytes) (record : RawRecord) : Bytes :=
  contents (messageMemory message) record.rdata record.rdlen.toNat

/-- The answers that the parser of the library returns, in the order of the message. -/
def answers (lib : Libresolv) (message : Bytes) : List RawRecord :=
  (List.range (lib.nsMsgCount message)).filterMap (lib.nsParserr message)

/-- The record is a TXT record of class IN whose data are tiled by strings that are
together the text. -/
def Qualifies (message : Bytes) (record : RawRecord) (text : Bytes) : Prop :=
  record.type = nsTypeTxt ∧ record.rrClass = nsClassIn ∧
    ∃ strings, Tiled (rdata message record) strings ∧ text = strings.flatten

/-- One text for each record that has one, in the order of the records. -/
inductive Reassembles (message : Bytes) : List RawRecord → List Bytes → Prop
  | nil : Reassembles message [] []
  | take {record text records texts} (hrecord : Qualifies message record text)
      (hrecords : Reassembles message records texts) :
      Reassembles message (record :: records) (text :: texts)
  | skip {record records texts} (hrecord : ∀ text, ¬Qualifies message record text)
      (hrecords : Reassembles message records texts) :
      Reassembles message (record :: records) texts

/-! ## The scan of a record -/

section Scan

variable {message : Bytes} {window : Window}

theorem take_drop_eq_contents {p length : ℕ} (hinside : p + length ≤ message.length) :
    (message.drop p).take length = contents (messageMemory message) p length := by
  apply List.ext_getElem
  · simp
    omega
  · intro index hleft hright
    have hindex : p + index < message.length := by
      rw [length_contents] at hright
      omega
    simp [contents, messageMemory, hindex]

/-- One round of the scan. -/
theorem scanTxt_round {p last : ℕ} (hp : p < last) {textLen : Byte}
    (hread : window.read p = .ok textLen) (item : Bytes) :
    (last < p + 1 + textLen.toNat → scanTxt window p last item = .ok none) ∧
      ∀ text, ¬last < p + 1 + textLen.toNat →
        window.readBytes (p + 1) textLen.toNat = .ok text →
          scanTxt window p last item =
            scanTxt window (p + 1 + textLen.toNat) last (item ++ text) := by
  rw [scanTxt, if_pos hp]
  simp only [hread]
  constructor
  · intro hpast
    rw [if_pos hpast]
  · intro text hfits htext
    rw [if_neg hfits]
    simp only [htext]

/-- The scan stays inside any window that covers what is left, and computes what the
client does. -/
theorem scanTxt_eq (hmemory : window.memory = messageMemory message) {p last : ℕ}
    (hcovers : window.Covers p (last - p)) (hinside : last ≤ message.length) (item : Bytes) :
    scanTxt window p last item = .ok (txtFrom message p last item) := by
  fun_induction txtFrom message p last item with
  | case1 p item hp textLen hpast =>
      have hread := hcovers.read (by omega)
      rw [hmemory] at hread
      exact (scanTxt_round hp hread item).1 hpast
  | case2 p item hp textLen hfits ih =>
      have hread := hcovers.read (by omega)
      have htext := (hcovers.mono (p + 1) textLen (by omega) (by omega)).readBytes
      rw [hmemory] at hread htext
      rw [take_drop_eq_contents (by omega)] at ih ⊢
      rw [(scanTxt_round hp hread item).2 _ hfits htext]
      exact ih (hcovers.mono _ _ (by omega) (by omega))
  | case3 p item hend => rw [scanTxt, if_neg hend]

theorem txtFrom_round {p last : ℕ} (hp : p < last) (item : Bytes) :
    txtFrom message p last item =
      if last < p + 1 + (messageMemory message p).toNat then none
      else txtFrom message (p + 1 + (messageMemory message p).toNat) last
        (item ++ (message.drop (p + 1)).take (messageMemory message p).toNat) := by
  rw [txtFrom, if_pos hp]
  rfl

/-- The scan succeeds exactly on data that are tiled by strings, and returns them one
behind the other. -/
theorem txtFrom_eq_some_iff {p length : ℕ} (hinside : p + length ≤ message.length)
    (item text : Bytes) :
    txtFrom message p (p + length) item = some text ↔
      ∃ strings, Tiled (contents (messageMemory message) p length) strings ∧
        text = item ++ strings.flatten := by
  induction length using Nat.strong_induction_on generalizing p item with
  | _ length ih =>
      cases length with
      | zero =>
          rw [txtFrom, if_neg (by omega)]
          simp [eq_comm]
      | succ length =>
          rw [contents_succ, txtFrom_round (by omega)]
          simp only [tiled_cons_iff, length_contents]
          generalize messageMemory message p = textLen
          split
          next hpast => simp [show ¬textLen.toNat ≤ length by omega]
          next hfits =>
            have hrest := ih (length - textLen.toNat) (by omega)
              (show p + 1 + textLen.toNat + (length - textLen.toNat) ≤ message.length by omega)
              (item ++ (message.drop (p + 1)).take textLen.toNat)
            rw [show p + 1 + textLen.toNat + (length - textLen.toNat) = p + (length + 1) by
              omega] at hrest
            rw [hrest, take_drop_eq_contents (by omega), take_contents _ _ (by omega),
              drop_contents]
            constructor
            · rintro ⟨others, hothers, rfl⟩
              exact ⟨_, ⟨by omega, others, rfl, hothers⟩, by simp⟩
            · rintro ⟨strings, ⟨-, others, rfl, hothers⟩, rfl⟩
              exact ⟨others, hothers, by simp⟩

end Scan

/-! ## The answers -/

section Answers

variable {lib : Libresolv} {message : Bytes} {record : RawRecord}

theorem inside_of_mem_answers (hrecord : record ∈ answers lib message) :
    record.rdata + record.rdlen.toNat ≤ message.length := by
  obtain ⟨idx, -, hidx⟩ := List.mem_filterMap.1 hrecord
  exact lib.nsParserr_inside message idx record hidx

/-- What the client takes from an answer. -/
def textOf (message : Bytes) (record : RawRecord) : Option Bytes :=
  if record.rrClass ≠ nsClassIn ∨ record.type ≠ nsTypeTxt then none
  else txtRecord message record

theorem textOf_eq_some_iff (hrecord : record ∈ answers lib message) (text : Bytes) :
    textOf message record = some text ↔ Qualifies message record text := by
  have hscan := txtFrom_eq_some_iff (inside_of_mem_answers hrecord) [] text
  simp only [List.nil_append] at hscan
  rw [textOf, Qualifies, rdata, ← hscan, txtRecord]
  split
  next hother => simp; tauto
  next hkind =>
    obtain ⟨hclass, htype⟩ := not_or.1 hkind
    simp [not_not.1 hclass, not_not.1 htype]

theorem collectAnswers_txt (lib : Libresolv) (message : Bytes) :
    collectAnswers lib message nsTypeTxt (txtRecord message) =
      present ((answers lib message).filterMap (textOf message)) := by
  rw [collectAnswers_eq, answers, List.filterMap_filterMap]
  congr 2
  funext idx
  rw [matchingRecord]
  cases lib.nsParserr message idx with
  | none => rfl
  | some record =>
      simp only [Option.bind_some, textOf]
      split <;> rfl

theorem textOf_eq_none_iff (hrecord : record ∈ answers lib message) :
    textOf message record = none ↔ ∀ text, ¬Qualifies message record text := by
  simp only [Option.eq_none_iff_forall_ne_some, ne_eq, textOf_eq_some_iff hrecord]

/-- Taking the texts of the records one by one is the only way to reassemble them. -/
theorem reassembles_iff {records : List RawRecord}
    (hrecords : ∀ record ∈ records, record ∈ answers lib message) (texts : List Bytes) :
    Reassembles message records texts ↔ texts = records.filterMap (textOf message) := by
  constructor
  · intro hreassembles
    induction hreassembles with
    | nil => rfl
    | take hrecord _ ih =>
        obtain ⟨hfirst, hrest⟩ := List.forall_mem_cons.1 hrecords
        rw [List.filterMap_cons_some ((textOf_eq_some_iff hfirst _).2 hrecord), ← ih hrest]
    | skip hrecord _ ih =>
        obtain ⟨hfirst, hrest⟩ := List.forall_mem_cons.1 hrecords
        rw [List.filterMap_cons_none ((textOf_eq_none_iff hfirst).2 hrecord), ← ih hrest]
  · rintro rfl
    induction records with
    | nil => exact .nil
    | cons record records ih =>
        obtain ⟨hfirst, hrest⟩ := List.forall_mem_cons.1 hrecords
        cases htext : textOf message record with
        | none =>
            rw [List.filterMap_cons_none htext]
            exact .skip ((textOf_eq_none_iff hfirst).1 htext) (ih hrest)
        | some text =>
            rw [List.filterMap_cons_some htext]
            exact .take ((textOf_eq_some_iff hfirst text).1 htext) (ih hrest)

end Answers

theorem present_eq_some_iff {Item : Type} (items others : List Item) :
    present items = some others ↔ others ≠ [] ∧ others = items := by
  rw [present]
  split
  next hnil => simp [hnil]
  next hne =>
    rw [Option.some.injEq, eq_comm]
    exact (and_iff_right_of_imp fun heq => heq ▸ hne).symm

/-- Whatever the response, `txt_name` returns one text for each TXT record of class IN
whose data are tiled by strings, in the order of the answers, and nothing if there is no
such record; the scan of every answer ends without having looked at a byte outside the
data of its record. -/
theorem txtName_reassembles (client : DnsClient) (lib : Libresolv) (resolver : Resolver)
    (name : Bytes) :
    ((client.processItem lib (resolver name nsTypeTxt)).1 = none →
      (client.txtName lib resolver name).1 = none) ∧
    ∀ message, (client.processItem lib (resolver name nsTypeTxt)).1 = some message →
      (∀ texts, (client.txtName lib resolver name).1 = some texts ↔
        texts ≠ [] ∧ Reassembles message (answers lib message) texts) ∧
      ((client.txtName lib resolver name).1 = none ↔
        ∀ record ∈ answers lib message, ∀ text, ¬Qualifies message record text) ∧
      ∀ record ∈ answers lib message,
        scanTxt (rdataWindow message record) record.rdata
          (record.rdata + record.rdlen.toNat) [] = .ok (txtRecord message record) := by
  rw [DnsClient.txtName, DnsClient.query]
  generalize client.processItem lib (resolver name nsTypeTxt) = processed
  obtain ⟨response, after⟩ := processed
  constructor
  · rintro rfl
    rfl
  · rintro message rfl
    simp only [collectAnswers_txt]
    refine ⟨?_, ?_, ?_⟩
    · intro texts
      rw [present_eq_some_iff, reassembles_iff fun _ hrecord => hrecord]
    · rw [← Option.not_isSome_iff_eq_none, present_filterMap_isSome_iff]
      simp only [not_exists, not_and, Option.not_isSome_iff_eq_none]
      exact forall₂_congr fun record hrecord => textOf_eq_none_iff hrecord
    · intro record hrecord
      exact scanTxt_eq rfl ⟨Nat.le_refl _, by simp [rdataWindow]⟩
        (inside_of_mem_answers hrecord) []

end Nstl.DnsTxt
