import Nstl.Http.Client

/-!
# What the methods of a client do

A call that ends, by returning or by throwing, has changed little: the header list
of this client, its own fields, and the options of its handle.
-/

namespace Nstl.HttpEffects

open Nstl.ByteString
open Nstl.Http
open Nstl.OptionMap
open Nstl.Programs
open Nstl.Programs.Program

variable {before after session : Session} {environment : Environment}
  {done settings : List (Setting Opt.Value)}

@[simp]
theorem assign_nil (session : Session) : session.assign [] = session := by
  simp [Session.assign, Option.map_id']

theorem assign_assign (session : Session) (first second : List (Setting Opt.Value)) :
    (session.assign first).assign second = session.assign (first ++ second) := by
  simp [Session.assign, assignAll, Function.comp_def]

/-! ## Setting options -/

theorem requireCurl_meets (session : Session) :
    Meets requireCurl session (fun _ after => after = session ∧ session.this.curl.isSome)
      (fun _ after => after = session ∧ session.this.curl = none) := by
  rw [requireCurl, meets_bind_read]
  cases hcurl : session.this.curl with
  | none => exact ⟨rfl, rfl⟩
  | some handle => exact ⟨rfl, rfl⟩

theorem errorView_meets (session : Session) :
    Meets errorView session (fun _ after => after = session)
      (fun _ after => after = session) := by
  apply (requireCurl_meets session).bindWith
  · intro _ after hafter
    exact hafter.1
  · intro _ after hafter
    exact hafter.1

theorem curlCheck_meets (command : Command) (fails : Bool) (session : Session) :
    Meets (curlCheck command fails) session (fun _ after => after = session)
      (fun _ after => after = session) := by
  cases fails with
  | false => rfl
  | true =>
      apply (errorView_meets session).bind
      rintro _ after rfl
      rfl

theorem setAll_meets (environment : Environment) (settings : List (Setting Opt.Value))
    (session : Session) :
    Meets (setAll environment settings) session
      (fun _ after => after = session.assign settings)
      (fun _ after => ∃ done, done <+: settings ∧ after = session.assign done) := by
  induction settings generalizing session with
  | nil => exact (assign_nil session).symm
  | cons setting rest ih =>
      have hone : Meets (setopt environment setting) session
          (fun _ after => after = session.assign [setting])
          (fun _ after => ∃ done, done <+: setting :: rest ∧ after = session.assign done) := by
        apply (curlCheck_meets _ _ session).bindWith
        · rintro _ after rfl
          rfl
        · rintro _ after rfl
          exact ⟨[], List.nil_prefix, (assign_nil _).symm⟩
      apply hone.bind
      rintro _ after rfl
      apply (ih (session.assign [setting])).mono
      · rintro _ after rfl
        exact assign_assign session [setting] rest
      · rintro _ after ⟨done, hdone, rfl⟩
        exact ⟨setting :: done, List.cons_prefix_cons.2 ⟨rfl, hdone⟩,
          assign_assign session [setting] done⟩

/-! ## Construction -/

theorem constructSettings_errorBuffer (handle : Handle) (id : ℕ) (verbose : Bool) :
    assignAll handle (constructSettings id verbose) .errorBuffer = some id := by
  have hnodup : (keys (constructSettings id verbose)).Nodup := by
    cases verbose <;> simp [constructSettings, keys]
  exact assignAll_of_mem hnodup (by simp [constructSettings])

/-- A constructed client has a handle that writes errors to the client's buffer. -/
theorem construct_meets (environment : Environment) (verbose : Bool) (before : Session) :
    Meets (construct environment verbose) before
      (fun _ after => (∃ handle, handle .errorBuffer = some before.this.id ∧
          after.this = { before.this with curl := some handle }) ∧
        after.memory.lists = before.memory.lists)
      (fun _ after => after.memory.lists = before.memory.lists) := by
  rw [construct, meets_bind_modify, meets_bind_read]
  cases environment.initFails with
  | true => rfl
  | false =>
      simp only [Bool.false_eq_true, if_false, Option.isNone_some, meets_bind_read]
      apply (setAll_meets _ _ _).mono
      · intro _ after hafter
        rw [hafter]
        exact ⟨⟨_, constructSettings_errorBuffer _ _ verbose, rfl⟩, rfl⟩
      · intro _ after hthrown
        obtain ⟨done, _, hafter⟩ := hthrown
        rw [hafter]
        rfl

/-! ## Requests -/

/-- Nothing changed but options of the handle and texts in error buffers. -/
structure Quiet (before : Session) (done : List (Setting Opt.Value)) (after : Session) :
    Prop where
  this_eq : after.this = (before.assign done).this
  lists_eq : after.memory.lists = before.memory.lists
  performed_eq : after.performed = before.performed

theorem Quiet.assign (hquiet : Quiet before done after)
    (settings : List (Setting Opt.Value)) :
    Quiet before (done ++ settings) (after.assign settings) where
  this_eq := by
    rw [← assign_assign, Session.assign, hquiet.this_eq]
    rfl
  lists_eq := hquiet.lists_eq
  performed_eq := hquiet.performed_eq

/-- Everything that a request sets. -/
def requestSettings (client : Client) (keepcnt : Bool) (url : Bytes) (timeout : ℤ)
    (verify : Bool) (payload : Payload) : List (Setting Opt.Value) :=
  commonSettings client keepcnt url timeout verify ++
    (payloadSettings payload ++ dataSettings client)

/-- No option is set twice, and the error buffer is left alone. -/
theorem requestSettings_keys (client : Client) (keepcnt : Bool) (url : Bytes) (timeout : ℤ)
    (verify : Bool) (payload : Payload) :
    (keys (requestSettings client keepcnt url timeout verify payload)).Nodup ∧
      .errorBuffer ∉ keys (requestSettings client keepcnt url timeout verify payload) := by
  rw [requestSettings, commonSettings]
  by_cases htimeout : 0 < timeout <;> cases keepcnt <;> cases client.headers <;>
    cases payload <;> simp [htimeout, keys, payloadSettings, dataSettings]

/-- The options that some requests do not set. -/
theorem requestSettings_conditional (client : Client) (keepcnt : Bool) (url : Bytes)
    (timeout : ℤ) (verify : Bool) (payload : Payload) :
    let set := keys (requestSettings client keepcnt url timeout verify payload)
    (¬ 0 < timeout → .connectTimeoutMs ∉ set ∧ .timeoutMs ∉ set) ∧
      (client.headers = none → .httpHeader ∉ set) := by
  rw [requestSettings, commonSettings]
  constructor
  · intro htimeout
    cases keepcnt <;> cases client.headers <;> cases payload <;>
      simp [htimeout, keys, payloadSettings, dataSettings]
  · intro hheaders
    by_cases htimeout : 0 < timeout <;> cases keepcnt <;> cases payload <;>
      simp [hheaders, htimeout, keys, payloadSettings, dataSettings]

theorem common_meets (environment : Environment) (url : Option Bytes) (timeout : ℤ)
    (verify : Bool) (before : Session) :
    Meets (common environment url timeout verify) before
      (fun _ after => ∃ text, url = some text ∧ before.this.curl.isSome ∧
        Quiet before (commonSettings before.this environment.keepcnt text timeout verify) after)
      (fun _ after => ∃ text done,
        done <+: commonSettings before.this environment.keepcnt text timeout verify ∧
          Quiet before done after) := by
  have hsame : Quiet before [] before := ⟨by simp, rfl, rfl⟩
  apply (requireCurl_meets before).bindWith
  · intro _ after hafter
    rw [hafter.1]
    cases url with
    | none => exact ⟨[], [], List.nil_prefix, hsame⟩
    | some text =>
        simp only [meets_bind_modify, meets_bind_read]
        have hwritten : Quiet before []
            { before with memory := before.memory.write before.this.id [] } :=
          ⟨by simp, rfl, rfl⟩
        apply (setAll_meets _ _ _).mono
        · intro _ final hfinal
          rw [hfinal]
          exact ⟨text, rfl, hafter.2, hwritten.assign _⟩
        · intro _ final hthrown
          obtain ⟨done, hdone, hfinal⟩ := hthrown
          rw [hfinal]
          exact ⟨text, done, hdone, hwritten.assign done⟩
  · intro _ after hafter
    rw [hafter.1]
    exact ⟨[], [], List.nil_prefix, hsame⟩

theorem writeError_unchanged (session : Session) (text : Bytes) :
    (session.writeError text).this = session.this ∧
      (session.writeError text).memory.lists = session.memory.lists ∧
      (session.writeError text).performed = session.performed := by
  rw [Session.writeError]
  cases session.this.curl.bind (· .errorBuffer) with
  | none => exact ⟨rfl, rfl, rfl⟩
  | some buffer => exact ⟨rfl, rfl, rfl⟩

/-- Curl was called once, for what the options say. -/
def Performed (before after : Session) : Prop :=
  after.this = before.this ∧ after.memory.lists = before.memory.lists ∧
    after.performed =
      before.performed ++ (before.this.curl.map (inForce before.memory.lists)).toList

theorem perform_meets (environment : Environment) (before : Session) :
    Meets (perform environment) before (fun _ => Performed before)
      (fun _ => Performed before) := by
  have hwritten : ∀ text, Performed before
      ({ before with performed := before.performed ++
        (before.this.curl.map (inForce before.memory.lists)).toList }.writeError text) := by
    intro text
    exact writeError_unchanged _ text
  rw [perform, meets_bind_modify]
  cases environment.transfer with
  | error text =>
      simp only [meets_bind_modify]
      apply (errorView_meets _).bindWith
      · intro _ after hafter
        rw [hafter]
        exact hwritten text
      · intro _ after hafter
        rw [hafter]
        exact hwritten text
  | ok response =>
      simp only [meets_bind_modify]
      apply (curlCheck_meets _ _ _).bindWith
      · intro _ after hafter
        rw [hafter]
        exact hwritten []
      · intro _ after hafter
        rw [hafter]
        exact hwritten []

/-- A request sets options, and calls curl when it has set them all. -/
structure RequestEffect (before : Session) (keepcnt : Bool) (url : Option Bytes)
    (timeout : ℤ) (verify : Bool) (payload : Payload) (after : Session) : Prop where
  this_eq : ∃ done, after.this = (before.assign done).this ∧ .errorBuffer ∉ keys done
  lists_eq : after.memory.lists = before.memory.lists
  performed : after.performed = before.performed ∨
    ∃ text handle, url = some text ∧ before.this.curl = some handle ∧
      after.performed = before.performed ++ [inForce before.memory.lists
        (assignAll handle (requestSettings before.this keepcnt text timeout verify payload))]

section RequestProofs

variable {keepcnt : Bool} {url : Option Bytes} {timeout : ℤ} {verify : Bool}
  {payload : Payload}

theorem requestEffect_of_quiet {text : Bytes} (hquiet : Quiet before done after)
    (hdone : done <+: requestSettings before.this keepcnt text timeout verify payload) :
    RequestEffect before keepcnt url timeout verify payload after where
  this_eq := by
    refine ⟨done, hquiet.this_eq, ?_⟩
    intro hmem
    exact (requestSettings_keys _ _ _ _ _ _).2 ((hdone.map Sigma.fst).subset hmem)
  lists_eq := hquiet.lists_eq
  performed := Or.inl hquiet.performed_eq

theorem requestEffect_of_performed {text : Bytes} {ready : Session} (hurl : url = some text)
    (hcurl : before.this.curl.isSome)
    (hquiet : Quiet before (requestSettings before.this keepcnt text timeout verify payload)
      ready)
    (hperformed : Performed ready after) :
    RequestEffect before keepcnt url timeout verify payload after where
  this_eq := ⟨_, hperformed.1.trans hquiet.this_eq, (requestSettings_keys _ _ _ _ _ _).2⟩
  lists_eq := hperformed.2.1.trans hquiet.lists_eq
  performed := by
    obtain ⟨handle, hhandle⟩ := Option.isSome_iff_exists.1 hcurl
    refine Or.inr ⟨text, handle, hurl, hhandle, ?_⟩
    rw [hperformed.2.2, hquiet.performed_eq, hquiet.lists_eq, hquiet.this_eq]
    simp [Session.assign, hhandle]

theorem request_meets (environment : Environment) (url : Option Bytes) (timeout : ℤ)
    (verify : Bool) (payload : Payload) (before : Session) :
    Meets (request environment url timeout verify payload) before
      (fun _ => RequestEffect before environment.keepcnt url timeout verify payload)
      (fun _ => RequestEffect before environment.keepcnt url timeout verify payload) := by
  apply (common_meets environment url timeout verify before).bindWith
  · intro _ common hcommon
    obtain ⟨text, hurl, hcurl, hquiet⟩ := hcommon
    have hdata : dataSettings common.this = dataSettings before.this := by
      rw [hquiet.this_eq]
      rfl
    rw [meets_bind_read, hdata]
    apply (setAll_meets _ _ _).bindWith
    · intro _ ready hready
      apply (perform_meets environment ready).weaken
      intro after hafter
      exact requestEffect_of_performed hurl hcurl (hready ▸ hquiet.assign _) hafter
    · intro _ after hthrown
      obtain ⟨done, hdone, hafter⟩ := hthrown
      exact requestEffect_of_quiet (hafter ▸ hquiet.assign done)
        ((List.prefix_append_right_inj _).2 hdone)
  · intro _ after hthrown
    obtain ⟨text, done, hdone, hquiet⟩ := hthrown
    exact requestEffect_of_quiet hquiet (hdone.trans (List.prefix_append _ _))

end RequestProofs

/-! ## Calls -/

/-- The header list of a client is allocated. -/
def Alive (session : Session) : Prop :=
  ∀ address, session.this.headers = some address → session.memory.lists address ≠ none

/-- The arguments of a request. -/
structure Arguments where
  url : Option Bytes
  timeout : ℤ
  verify : Bool
  payload : Payload

def arguments : Call → Option Arguments
  | .get url timeout verify => some ⟨url, timeout, verify, .get⟩
  | .post url data timeout verify => some ⟨url, timeout, verify, .post data⟩
  | _ => none

/-- The request that a call makes, for the options that its client has set. -/
def Asks (before : Session) (keepcnt : Bool) (call : Call) (request : Request) : Prop :=
  ∃ args text handle, arguments call = some args ∧ args.url = some text ∧
    before.this.curl = some handle ∧
    request = inForce before.memory.lists (assignAll handle
      (requestSettings before.this keepcnt text args.timeout args.verify args.payload))

/-- What can be seen of a call: it frees and changes no list but that of its
client, it leaves the error buffer of the handle in place, and curl is called at
most once. -/
structure CallEffect (before : Session) (keepcnt : Bool) (call : Call) (after : Session) :
    Prop where
  id_eq : after.this.id = before.this.id
  alive : Alive before → Alive after
  frame : ∀ address, before.this.headers ≠ some address →
    before.memory.lists address ≠ none →
      after.memory.lists address = before.memory.lists address ∧
        after.this.headers ≠ some address
  buffer_eq : call ≠ .reset →
    after.this.curl.map (· .errorBuffer) = before.this.curl.map (· .errorBuffer)
  performed : after.performed = before.performed ∨
    ∃ request, after.performed = before.performed ++ [request] ∧
      Asks before keepcnt call request

theorem callEffect_of_request {call : Call} {keepcnt : Bool} {args : Arguments}
    (hcall : arguments call = some args)
    (heffect : RequestEffect before keepcnt args.url args.timeout args.verify args.payload
      after) :
    CallEffect before keepcnt call after := by
  obtain ⟨done, hthis, hdone⟩ := heffect.this_eq
  have hheaders : after.this.headers = before.this.headers := by
    rw [hthis]
    rfl
  refine ⟨by rw [hthis]; rfl, ?_, ?_, ?_, ?_⟩
  · intro halive address haddress
    rw [heffect.lists_eq]
    exact halive address (hheaders ▸ haddress)
  · intro address hother _
    exact ⟨by rw [heffect.lists_eq], hheaders ▸ hother⟩
  · intro _
    rw [hthis, Session.assign, Option.map_map]
    congr 1
    funext handle
    exact assignAll_of_notMem hdone
  · apply heffect.performed.imp_right
    intro hasked
    obtain ⟨text, handle, hurl, hcurl, hperformed⟩ := hasked
    exact ⟨_, hperformed, args, text, handle, hcall, hurl, hcurl, rfl⟩

section CallProofs

variable {keepcnt : Bool} {call : Call}

/-- A call that changes neither the handle nor the headers. -/
theorem callEffect_of_settings (hid : after.this.id = before.this.id)
    (hcurl : after.this.curl = before.this.curl)
    (hheaders : after.this.headers = before.this.headers)
    (hmemory : after.memory = before.memory)
    (hperformed : after.performed = before.performed) :
    CallEffect before keepcnt call after where
  id_eq := hid
  alive := by
    intro halive address haddress
    rw [hmemory]
    exact halive address (hheaders ▸ haddress)
  frame := by
    intro address hother _
    exact ⟨by rw [hmemory], hheaders ▸ hother⟩
  buffer_eq _ := by rw [hcurl]
  performed := Or.inl hperformed

theorem callEffect_refl (session : Session) : CallEffect session keepcnt call session :=
  callEffect_of_settings rfl rfl rfl rfl rfl

/-- The calls that only start with the check of the handle. -/
theorem requireCurl_bind {Value : Type} {rest : Unit → ClientProgram Value}
    (hrest : Meets (rest ()) before (fun _ => CallEffect before keepcnt call)
      (fun _ => CallEffect before keepcnt call)) :
    Meets (requireCurl >>= rest) before (fun _ => CallEffect before keepcnt call)
      (fun _ => CallEffect before keepcnt call) := by
  apply (requireCurl_meets before).bindWith
  · intro _ after hafter
    rw [hafter.1]
    exact hrest
  · intro _ after hafter
    rw [hafter.1]
    exact callEffect_refl before

theorem slistAppend_spec {memory : Memory} {list : Option ℕ} {node : ℕ} (text : Bytes)
    (hnode : memory.lists node = none)
    (halive : ∀ address, list = some address → memory.lists address ≠ none) :
    ∃ chunk extended, memory.slistAppend list node text = some (chunk, extended) ∧
      extended.lists chunk ≠ none ∧
      ∀ address, list ≠ some address → memory.lists address ≠ none →
        extended.lists address = memory.lists address ∧ chunk ≠ address := by
  cases list with
  | none =>
      refine ⟨node, _, rfl, by simp, ?_⟩
      intro address _ hused
      have hne : address ≠ node := fun heq => hused (heq ▸ hnode)
      exact ⟨Function.update_of_ne hne .., hne.symm⟩
  | some own =>
      obtain ⟨headers, hlist⟩ := Option.ne_none_iff_exists'.1 (halive own rfl)
      refine ⟨own, _, by rw [Memory.slistAppend, hlist]; rfl, by simp, ?_⟩
      intro address hother _
      have hne : address ≠ own := fun heq => hother (heq ▸ rfl)
      exact ⟨Function.update_of_ne hne .., hne.symm⟩

theorem addHeader_meets (environment : Environment) (header : Option Bytes)
    (hnode : environment.Allocates before.memory) (halive : Alive before) :
    Meets (addHeader environment header) before
      (fun _ => CallEffect before keepcnt (.addHeader header))
      (fun _ => CallEffect before keepcnt (.addHeader header)) := by
  apply requireCurl_bind
  cases header with
  | none => exact callEffect_refl before
  | some header =>
      cases hchoice : environment.node with
      | none => exact callEffect_refl before
      | some node =>
          obtain ⟨chunk, extended, happend, hchunk, hframe⟩ :=
            slistAppend_spec header (hnode node hchoice) halive
          have heffect : CallEffect before keepcnt (.addHeader (some header))
              { before with
                this := { before.this with headers := some chunk }, memory := extended } := by
            refine ⟨rfl, ?_, ?_, fun _ => rfl, Or.inl rfl⟩
            · intro _ address haddress
              exact Option.some_inj.1 haddress ▸ hchunk
            · intro address hother hused
              refine ⟨(hframe address hother hused).1, ?_⟩
              intro heq
              exact (hframe address hother hused).2 (Option.some_inj.1 heq)
          exact meets_update (by rw [happend]; rfl) heffect

theorem freeList_frame {memory : Memory} {list : Option ℕ} {address : ℕ}
    (hother : list ≠ some address) :
    (memory.freeList list).lists address = memory.lists address := by
  cases list with
  | none => rfl
  | some own =>
      have hne : address ≠ own := fun heq => hother (heq ▸ rfl)
      exact Function.update_of_ne hne ..

theorem resetHdrs_meets (before : Session) :
    Meets resetHdrs before (fun _ => CallEffect before keepcnt .resetHdrs)
      (fun _ => CallEffect before keepcnt .resetHdrs) := by
  refine ⟨rfl, ?_, ?_, fun _ => rfl, Or.inl rfl⟩
  · intro _ address haddress
    exact absurd haddress (by simp)
  · intro address hother _
    exact ⟨freeList_frame hother, by simp⟩

theorem reset_meets (before : Session) :
    Meets reset before (fun _ => CallEffect before keepcnt .reset)
      (fun _ => CallEffect before keepcnt .reset) := by
  apply requireCurl_bind
  refine ⟨rfl, ?_, ?_, ?_, Or.inl rfl⟩
  · intro halive
    exact halive
  · intro address hother _
    exact ⟨rfl, hother⟩
  · intro hreset
    exact absurd rfl hreset

/-- `reset` leaves no option set. -/
theorem reset_curl {final : Session} (hends : (reset before).EndsIn final) :
    final.this.curl = before.this.curl.map fun _ => OptionMap.empty := by
  have hmeets : Meets reset before
      (fun _ after => after.this.curl = before.this.curl.map fun _ => OptionMap.empty)
      (fun _ after => after.this.curl = before.this.curl.map fun _ => OptionMap.empty) := by
    apply (requireCurl_meets before).bindWith
    · intro _ after hafter
      rw [hafter.1]
      rfl
    · intro _ after hafter
      rw [hafter.1, hafter.2]
      rfl
  exact hmeets.endsIn hends

theorem minimumBandwidth_meets (checkPeriod : ℤ) (bandwidth : ℕ) (before : Session) :
    Meets (minimumBandwidth checkPeriod bandwidth) before
      (fun _ => CallEffect before keepcnt call) (fun _ => CallEffect before keepcnt call) := by
  apply requireCurl_bind
  by_cases hnegative : checkPeriod < 0
  · rw [if_pos hnegative]
    exact callEffect_refl before
  rw [if_neg hnegative]
  by_cases hoff : checkPeriod = 0 ∨ bandwidth = 0
  · rw [if_pos hoff]
    exact callEffect_of_settings rfl rfl rfl rfl rfl
  · rw [if_neg hoff]
    exact callEffect_of_settings rfl rfl rfl rfl rfl

/-- Every call of every client. -/
theorem call_meets (environment : Environment) (call : Call)
    (hnode : environment.Allocates before.memory) (halive : Alive before) :
    Meets (call.run environment) before
      (fun _ => CallEffect before environment.keepcnt call)
      (fun _ => CallEffect before environment.keepcnt call) := by
  cases call with
  | addHeader header => exact (addHeader_meets environment header hnode halive).discard
  | resetHdrs => exact resetHdrs_meets before
  | reset => exact reset_meets before
  | setHdrCb cb =>
      apply Meets.discard
      apply requireCurl_bind
      exact callEffect_of_settings rfl rfl rfl rfl rfl
  | minimumBandwidth checkPeriod bandwidth =>
      exact minimumBandwidth_meets checkPeriod bandwidth before
  | get url timeout verify =>
      have hrequest := request_meets environment url timeout verify .get before
      exact (hrequest.weaken fun _ heffect => callEffect_of_request rfl heffect).discard
  | post url data timeout verify =>
      have hrequest := request_meets environment url timeout verify (.post data) before
      exact (hrequest.weaken fun _ heffect => callEffect_of_request rfl heffect).discard

end CallProofs

end Nstl.HttpEffects
