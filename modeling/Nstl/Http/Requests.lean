import Nstl.Core.Transition
import Nstl.Http.Effects

/-!
# What a request depends on

A request should be determined by the arguments of the call and by the fields of
the client.  The options of the handle persist, though, and two groups of them are
set only sometimes: the timeouts if the timeout is positive, and the header list if
there is one.  An option that was set by an earlier request and is not set again
stays in force.
-/

namespace Nstl.HttpRequests

open Nstl.ByteString
open Nstl.Http
open Nstl.HttpEffects
open Nstl.OptionMap
open Nstl.Programs
open Nstl.Transition

/-! ## The request that was meant -/

/-- The settings of a client that its users know of. -/
structure Fields where
  headers : Option (List Bytes)
  lineCb : Option ℕ
  bwPeriod : ℤ
  bwSpeed : ℤ
  deriving DecidableEq, Repr

def fields (session : Session) : Fields where
  headers := session.this.headers.bind session.memory.lists
  lineCb := session.this.lineCb
  bwPeriod := session.this.bwPeriod
  bwSpeed := session.this.bwSpeed

def methodOf : Payload → Method
  | .get => .get
  | .post _ => .post

def bodyOf : Payload → Option (Option ℤ × Option (Option Bytes))
  | .get => none
  | .post data => some (some data.length, some (if data = [] then none else some data))

/-- A request as a function of the fields and the arguments. -/
def intended (fields : Fields) (text : Bytes) (args : Arguments) : Request where
  connectTimeout := if 0 < args.timeout then some args.timeout else none
  timeout := if 0 < args.timeout then some args.timeout else none
  lowSpeedTime := some fields.bwPeriod
  lowSpeedLimit := some fields.bwSpeed
  url := some text
  headers :=
    match fields.headers with
    | some headers => .list headers
    | none => .absent
  verifyPeer := some (if args.verify then 1 else 0)
  method := some (methodOf args.payload)
  body := bodyOf args.payload

def intendedRequest (fields : Fields) (call : Call) : Option Request :=
  (arguments call).bind fun args => args.url.map fun text => intended fields text args

/-- An option that the call leaves alone is not set. -/
def Untainted (session : Session) (call : Call) : Prop :=
  ∀ handle args, session.this.curl = some handle → arguments call = some args →
    (args.timeout ≤ 0 → handle .connectTimeoutMs = none ∧ handle .timeoutMs = none) ∧
      (session.this.headers = none → handle .httpHeader = none)

/-! ## The request that is made -/

section InForce

variable (client : Client) (keepcnt : Bool) (lists : ℕ → Option (List Bytes))
  (handle : Handle) (text : Bytes) (args : Arguments)

/-- The handle when all settings of a request are made. -/
def ready : Handle :=
  assignAll handle
    (requestSettings client keepcnt text args.timeout args.verify args.payload)

variable {client keepcnt handle text args}

theorem ready_of_mem {opt : Opt} {value : opt.Value}
    (hsetting : ⟨opt, value⟩ ∈
      requestSettings client keepcnt text args.timeout args.verify args.payload) :
    ready client keepcnt handle text args opt = some value :=
  assignAll_of_mem (requestSettings_keys _ _ _ _ _ _).1 hsetting

variable (client keepcnt handle text args)

theorem ready_timeouts :
    ready client keepcnt handle text args .connectTimeoutMs =
        (if 0 < args.timeout then some args.timeout else handle .connectTimeoutMs) ∧
      ready client keepcnt handle text args .timeoutMs =
        if 0 < args.timeout then some args.timeout else handle .timeoutMs := by
  by_cases hpositive : 0 < args.timeout
  · simp only [if_pos hpositive]
    exact ⟨ready_of_mem (by simp [requestSettings, commonSettings, hpositive]),
      ready_of_mem (by simp [requestSettings, commonSettings, hpositive])⟩
  · simp only [if_neg hpositive]
    have hunset := (requestSettings_conditional client keepcnt text args.timeout args.verify
      args.payload).1 hpositive
    exact ⟨assignAll_of_notMem hunset.1, assignAll_of_notMem hunset.2⟩

theorem ready_headers :
    ready client keepcnt handle text args .httpHeader =
      client.headers.or (handle .httpHeader) := by
  cases hclient : client.headers with
  | some address => exact ready_of_mem (by simp [requestSettings, commonSettings, hclient])
  | none =>
      apply assignAll_of_notMem
      exact (requestSettings_conditional client keepcnt text args.timeout args.verify
        args.payload).2 hclient

theorem ready_body :
    (inForce lists (ready client keepcnt handle text args)).body = bodyOf args.payload := by
  rw [inForce]
  cases hpayload : args.payload with
  | get =>
      have hmethod : ready client keepcnt handle text args .method = some .get :=
        ready_of_mem (by simp [requestSettings, payloadSettings, hpayload])
      rw [hmethod]
      rfl
  | post data =>
      have hmethod : ready client keepcnt handle text args .method = some .post :=
        ready_of_mem (by simp [requestSettings, payloadSettings, hpayload])
      have hsize : ready client keepcnt handle text args .postFieldSize =
          some (data.length : ℤ) :=
        ready_of_mem (by simp [requestSettings, payloadSettings, hpayload])
      have hdata : ready client keepcnt handle text args .postFields =
          some (if data = [] then none else some data) :=
        ready_of_mem (by simp [requestSettings, payloadSettings, hpayload])
      rw [hmethod, hsize, hdata]
      rfl

/-- The options in force after all settings of a request. -/
theorem inForce_ready :
    inForce lists (ready client keepcnt handle text args) =
      { connectTimeout :=
          if 0 < args.timeout then some args.timeout else handle .connectTimeoutMs
        timeout := if 0 < args.timeout then some args.timeout else handle .timeoutMs
        lowSpeedTime := some client.bwPeriod
        lowSpeedLimit := some client.bwSpeed
        url := some text
        headers :=
          match client.headers.or (handle .httpHeader) with
          | some address => headersAt lists address
          | none => .absent
        verifyPeer := some (if args.verify then 1 else 0)
        method := some (methodOf args.payload)
        body := bodyOf args.payload } := by
  have htime : ready client keepcnt handle text args .lowSpeedTime = some client.bwPeriod :=
    ready_of_mem (by simp [requestSettings, commonSettings])
  have hlimit : ready client keepcnt handle text args .lowSpeedLimit = some client.bwSpeed :=
    ready_of_mem (by simp [requestSettings, commonSettings])
  have hurl : ready client keepcnt handle text args .url = some text :=
    ready_of_mem (by simp [requestSettings, commonSettings])
  have hverify : ready client keepcnt handle text args .sslVerifypeer =
      some (if args.verify then (1 : ℤ) else 0) :=
    ready_of_mem (by simp [requestSettings, commonSettings])
  have hmethod : ready client keepcnt handle text args .method =
      some (methodOf args.payload) := by
    apply ready_of_mem
    cases args.payload with
    | get => simp [requestSettings, payloadSettings, methodOf]
    | post data => simp [requestSettings, payloadSettings, methodOf]
  have hbody := ready_body client keepcnt lists handle text args
  simp only [inForce] at hbody ⊢
  rw [hbody, (ready_timeouts client keepcnt handle text args).1,
    (ready_timeouts client keepcnt handle text args).2, ready_headers, htime, hlimit, hurl,
    hverify, hmethod]
  rfl

end InForce

/-- A timeout that is not set leaves the one of before. -/
theorem timeout_eq_iff {timeout : ℤ} {old : Option ℤ} :
    (if 0 < timeout then some timeout else none) =
      (if 0 < timeout then some timeout else old) ↔ (timeout ≤ 0 → old = none) := by
  by_cases hpositive : 0 < timeout
  · simp [hpositive, Int.not_le.2 hpositive]
  · simp only [hpositive, if_false, Int.not_lt.1 hpositive, true_implies]
    exact eq_comm

/-- The list in force is that of the client, unless there is none and an earlier
one is still set. -/
theorem headers_eq_iff {session : Session} (halive : Alive session) (stored : Option ℕ) :
    (match (fields session).headers with
      | some headers => HeadersInForce.list headers
      | none => .absent) =
      (match session.this.headers.or stored with
        | some address => headersAt session.memory.lists address
        | none => .absent) ↔ (session.this.headers = none → stored = none) := by
  cases hheaders : session.this.headers with
  | some address =>
      obtain ⟨headers, hlist⟩ := Option.ne_none_iff_exists'.1 (halive address hheaders)
      simp [fields, hheaders, hlist, headersAt]
  | none =>
      cases stored with
      | none => simp [fields, hheaders]
      | some address =>
          cases hlist : session.memory.lists address with
          | none => simp [fields, hheaders, headersAt, hlist]
          | some headers => simp [fields, hheaders, headersAt, hlist]

theorem asks_intended_iff {before : Session} {keepcnt : Bool} {call : Call}
    {request : Request} (halive : Alive before) (hasks : Asks before keepcnt call request) :
    intendedRequest (fields before) call = some request ↔ Untainted before call := by
  obtain ⟨args, text, handle, hcall, hurl, hcurl, hrequest⟩ := hasks
  have huntainted : Untainted before call ↔
      (args.timeout ≤ 0 → handle .connectTimeoutMs = none ∧ handle .timeoutMs = none) ∧
        (before.this.headers = none → handle .httpHeader = none) := by
    constructor
    · intro huntainted
      exact huntainted handle args hcurl hcall
    · intro hhandle handle' args' hcurl' hcall'
      obtain rfl : handle = handle' := Option.some_inj.1 (hcurl.symm.trans hcurl')
      obtain rfl : args = args' := Option.some_inj.1 (hcall.symm.trans hcall')
      exact hhandle
  rw [huntainted, hrequest, ← ready, inForce_ready, intendedRequest, hcall, Option.bind_some,
    hurl, Option.map_some, Option.some_inj, intended, Request.mk.injEq, timeout_eq_iff,
    timeout_eq_iff, headers_eq_iff halive]
  simp only [fields, and_true, true_and]
  constructor
  · intro hsame
    exact ⟨fun hpositive => ⟨hsame.1 hpositive, hsame.2.1 hpositive⟩, hsame.2.2⟩
  · intro hunset
    exact ⟨fun hpositive => (hunset.1 hpositive).1, fun hpositive => (hunset.1 hpositive).2,
      hunset.2⟩

/-! ## Histories of one client -/

/-- A client whose constructor has returned. -/
def Constructed (session : Session) : Prop :=
  ∃ environment verbose id,
    construct environment verbose ⟨Client.blank id, ⟨fun _ => none, fun _ => none⟩, []⟩ =
      .value () session

/-- One call, with what happens outside of the client during it. -/
def Step (before : Session) (label : Call × Environment) (after : Session) : Prop :=
  label.2.Allocates before.memory ∧ (label.1.run label.2 before).EndsIn after

theorem alive_of_constructed {session : Session} (hconstructed : Constructed session) :
    Alive session := by
  obtain ⟨environment, verbose, id, houtcome⟩ := hconstructed
  have hmeets := construct_meets environment verbose
    ⟨Client.blank id, ⟨fun _ => none, fun _ => none⟩, []⟩
  rw [Meets, houtcome] at hmeets
  obtain ⟨⟨handle, _, hthis⟩, _⟩ := hmeets
  intro address haddress
  rw [hthis] at haddress
  exact absurd haddress (by simp [Client.blank])

theorem alive_of_run {start session : Session} {history : List (Call × Environment)}
    (hstart : Constructed start) (run : Run Step start history session) : Alive session :=
  run.invariant Alive (alive_of_constructed hstart) fun _ _ _ halive hstep =>
    ((call_meets _ _ hstep.1 halive).endsIn hstep.2).alive halive

theorem asks_of_step {before after : Session} {call : Call} {environment : Environment}
    {request : Request} (halive : Alive before)
    (hstep : Step before (call, environment) after)
    (hperformed : after.performed = before.performed ++ [request]) :
    Asks before environment.keepcnt call request := by
  have heffect := (call_meets environment call hstep.1 halive).endsIn hstep.2
  rcases heffect.performed with hnone | ⟨made, hmade, hasks⟩
  · rw [hnone] at hperformed
    exact absurd hperformed (by simp)
  · rw [hmade, List.append_right_inj, List.singleton_inj] at hperformed
    exact hperformed ▸ hasks

/-- Two histories of a client, or of two clients, end in the same fields, and the
same call follows.  The request is the intended one exactly when the options that
the call does not set are not set from before, and then both histories lead to the
same request. -/
theorem request_independent_of_history {start start' before before' after after' : Session}
    {history history' : List (Call × Environment)} {call : Call}
    {environment environment' : Environment} {request request' : Request}
    (hstart : Constructed start) (run : Run Step start history before)
    (hstep : Step before (call, environment) after)
    (hperformed : after.performed = before.performed ++ [request])
    (hstart' : Constructed start') (run' : Run Step start' history' before')
    (hstep' : Step before' (call, environment') after')
    (hperformed' : after'.performed = before'.performed ++ [request'])
    (hfields : fields before = fields before') :
    (intendedRequest (fields before) call = some request ↔ Untainted before call) ∧
      (Untainted before call → Untainted before' call → request = request') := by
  have halive := alive_of_run hstart run
  have halive' := alive_of_run hstart' run'
  have hintended := asks_intended_iff halive (asks_of_step halive hstep hperformed)
  have hintended' := asks_intended_iff halive' (asks_of_step halive' hstep' hperformed')
  refine ⟨hintended, ?_⟩
  intro huntainted huntainted'
  apply Option.some_inj.1
  calc some request = intendedRequest (fields before) call := (hintended.2 huntainted).symm
    _ = intendedRequest (fields before') call := by rw [hfields]
    _ = some request' := hintended'.2 huntainted'

/-- Everything succeeds, and the server answers with an empty page. -/
def server (node : Option ℕ) : Environment :=
  ⟨false, fun _ => false, true, node, .ok ⟨200, []⟩, false⟩

/-- A client right after its construction. -/
def started : Session where
  this := { Client.blank 0 with curl := some (assignAll empty (constructSettings 0 false)) }
  memory := ⟨fun _ => none, Function.update (fun _ => none) 0 (some [])⟩
  performed := []

theorem constructed_started : Constructed started := ⟨server none, false, 0, rfl⟩

/-- The same client after a header list that was freed again. -/
def dropped : Session :=
  { started with memory := { started.memory with
    lists := Function.update (Function.update (fun _ => none) 64 (some [[120]])) 64 none } }

theorem allocates_none (memory : Memory) : (server none).Allocates memory := by
  intro node hnode
  exact absurd hnode (by simp [server])

theorem run_dropped :
    Run Step started
      [(.addHeader (some [120]), server (some 64)), (.resetHdrs, server none)] dropped := by
  have added : Run Step started [(.addHeader (some [120]), server (some 64))] _ :=
    Run.nil.snoc ⟨fun _ _ => rfl, Eq.refl _⟩
  exact added.snoc ⟨allocates_none _, Eq.refl _⟩

/-- Headers that were dropped before the first request leave no trace. -/
theorem request_independent_of_history_example :
    ∃ after request, Step dropped (.get (some [104]) 1000 true, server none) after ∧
      after.performed = [request] ∧
      intendedRequest (fields dropped) (.get (some [104]) 1000 true) = some request := by
  have hstep : Step dropped (.get (some [104]) 1000 true, server none) _ :=
    ⟨allocates_none _, Eq.refl _⟩
  have hstep' : Step started (.get (some [104]) 1000 true, server none) _ :=
    ⟨allocates_none _, Eq.refl _⟩
  have huntainted : Untainted dropped (.get (some [104]) 1000 true) := by
    intro handle args hcurl hcall
    obtain rfl : _ = handle := Option.some_inj.1 hcurl
    obtain rfl : _ = args := Option.some_inj.1 hcall
    exact ⟨fun hpositive => absurd hpositive (by decide), fun _ => rfl⟩
  refine ⟨_, _, hstep, rfl, ?_⟩
  exact (request_independent_of_history constructed_started run_dropped hstep rfl
    constructed_started .nil hstep' rfl rfl).1.2 huntainted

/-- A request with headers and a timeout, and one without after the headers were
freed: the freed list and the old timeout are in force, although the same call on
the client as it was constructed uses neither. -/
theorem stale_options_in_force :
    ∃ before after after' request request',
      Run Step started
        [(.addHeader (some [120]), server (some 64)),
          (.get (some [104]) 1000 true, server none), (.resetHdrs, server none)] before ∧
      fields before = fields started ∧
      Step before (.get (some [104]) 0 true, server none) after ∧
      after.performed = before.performed ++ [request] ∧
      request.headers = .freed ∧ request.timeout = some 1000 ∧
      Step started (.get (some [104]) 0 true, server none) after' ∧
      after'.performed = [request'] ∧
      request'.headers = .absent ∧ request'.timeout = none := by
  have added : Run Step started [(.addHeader (some [120]), server (some 64))] _ :=
    Run.nil.snoc ⟨fun _ _ => rfl, Eq.refl _⟩
  have asked : Run Step started
      [(.addHeader (some [120]), server (some 64)),
        (.get (some [104]) 1000 true, server none)] _ :=
    added.snoc ⟨allocates_none _, Eq.refl _⟩
  have run : Run Step started
      [(.addHeader (some [120]), server (some 64)),
        (.get (some [104]) 1000 true, server none), (.resetHdrs, server none)] _ :=
    asked.snoc ⟨allocates_none _, Eq.refl _⟩
  exact ⟨_, _, _, _, _, run, rfl, ⟨allocates_none _, Eq.refl _⟩, rfl, rfl, rfl,
    ⟨allocates_none _, Eq.refl _⟩, rfl, rfl, rfl⟩

end Nstl.HttpRequests
