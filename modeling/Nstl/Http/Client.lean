import Mathlib.Algebra.Group.Nat.Defs
import Mathlib.Data.Int.Notation
import Nstl.Core.ByteString
import Nstl.Core.OptionMap
import Nstl.Core.Program

/-!
# The HTTP client

A `Client` owns a curl handle, a list of headers, a callback and an error buffer.
The handle is a map of options that persists from request to request.  Some
options hold pointers: `CURLOPT_HTTPHEADER` to a header list, and
`CURLOPT_ERRORBUFFER` and `CURLOPT_HEADERDATA` into a `Client`.

What lies outside of the client, such as failures of curl and the answer of the
server, is an argument of every call.
-/

namespace Nstl.Http

open Nstl.ByteString
open Nstl.OptionMap
open Nstl.Programs
open Nstl.Programs.Program

/-! ## Curl -/

inductive Method where
  | get
  | post
  deriving DecidableEq, Repr

/-- The functions that curl calls back. -/
inductive Callback where
  | writeFunction
  | headerFunction
  | myTrace
  deriving DecidableEq, Repr

/-- The options of a handle that the client sets. -/
inductive Opt where
  | noSignal
  | errorBuffer
  | debugFunction
  | verbose
  | connectTimeoutMs
  | timeoutMs
  | lowSpeedTime
  | lowSpeedLimit
  | tcpKeepalive
  | tcpKeepidle
  | tcpKeepintvl
  | tcpKeepcnt
  | writeFunction
  | headerFunction
  | url
  | httpHeader
  | sslVerifypeer
  | followLocation
  | maxRedirs
  /-- `CURLOPT_HTTPGET` and `CURLOPT_POST` both store the method. -/
  | method
  | postFieldSize
  | postFields
  | writeData
  | headerData
  deriving DecidableEq, Repr

/-- The values of an option.  A `Client` is known by its number, and a header list
by its address; the text of `CURLOPT_URL` is copied by curl. -/
abbrev Opt.Value : Opt → Type
  | .errorBuffer | .headerData => ℕ
  | .debugFunction | .writeFunction | .headerFunction => Callback
  | .url => Bytes
  | .httpHeader => ℕ
  | .method => Method
  | .postFields => Option Bytes
  | .writeData => Unit
  | _ => ℤ

abbrev Handle : Type := Store Opt.Value

/-- The memory that options point to. -/
structure Memory where
  /-- The `curl_slist`s that are allocated. -/
  lists : ℕ → Option (List Bytes)
  /-- The texts in the `_error` buffers of the clients that exist. -/
  buffers : ℕ → Option Bytes

/-- What is behind `CURLOPT_HTTPHEADER`. -/
inductive HeadersInForce where
  | absent
  | list (headers : List Bytes)
  | freed
  deriving DecidableEq, Repr

/-- What curl is asked to do by the options that are in force. -/
structure Request where
  connectTimeout : Option ℤ
  timeout : Option ℤ
  lowSpeedTime : Option ℤ
  lowSpeedLimit : Option ℤ
  url : Option Bytes
  headers : HeadersInForce
  verifyPeer : Option ℤ
  method : Option Method
  /-- The size and the data of the body, which only a POST request has. -/
  body : Option (Option ℤ × Option (Option Bytes))
  deriving DecidableEq, Repr

def headersAt (lists : ℕ → Option (List Bytes)) (address : ℕ) : HeadersInForce :=
  match lists address with
  | some headers => .list headers
  | none => .freed

def inForce (lists : ℕ → Option (List Bytes)) (handle : Handle) : Request where
  connectTimeout := handle .connectTimeoutMs
  timeout := handle .timeoutMs
  lowSpeedTime := handle .lowSpeedTime
  lowSpeedLimit := handle .lowSpeedLimit
  url := handle .url
  headers :=
    match handle .httpHeader with
    | some address => headersAt lists address
    | none => .absent
  verifyPeer := handle .sslVerifypeer
  method := handle .method
  body :=
    match handle .method with
    | some .post => some (handle .postFieldSize, handle .postFields)
    | _ => none

structure Response where
  code : ℤ
  text : Bytes
  deriving DecidableEq, Repr

/-- How curl, the server and the allocator behave during one call. -/
structure Environment where
  initFails : Bool
  setoptFails : Opt → Bool
  /-- Whether libcurl knows `CURLOPT_TCP_KEEPCNT`. -/
  keepcnt : Bool
  /-- The address of a new list node, unless the allocation fails. -/
  node : Option ℕ
  /-- The answer, or the text of the error. -/
  transfer : Except Bytes Response
  getinfoFails : Bool

/-- The allocator does not give away memory that is in use. -/
def Environment.Allocates (environment : Environment) (memory : Memory) : Prop :=
  ∀ node, environment.node = some node → memory.lists node = none

/-! ## The client -/

structure Client where
  id : ℕ
  curl : Option Handle
  headers : Option ℕ
  lineCb : Option ℕ
  bwPeriod : ℤ
  bwSpeed : ℤ

/-- The member initialisers. -/
def Client.blank (id : ℕ) : Client := ⟨id, none, none, none, 10, 10000⟩

/-- The client whose method runs, and what it can reach. -/
structure Session where
  this : Client
  memory : Memory
  /-- What `curl_easy_perform` was called for. -/
  performed : List Request

inductive Command where
  | setopt (opt : Opt)
  | perform
  | getinfo
  deriving DecidableEq, Repr

inductive HttpError where
  /-- "curl pointer is nullptr: we should use instance after move" -/
  | noCurl
  /-- "curl_easy_init failed" -/
  | initFailed
  /-- "URL pointer is nullptr!" -/
  | noUrl
  /-- "header is nullptr" -/
  | noHeader
  /-- "curl_slist_append failed" -/
  | appendFailed
  /-- "Check period cannot be negative" -/
  | negativePeriod
  /-- The command that failed and the text of `error_view`. -/
  | check (command : Command) (error : Bytes)
  deriving DecidableEq, Repr

abbrev ClientProgram := Program Session HttpError

/-- `NSTL2_THROW_EXCEPTION_IF(!_curl, ...)`. -/
def requireCurl : ClientProgram Unit := do
  let curl ← read (·.this.curl)
  if curl.isNone then raise .noCurl else return ()

def errorText (session : Session) : Bytes :=
  (session.memory.buffers session.this.id).getD []

def errorView : ClientProgram Bytes := do
  requireCurl
  read errorText

/-- `NSTL_CURL_CHECK`, for a command that fails or not. -/
def curlCheck (command : Command) (fails : Bool) : ClientProgram Unit :=
  if fails then do
    let error ← errorView
    raise (.check command error)
  else return ()

def Memory.write (memory : Memory) (buffer : ℕ) (text : Bytes) : Memory :=
  { memory with
    buffers := Function.update memory.buffers buffer
      ((memory.buffers buffer).map fun _ => text) }

def Session.assign (session : Session) (settings : List (Setting Opt.Value)) : Session :=
  { session with
    this := { session.this with
      curl := session.this.curl.map fun handle => assignAll handle settings } }

/-- A checked `curl_easy_setopt`. -/
def setopt (environment : Environment) (setting : Setting Opt.Value) :
    ClientProgram Unit := do
  curlCheck (.setopt setting.1) (environment.setoptFails setting.1)
  modify fun session => session.assign [setting]

def setAll (environment : Environment) : List (Setting Opt.Value) → ClientProgram Unit
  | [] => return ()
  | setting :: rest => do
      setopt environment setting
      setAll environment rest

/-- The options that the constructor sets, in its order. -/
def constructSettings (id : ℕ) (verbose : Bool) : List (Setting Opt.Value) :=
  [⟨.noSignal, (1 : ℤ)⟩, ⟨.errorBuffer, id⟩] ++
    if verbose then [⟨.debugFunction, .myTrace⟩, ⟨.verbose, (1 : ℤ)⟩] else []

/-- The constructor, after the member initialisers. -/
def construct (environment : Environment) (verbose : Bool) : ClientProgram Unit := do
  modify fun session =>
    { session with
      this := { session.this with
        curl := if environment.initFails then none else some OptionMap.empty }
      memory := { session.memory with
        buffers := Function.update session.memory.buffers session.this.id (some []) } }
  let curl ← read (·.this.curl)
  if curl.isNone then raise .initFailed
  else do
    let id ← read (·.this.id)
    setAll environment (constructSettings id verbose)

/-- The options that `_common` sets, in its order. -/
def commonSettings (client : Client) (keepcnt : Bool) (url : Bytes) (timeout : ℤ)
    (verify : Bool) : List (Setting Opt.Value) :=
  (if 0 < timeout then [⟨.connectTimeoutMs, timeout⟩, ⟨.timeoutMs, timeout⟩] else []) ++
  [⟨.lowSpeedTime, client.bwPeriod⟩, ⟨.lowSpeedLimit, client.bwSpeed⟩,
    ⟨.tcpKeepalive, (1 : ℤ)⟩, ⟨.tcpKeepidle, (30 : ℤ)⟩, ⟨.tcpKeepintvl, (10 : ℤ)⟩] ++
  (if keepcnt then [⟨.tcpKeepcnt, (3 : ℤ)⟩] else []) ++
  [⟨.writeFunction, .writeFunction⟩, ⟨.headerFunction, .headerFunction⟩, ⟨.url, url⟩] ++
  (match client.headers with
    | some address => [⟨.httpHeader, address⟩]
    | none => []) ++
  [⟨.sslVerifypeer, if verify then (1 : ℤ) else 0⟩, ⟨.followLocation, (1 : ℤ)⟩,
    ⟨.maxRedirs, (10 : ℤ)⟩]

def common (environment : Environment) (url : Option Bytes) (timeout : ℤ) (verify : Bool) :
    ClientProgram Unit := do
  requireCurl
  match url with
  | none => raise .noUrl
  | some url => do
      modify fun session =>
        { session with memory := session.memory.write session.this.id [] }
      let client ← read (·.this)
      setAll environment (commonSettings client environment.keepcnt url timeout verify)

/-- What `get` and `post` set after `_common`. -/
inductive Payload where
  | get
  | post (data : Bytes)
  deriving DecidableEq, Repr

def payloadSettings : Payload → List (Setting Opt.Value)
  | .get => [⟨.method, .get⟩]
  | .post data =>
      [⟨.method, .post⟩, ⟨.postFieldSize, (data.length : ℤ)⟩,
        ⟨.postFields, if data = [] then none else some data⟩]

/-- The pointers to the local result and to `_cbs`. -/
def dataSettings (client : Client) : List (Setting Opt.Value) :=
  [⟨.writeData, ()⟩, ⟨.headerData, client.id⟩]

/-- Curl writes to the buffer that `CURLOPT_ERRORBUFFER` names. -/
def Session.writeError (session : Session) (text : Bytes) : Session :=
  match session.this.curl.bind (· .errorBuffer) with
  | some buffer => { session with memory := session.memory.write buffer text }
  | none => session

/-- `curl_easy_perform` and `curl_easy_getinfo`. -/
def perform (environment : Environment) : ClientProgram Response := do
  modify fun session =>
    { session with performed := session.performed ++
      (session.this.curl.map (inForce session.memory.lists)).toList }
  match environment.transfer with
  | .error text => do
      modify (·.writeError text)
      let error ← errorView
      raise (.check .perform error)
  | .ok response => do
      modify (·.writeError [])
      curlCheck .getinfo environment.getinfoFails
      return { response with code := Int.bmod response.code (2 ^ 32) }

def request (environment : Environment) (url : Option Bytes) (timeout : ℤ) (verify : Bool)
    (payload : Payload) : ClientProgram Response := do
  common environment url timeout verify
  let client ← read (·.this)
  setAll environment (payloadSettings payload ++ dataSettings client)
  perform environment

def get (environment : Environment) (url : Option Bytes) (timeout : ℤ) (verify : Bool) :
    ClientProgram Response :=
  request environment url timeout verify .get

def post (environment : Environment) (url : Option Bytes) (data : Bytes) (timeout : ℤ)
    (verify : Bool) : ClientProgram Response :=
  request environment url timeout verify (.post data)

/-- `curl_slist_append` with a node that was allocated.  A list keeps its address;
appending to one that was freed is undefined. -/
def Memory.slistAppend (memory : Memory) (list : Option ℕ) (node : ℕ) (text : Bytes) :
    Option (ℕ × Memory) :=
  match list with
  | none =>
      some (node, { memory with lists := Function.update memory.lists node (some [text]) })
  | some address =>
      (memory.lists address).map fun headers =>
        (address, { memory with
          lists := Function.update memory.lists address (some (headers ++ [text])) })

def addHeader (environment : Environment) (header : Option Bytes) : ClientProgram Bool := do
  requireCurl
  match header with
  | none => raise .noHeader
  | some header =>
      match environment.node with
      | none => raise .appendFailed
      | some node =>
          update fun session =>
            (session.memory.slistAppend session.this.headers node header).map
              fun (chunk, memory) =>
                (true, { session with
                  this := { session.this with headers := some chunk }
                  memory := memory })

/-- `curl_slist_free_all`. -/
def Memory.freeList (memory : Memory) : Option ℕ → Memory
  | some address =>
      { memory with lists := Function.update memory.lists address none }
  | none => memory

def resetHdrs : ClientProgram Unit :=
  modify fun session =>
    { session with
      this := { session.this with headers := none }
      memory := session.memory.freeList session.this.headers }

/-- `curl_easy_reset`; the error buffer is an option like the others. -/
def reset : ClientProgram Unit := do
  requireCurl
  modify fun session =>
    { session with this := { session.this with
      curl := session.this.curl.map fun _ => OptionMap.empty } }

def setHdrCb (cb : Option ℕ) : ClientProgram (Option ℕ) := do
  requireCurl
  let old ← read (·.this.lineCb)
  modify fun session => { session with this := { session.this with lineCb := cb } }
  return old

def minimumBandwidth (checkPeriod : ℤ) (bandwidth : ℕ) : ClientProgram Unit := do
  requireCurl
  if checkPeriod < 0 then raise .negativePeriod
  else if checkPeriod = 0 ∨ bandwidth = 0 then
    modify fun session =>
      { session with this := { session.this with bwPeriod := 0, bwSpeed := 0 } }
  else
    modify fun session =>
      { session with this := { session.this with
        bwPeriod := checkPeriod, bwSpeed := bandwidth } }

/-! ## Calls -/

inductive Call where
  | addHeader (header : Option Bytes)
  | resetHdrs
  | reset
  | setHdrCb (cb : Option ℕ)
  | minimumBandwidth (checkPeriod : ℤ) (bandwidth : ℕ)
  | get (url : Option Bytes) (timeout : ℤ) (verify : Bool)
  | post (url : Option Bytes) (data : Bytes) (timeout : ℤ) (verify : Bool)
  deriving DecidableEq, Repr

def Call.run (environment : Environment) : Call → ClientProgram Unit
  | .addHeader header => do
      let _ ← Http.addHeader environment header
      return ()
  | .resetHdrs => Http.resetHdrs
  | .reset => Http.reset
  | .setHdrCb cb => do
      let _ ← Http.setHdrCb cb
      return ()
  | .minimumBandwidth checkPeriod bandwidth => Http.minimumBandwidth checkPeriod bandwidth
  | .get url timeout verify => do
      let _ ← Http.get environment url timeout verify
      return ()
  | .post url data timeout verify => do
      let _ ← Http.post environment url data timeout verify
      return ()

end Nstl.Http
