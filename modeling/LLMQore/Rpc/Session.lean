import Mathlib.Data.List.AList
import Mathlib.Data.Finset.Basic
import LLMQore.Json
import LLMQore.Reentrant.Proc

/-!
# LLMQore.Rpc.Session

The JSON-RPC session (`JsonRpcSession`), in both directions: requests this side
sends and settles, and requests of the peer it dispatches and answers.

The code is written against a `SessionHost`, which supplies what the session
calls out to: the transport (`isOpen`, `send`, `abandon`), the slots of its
signals, and the request, notification and progress handlers users install. The
same code then runs over a transport about which nothing is known
(`Rpc.SessionMachine`) and over the HTTP server transport (`Mcp.HttpServer`).

Settling a promise is not a call-out: futures are consumed through
`QFutureWatcher`, whose signals come from the event loop.

`Session.history` records what an observer of the session sees, newest first. No
code reads it. A request of the peer gets a tag when it arrives; its signal, the
call of its handler and the message sent in answer to it carry the tag, which too
is for the observer only.
-/

namespace LLMQore.Rpc

open Reentrant

/-! ### Messages -/

inductive MessageKind where
  | request | notification | response | invalid
  deriving DecidableEq

/-- `classify`. -/
def classify (message : JsonObject) : MessageKind :=
  let hasId := message.contains "id" && !(message.value "id").isNull
  let hasMethod := message.contains "method"
  let hasResultOrError := message.contains "result" || message.contains "error"
  if hasMethod && hasId then .request
  else if hasMethod then .notification
  else if hasResultOrError then .response
  else .invalid

/-- `static_cast<qint64>(double)`: truncation towards zero. Outside the range of
`qint64` the cast is undefined; this is what x86-64 gives. -/
def toInt64 (d : Rat) : Int :=
  let t := if 0 ≤ d then d.floor else d.ceil
  if -2 ^ 63 ≤ t ∧ t < 2 ^ 63 then t else -2 ^ 63

/-- `idToString`: the key under which both directions file a request id. -/
def idToString : JsonValue → String
  | .str s => s
  | .num d => toString (toInt64 (JsonValue.num d).toDouble)
  | _ => ""

/-- Numbers that are one double are filed under one string. -/
example : idToString (.num (2 ^ 53 + 1)) = idToString (.num (2 ^ 53)) := by decide +kernel

namespace Method
def cancelled : String := "notifications/cancelled"
def progress : String := "notifications/progress"
end Method

namespace ErrorCode
def invalidRequest : Int := -32600
def methodNotFound : Int := -32601
def internalError : Int := -32603
def requestCancelled : Int := -32800
end ErrorCode

/-- The exceptions the session throws into promises or catches from handlers. -/
inductive Exn where
  | remoteError (code : Int) (message : String) (data : JsonValue)
  | cancelledError (message : String)
  | transportError (message : String)
  | timeoutError (message : String)
  | protocolError (message : String)
  | stdException (what : String)
  | unknown
  deriving DecidableEq

structure ErrorAnswer where
  code : Int
  message : String
  data : JsonValue := .null

/-- `errorAnswerFor`. -/
def errorAnswerFor : Exn → ErrorAnswer
  | .remoteError code message data => ⟨code, message, data⟩
  | .cancelledError message => ⟨ErrorCode.requestCancelled, message, .null⟩
  | .transportError message => ⟨ErrorCode.internalError, message, .null⟩
  | .timeoutError message => ⟨ErrorCode.internalError, message, .null⟩
  | .protocolError message => ⟨ErrorCode.internalError, message, .null⟩
  | .stdException what => ⟨ErrorCode.internalError, what, .null⟩
  | .unknown => ⟨ErrorCode.internalError, "Unknown exception", .null⟩

/-- `withProgressToken`. -/
def withProgressToken (params : JsonObject) (progressToken : String) : JsonObject :=
  let metaObject := (params.value "_meta").toObject.insert "progressToken" (.str progressToken)
  params.insert "_meta" (.obj metaObject)

/-- The message of an outgoing request. -/
def requestMessage (id method : String) (params : JsonObject) : JsonObject :=
  let message := JsonObject.ofFields
    [("jsonrpc", .str "2.0"), ("id", .str id), ("method", .str method)]
  if params.isEmpty then message else message.insert "params" (.obj params)

def notificationMessage (method : String) (params : JsonObject) : JsonObject :=
  let message := JsonObject.ofFields [("jsonrpc", .str "2.0"), ("method", .str method)]
  if params.isEmpty then message else message.insert "params" (.obj params)

def resultMessage (id result : JsonValue) : JsonObject :=
  JsonObject.ofFields [("jsonrpc", .str "2.0"), ("id", id), ("result", result)]

def errorMessage (id : JsonValue) (answer : ErrorAnswer) : JsonObject :=
  let err := JsonObject.ofFields [("code", .num answer.code), ("message", .str answer.message)]
  let err := if !answer.data.isNull && !answer.data.isUndefined then
      err.insert "data" answer.data else err
  JsonObject.ofFields [("jsonrpc", .str "2.0"), ("id", id), ("error", .obj err)]

/-! ### State -/

/-- The identity of a promise. -/
abbrev PromiseId := Nat
/-- The identity of a request of the peer. -/
abbrev RequestTag := Nat

/-- How a promise is settled: a result or an exception, then `finish`. -/
inductive Outcome where
  | result (v : JsonValue)
  | exception (e : Exn)
  deriving DecidableEq

/-- `JsonRpcSession::Pending`. The timer is identified by the promise it guards. -/
structure Pending where
  promise : PromiseId
  progressToken : String
  method : String
  deriving DecidableEq

/-- How the future of a handler finishes. -/
inductive FutureEnd where
  | result (v : JsonValue)
  | exception (e : Exn)
  /-- It was cancelled, with neither. -/
  | cancelled

/-- It can be sent: it is there, and an undefined value is none. -/
def FutureEnd.Answers : FutureEnd → Prop
  | .result v => v ≠ .undefined
  | .exception _ => True
  | .cancelled => False

/-- How the handler of a request of the peer came to an end. -/
inductive HandlerEnd where
  | noHandler (method : String)
  | threw (e : Exn)
  | finished (outcome : FutureEnd)

/-- What the watcher of a handler's future has captured. -/
structure Watcher where
  idValue : JsonValue
  idStr : String

inductive NotifyHandler where
  | cancelled | progress | user
  deriving DecidableEq

/-- What an observer sees. -/
inductive Observation where
  /-- A request got an id and was put in `m_pending`. -/
  | issued (id : String) (promise : PromiseId) (progressToken : String)
  /-- An entry left `m_pending`. -/
  | removed (id : String) (promise : PromiseId)
  | settled (promise : PromiseId) (outcome : Outcome)
  /-- A progress handler was installed under a token. -/
  | registered (token : String)
  /-- A request of the peer arrived. -/
  | received (tag : RequestTag) (id : JsonValue)
  | ended (tag : RequestTag) (how : HandlerEnd)
  /-- A notification of the peer arrived. -/
  | notified (method : String) (params : JsonObject)
  /-- A message was handed to the transport, possibly in answer to a request. -/
  | sent (message : JsonObject) (answers : Option RequestTag)

/-- The state of a `JsonRpcSession`. -/
structure Session where
  nextId : UInt64 := 1
  pending : AList (fun _ : String => Pending) := ∅
  requestHandlers : Finset String := ∅
  notifyHandlers : AList (fun _ : String => NotifyHandler) :=
    (AList.insert Method.progress .progress ∅).insert Method.cancelled .cancelled
  progressHandlers : Finset String := ∅
  inFlightIncomingIds : Finset String := ∅
  cancelledIncomingIds : Finset String := ∅
  currentProgressToken : String := ""
  /-- The running timers, each with the request id its slot has captured. -/
  timers : AList (fun _ : PromiseId => String) := ∅
  /-- The watchers of handler futures that have not finished. -/
  watchers : AList (fun _ : RequestTag => Watcher) := ∅
  /-- The next identity of a promise, and of a request of the peer. -/
  nextPromise : PromiseId := 0
  nextTag : RequestTag := 0
  history : List Observation := []

namespace Session

def observe (s : Session) (o : Observation) : Session :=
  { s with history := o :: s.history }

def clearProgressHandler (s : Session) (progressToken : String) : Session :=
  { s with progressHandlers := s.progressHandlers.erase progressToken }

/-- What every path that ends a request does to its entry: stop the timer, drop
the progress handler registered under its token, erase the entry. -/
def dropPending (s : Session) (id : String) (p : Pending) : Session :=
  let s := { s with timers := s.timers.erase p.promise }
  let s := if p.progressToken.isEmpty then s else s.clearProgressHandler p.progressToken
  { s with pending := s.pending.erase id }.observe (.removed id p.promise)

/-- `setException` or `addResult`, then `finish`. -/
def settle (s : Session) (p : PromiseId) (o : Outcome) : Session :=
  s.observe (.settled p o)

/-- The loop of `abortPending`: settle and erase each entry in turn. -/
def abortEntries (reason : String) : List (Sigma fun _ : String => Pending) → Session → Session
  | [], s => s
  | ⟨id, p⟩ :: rest, s =>
      abortEntries reason rest
        ((s.settle p.promise (.exception (.transportError reason))).dropPending id p)

/-- `abortPending`. -/
def abortPending (s : Session) (reason : String) : Session :=
  abortEntries reason s.pending.entries s

/-- A request of the peer arrives and gets the next tag. -/
def receive (s : Session) (idValue : JsonValue) (progressToken : String) : Session :=
  let idStr := idToString idValue
  { s with
    nextTag := s.nextTag + 1
    currentProgressToken := progressToken
    inFlightIncomingIds :=
      if idStr.isEmpty then s.inFlightIncomingIds else insert idStr s.inFlightIncomingIds
    }.observe (.received s.nextTag idValue)

/-- The handler of a request of the peer came to an end. -/
def leaveFlight (s : Session) (tag : RequestTag) (idStr : String) (how : HandlerEnd) : Session :=
  { s with inFlightIncomingIds := s.inFlightIncomingIds.erase idStr }.observe (.ended tag how)

/-- A watcher is about to be deleted. -/
def unwatch (s : Session) (tag : RequestTag) : Session :=
  { s with watchers := s.watchers.erase tag }

def clearProgressToken (s : Session) : Session := { s with currentProgressToken := "" }

/-- The mark a cancellation leaves on a request of the peer in flight. -/
def markCancelled (s : Session) (id : String) : Session :=
  if id ∈ s.inFlightIncomingIds then
    { s with cancelledIncomingIds := insert id s.cancelledIncomingIds }
  else s

end Session

/-! ### The surroundings of the code -/

/-- The signals of the session. -/
inductive Signal where
  | incomingRequest (tag : RequestTag) (method : String)
  | notificationReceived (method : String) (params : JsonObject)
  | protocolError (reason : String)
  | progressReceived (token : String) (progress total : Rat) (message : String)

/-- What the session's code is written against. -/
structure SessionHost (S : Sig) where
  session : S.State → Session
  withSession : S.State → Session → S.State
  /-- `m_transport && m_transport->isOpen()` -/
  isOpen : S.State → Bool
  send : Option RequestTag → JsonObject → Proc S Unit
  abandon : String → Proc S Unit
  emit : Signal → Proc S Unit
  /-- Call the handler installed for a method; it returns a future or throws. -/
  handle : RequestTag → String → JsonObject → Proc S (Except Exn Unit)
  /-- Call a notification handler installed by a user; what it throws is caught. -/
  notify : String → JsonObject → Proc S Unit
  /-- Call the progress handler of a token; what it throws is caught. -/
  progress : String → Rat → Rat → String → Proc S Unit

namespace SessionHost

variable {S : Sig} (H : SessionHost S)

def reads {α : Type} (f : Session → α) : Proc S α := Proc.reads fun s => f (H.session s)

def modify (f : Session → Session) : Proc S Unit :=
  Proc.modify fun s => H.withSession s (f (H.session s))

/-! ### Outgoing requests -/

/-- `CancellableRequest`. -/
structure CancellableRequest where
  future : PromiseId
  requestId : String

/-- `allocateId`. -/
def allocateId : Proc S String := do
  let next ← H.reads (·.nextId)
  H.modify fun s => { s with nextId := s.nextId + 1 }
  return toString next.toNat

/-- `std::make_shared<QPromise<QJsonValue>>()` -/
def makePromise : Proc S PromiseId := do
  let promise ← H.reads (·.nextPromise)
  H.modify fun s => { s with nextPromise := s.nextPromise + 1 }
  return promise

/-- `sendRequestImpl`. -/
def sendRequestImpl (method : String) (params : JsonObject) (trackProgressToken : Bool) :
    Proc S CancellableRequest := do
  let promise ← H.makePromise
  if !(← Proc.reads H.isOpen) then
    H.modify fun s => s.settle promise (.exception (.transportError "Transport is not open"))
    return ⟨promise, ""⟩
  else
    let id ← H.allocateId
    let token := if trackProgressToken then id else ""
    H.modify fun s =>
      { s with
        pending := s.pending.insert id ⟨promise, token, method⟩
        timers := s.timers.insert promise id }.observe (.issued id promise token)
    let outgoing := if trackProgressToken then withProgressToken params id else params
    H.send none (requestMessage id method outgoing)
    return ⟨promise, id⟩

/-- `sendNotification`. -/
def sendNotification (method : String) (params : JsonObject) : Proc S Unit := do
  if ← Proc.reads H.isOpen then
    H.send none (notificationMessage method params)

/-- The first half of `abandonRequest`: tell the peer. -/
def announceCancelled (id method reason : String) : Proc S Unit :=
  if method ≠ "initialize" then
    let params := JsonObject.ofFields [("requestId", .str id)]
    H.sendNotification Method.cancelled
      (if reason.isEmpty then params else params.insert "reason" (.str reason))
  else
    pure ()

/-- `abandonRequest`. -/
def abandonRequest (id method reason : String) : Proc S Unit := do
  if ← Proc.reads H.isOpen then
    H.announceCancelled id method reason
    H.abandon id

/-- The slot of a request's timer. -/
def onTimeout (id : String) : Proc S Unit := do
  match (← H.reads (·.pending)).lookup id with
  | none => pure ()
  | some p =>
      H.modify fun s => s.dropPending id p
      H.abandonRequest id p.method "Request timed out"
      H.modify fun s => s.settle p.promise (.exception (.timeoutError s!"Request {id} timed out"))

/-- A running timer fires; it is single-shot. A stopped one never fires. -/
def timerExpired (t : PromiseId) : Proc S Unit := do
  match (← H.reads (·.timers)).lookup t with
  | none => pure ()
  | some id =>
      H.modify fun s => { s with timers := s.timers.erase t }
      H.onTimeout id

/-- `cancelRequest`. -/
def cancelRequest (id reason : String) : Proc S Unit := do
  match (← H.reads (·.pending)).lookup id with
  | none => pure ()
  | some p =>
      H.modify fun s => s.dropPending id p
      H.abandonRequest id p.method reason
      H.modify fun s => s.settle p.promise
        (.exception (.cancelledError (if reason.isEmpty then "Cancelled by caller" else reason)))

/-- `dispatchResponse`. -/
def dispatchResponse (message : JsonObject) : Proc S Unit := do
  let id := idToString (message.value "id")
  if id.isEmpty then
    pure ()
  else
    match (← H.reads (·.pending)).lookup id with
    | none => pure ()
    | some p =>
        let outcome :=
          if message.contains "error" then
            let err := (message.value "error").toObject
            .exception (.remoteError (err.value "code").toInt (err.value "message").toString
              (err.value "data"))
          else .result (message.value "result")
        H.modify fun s => (s.dropPending id p).settle p.promise outcome

/-- `onSendFailed`. -/
def onSendFailed (message : JsonObject) (reason : String) : Proc S Unit := do
  if message.contains "method" then
    let id := idToString (message.value "id")
    match (← H.reads (·.pending)).lookup id with
    | none => pure ()
    | some p =>
        H.modify fun s =>
          (s.dropPending id p).settle p.promise (.exception (.transportError reason))

/-- `abortPending`. -/
def abortPending (reason : String) : Proc S Unit :=
  H.modify fun s => s.abortPending reason

/-- `onTransportClosed`. -/
def onTransportClosed : Proc S Unit := H.abortPending "Transport closed"

/-! ### Handlers and progress -/

/-- `setRequestHandler`. -/
def setRequestHandler (method : String) (handler : Bool) : Proc S Unit :=
  H.modify fun s =>
    { s with requestHandlers :=
        if handler then insert method s.requestHandlers else s.requestHandlers.erase method }

/-- `setNotificationHandler`. -/
def setNotificationHandler (method : String) (handler : Bool) : Proc S Unit :=
  H.modify fun s =>
    { s with notifyHandlers :=
        if handler then s.notifyHandlers.insert method .user else s.notifyHandlers.erase method }

/-- `setProgressHandler`. -/
def setProgressHandler (progressToken : String) (handler : Bool) : Proc S Unit :=
  H.modify fun s =>
    if handler then
      { s with progressHandlers := insert progressToken s.progressHandlers }.observe
        (.registered progressToken)
    else s.clearProgressHandler progressToken

/-- `sendProgress`. -/
def sendProgress (progressToken : String) (progress total : Rat) (message : String) :
    Proc S Unit := do
  if progressToken.isEmpty then
    pure ()
  else
    let params := JsonObject.ofFields
      [("progressToken", .str progressToken), ("progress", .num progress)]
    let params := if 0 < total then params.insert "total" (.num total) else params
    let params := if message.isEmpty then params else params.insert "message" (.str message)
    H.sendNotification Method.progress params

/-- The handler the session installs for `notifications/progress`. -/
def progressHandler (params : JsonObject) : Proc S Unit := do
  let token := idToString (params.value "progressToken")
  let progress := (params.value "progress").toDouble
  let total := (params.value "total").toDouble
  let message := (params.value "message").toString
  H.emit (.progressReceived token progress total message)
  if token ∈ (← H.reads (·.progressHandlers)) then
    H.progress token progress total message

/-- What the handler for `notifications/cancelled` does to the session. -/
def applyCancelled (params : JsonObject) (s : Session) : Session :=
  let id := idToString (params.value "requestId")
  let reason := (params.value "reason").toString
  if id.isEmpty then s
  else
    let s := s.markCancelled id
    match s.pending.lookup id with
    | none => s
    | some p =>
        (s.dropPending id p).settle p.promise
          (.exception (.cancelledError (if reason.isEmpty then "Cancelled by peer" else reason)))

/-- The handler the session installs for `notifications/cancelled`. -/
def cancelledHandler (params : JsonObject) : Proc S Unit :=
  H.modify (applyCancelled params)

/-! ### Incoming messages -/

/-- `sendResponse`. -/
def sendResponse (tag : RequestTag) (id result : JsonValue) : Proc S Unit := do
  if ← Proc.reads H.isOpen then
    H.send (some tag) (resultMessage id result)

/-- `sendError`. -/
def sendError (tag : Option RequestTag) (id : JsonValue) (answer : ErrorAnswer) :
    Proc S Unit := do
  if ← Proc.reads H.isOpen then
    H.send tag (errorMessage id answer)

/-- Forget that a request of the peer is in flight. -/
def leaveFlight (tag : RequestTag) (idStr : String) (how : HandlerEnd) : Proc S Unit :=
  H.modify fun s => s.leaveFlight tag idStr how

/-- `dispatchRequest`. -/
def dispatchRequest (message : JsonObject) : Proc S Unit := do
  let idValue := message.value "id"
  let idStr := idToString idValue
  let method := (message.value "method").toString
  let params := (message.value "params").toObject
  let metaObject := (params.value "_meta").toObject
  let tag ← H.reads (·.nextTag)
  H.modify fun s => s.receive idValue (idToString (metaObject.value "progressToken"))
  H.emit (.incomingRequest tag method)
  if method ∈ (← H.reads (·.requestHandlers)) then
    match ← H.handle tag method params with
    | .error e =>
        H.modify fun s => s.clearProgressToken
        H.leaveFlight tag idStr (.threw e)
        H.sendError (some tag) idValue (errorAnswerFor e)
    | .ok () =>
        H.modify fun s => s.clearProgressToken
        H.modify fun s => { s with watchers := s.watchers.insert tag ⟨idValue, idStr⟩ }
  else
    H.modify fun s => s.clearProgressToken
    H.leaveFlight tag idStr (.noHandler method)
    H.sendError (some tag) idValue
      ⟨ErrorCode.methodNotFound, s!"Method not found: {method}", .null⟩

/-- The slot of a watcher: the future of a handler has finished. A watcher
finishes once and is then deleted. -/
def handlerFinished (tag : RequestTag) (outcome : FutureEnd) : Proc S Unit := do
  match (← H.reads (·.watchers)).lookup tag with
  | none => pure ()
  | some w =>
      H.modify fun s => s.unwatch tag
      let cancelled ← H.reads (·.cancelledIncomingIds)
      if !w.idStr.isEmpty && decide (w.idStr ∈ cancelled) then
        H.modify fun s =>
          { s with cancelledIncomingIds := s.cancelledIncomingIds.erase w.idStr }
        H.leaveFlight tag w.idStr (.finished outcome)
      else
        H.leaveFlight tag w.idStr (.finished outcome)
        match outcome with
        | .result v => H.sendResponse tag w.idValue v
        | .exception e => H.sendError (some tag) w.idValue (errorAnswerFor e)
        -- `result()` of a future that has none is undefined; here nothing more happens
        | .cancelled => pure ()

/-- Run the handler of a notification, if it has one. -/
def runNotifyHandler (method : String) (params : JsonObject) : Option NotifyHandler → Proc S Unit
  | none => pure ()
  | some .cancelled => H.cancelledHandler params
  | some .progress => H.progressHandler params
  | some .user => H.notify method params

/-- `dispatchNotification`. -/
def dispatchNotification (message : JsonObject) : Proc S Unit := do
  let method := (message.value "method").toString
  let params := (message.value "params").toObject
  H.modify fun s => s.observe (.notified method params)
  let handlers ← H.reads (·.notifyHandlers)
  H.runNotifyHandler method params (handlers.lookup method)
  H.emit (.notificationReceived method params)

/-- `onMessageReceived`. -/
def onMessageReceived (message : JsonObject) : Proc S Unit := do
  if (message.value "jsonrpc").toString ≠ "2.0" then
    H.emit (.protocolError "Invalid jsonrpc field")
  else
    match classify message with
    | .request => H.dispatchRequest message
    | .notification => H.dispatchNotification message
    | .response => H.dispatchResponse message
    | .invalid =>
        H.sendError none (message.value "id")
          ⟨ErrorCode.invalidRequest, "Invalid Request", .null⟩
        H.emit (.protocolError "Unclassifiable JSON-RPC message")

/-! ### Entry points -/

end SessionHost

/-- What reaches a session from elsewhere than its transport: calls of its API, its
timers, and the futures of its handlers. -/
inductive SessionCall where
  /-- `sendRequest`, or `sendCancellableRequest` where the request is tracked. -/
  | sendRequest (method : String) (params : JsonObject) (tracked : Bool)
  | cancelRequest (id reason : String)
  | sendNotification (method : String) (params : JsonObject)
  | sendProgress (token : String) (progress total : Rat) (message : String)
  | setRequestHandler (method : String) (handler : Bool)
  | setNotificationHandler (method : String) (handler : Bool)
  | setProgressHandler (token : String) (handler : Bool)
  | abortPending (reason : String)
  | timerExpired (timer : PromiseId)
  /-- The future a request handler returned has finished. -/
  | handlerFinished (tag : RequestTag) (outcome : FutureEnd)

/-- The code of each call. -/
def SessionHost.call {S : Sig} (H : SessionHost S) : SessionCall → Proc S Unit
  | .sendRequest method params tracked => do
      discard <| H.sendRequestImpl method params tracked
  | .cancelRequest id reason => H.cancelRequest id reason
  | .sendNotification method params => H.sendNotification method params
  | .sendProgress token progress total message => H.sendProgress token progress total message
  | .setRequestHandler method handler => H.setRequestHandler method handler
  | .setNotificationHandler method handler => H.setNotificationHandler method handler
  | .setProgressHandler token handler => H.setProgressHandler token handler
  | .abortPending reason => H.abortPending reason
  | .timerExpired timer => H.timerExpired timer
  | .handlerFinished tag outcome => H.handlerFinished tag outcome

end LLMQore.Rpc
