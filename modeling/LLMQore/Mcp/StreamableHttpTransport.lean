import LLMQore.Mcp.SseHttpTransport
import LLMQore.Streaming.Resume

/-!
# LLMQore.Mcp.StreamableHttpTransport

The client transport over HTTP (`McpStreamableHttpTransport`), as the specification of 2025-03-26
has it.

Each message is a `POST`, and its `Exchange` reads the answer, which may be a stream of events and
is resumed when it breaks off. What the server sends of its own accord comes over the listen
stream, a `GET` that is opened once the server has answered `initialize` and is retried when it
ends. Every `initialize` starts a new session.

The server of the listen streams is part of the model: `served` is what it has sent, and
`ListenStream` what an observer knows of the current one.
-/

namespace LLMQore.Mcp

open Reentrant Network
open SseHttpTransport (isJsonRpcRequest jsonRpcMessageIn)

/-- The reader of JSON, and the texts of numbers in a `QVariant`. Nothing is assumed of them. -/
structure RpcCodec extends JsonCodec where
  numberText : Rat → String

/-- `toVariant().toString()` -/
def RpcCodec.variantText (json : RpcCodec) : JsonValue → String
  | .str s => s
  | .num d => json.numberText d
  | .bool b => if b then "true" else "false"
  | _ => ""

/-- `answers`. -/
def RpcCodec.answers (json : RpcCodec) (reply request : JsonObject) : Bool :=
  let id := reply.value "id"
  !reply.contains "method" && !id.isNull && !id.isUndefined &&
    json.variantText id == json.variantText (request.value "id")

/-- `jsonRpcErrorIn`. -/
def RpcCodec.jsonRpcErrorIn (json : RpcCodec) (body : Bytes) : JsonObject :=
  let reply := (json.fromJson body).toObject
  if (reply.value "error").isObject then reply else []

/-- `isTransientRefusal`. -/
def isTransientRefusal (statusCode : Int) : Bool :=
  statusCode == 408 || statusCode == 409 || statusCode == 425 || statusCode == 429 ||
    (500 ≤ statusCode && statusCode != 501)

namespace Streamable

def kInitialBackoffMs : Int := 1000
def kMaxBackoffMs : Int := 30000

/-- The identity of an `Exchange`. -/
abbrev ExchangeId := Nat

/-- A response, as far as it is looked at. -/
structure HttpResponse where
  statusCode : Int := 0
  contentType : String := ""
  body : Bytes := []

namespace HttpResponse

/-- `isSuccess`. -/
def isSuccess (response : HttpResponse) : Bool :=
  200 ≤ response.statusCode && response.statusCode < 300

/-- Does the content type contain `kind`? -/
def hasContentType (response : HttpResponse) (kind : String) : Bool :=
  decide (kind.toList <:+: response.contentType.toList)

/-- `isEventStream`. -/
def isEventStream (response : HttpResponse) : Bool :=
  response.isSuccess && response.hasContentType "text/event-stream"

end HttpResponse

/-- The head of a response: `responseHead`, and the header `Mcp-Session-Id`. -/
structure ResponseHead extends HttpResponse where
  sessionId : String := ""

/-- `Exchange`. -/
structure Exchange where
  message : JsonObject := []
  stream : Option StreamId := none
  response : HttpResponse := {}
  events : SSEParser := {}
  answered : Bool := false
  done : Bool := false
  resuming : Bool := false
  cursor : Bytes := []
  retryMs : Option Int := none
  backoffMs : Int := Streamable.kInitialBackoffMs
  /-- The delay of `resumeTimer`, while it runs. -/
  resumeTimer : Option Int := none
  /-- The session in which the message was sent. No code reads it. -/
  session : Nat := 0

/-- Is the message an `initialize`? -/
def isInitialize (message : JsonObject) : Bool :=
  (message.value "method").toString == "initialize"

/-- `canResume`. -/
def Exchange.canResume (exchange : Exchange) : Bool :=
  !exchange.done && !exchange.answered && !exchange.cursor.isEmpty &&
    isJsonRpcRequest exchange.message

/-- What a server sends over its listen streams. -/
structure ServerEvent where
  /-- The session it is for: the header `Mcp-Session-Id` of the streams that carry it. -/
  session : String := ""
  /-- The field `id`, if the event has one. -/
  id : Option Bytes := none
  type : String := "message"
  data : Bytes := []

/-- What an observer knows of the listen stream. -/
structure ListenStream where
  /-- The headers `Mcp-Session-Id` and `Last-Event-ID` of its request. -/
  sessionId : String := ""
  lastEventId : Bytes := []
  /-- The session in which it was opened, and those whose responses gave the session id and the
  protocol version of its request. -/
  sessions : List Nat := []
  /-- The place in what is `served` from which the server sends, once it answers. -/
  start : Option Nat := none
  received : Bytes := []

/-- An event in the backlog, and the sessions its stream was opened for. -/
structure Backlogged where
  event : SSEEvent
  sessions : List Nat

/-- A message of a listen stream is delivered. -/
structure Delivery where
  message : JsonObject
  /-- The sessions its stream was opened for. -/
  sessions : List Nat
  /-- The session that goes on. -/
  session : Nat
  /-- The transport is open. -/
  isOpen : Bool

/-- What an observer sees. -/
inductive Observation where
  | delivered (d : Delivery)
  /-- A message of an exchange is delivered. -/
  | received (exchange : ExchangeId) (message : JsonObject) (answer : Bool)
  /-- The request of an exchange is reported as failed. -/
  | failed (exchange : ExchangeId)
  | resumed (exchange : ExchangeId) (lastEventId : Bytes)
  | abandoned (exchange : ExchangeId)

end Streamable

open Streamable

structure StreamableHttpTransport where
  /-- `http` is not null. -/
  http : Bool := true
  /-- The `HttpTransport` opens a stream when it is told to. -/
  opens : Bool := true
  isOpen : Bool := false
  sessionId : String := ""
  protocolVersion : String := ""
  /-- The exchanges there are; those not in `exchanges` are done. -/
  exchange : ExchangeId → Exchange := fun _ => { done := true }
  exchanges : List ExchangeId := []
  nextExchange : ExchangeId := 0
  nextStream : StreamId := 0
  /-- The streams whose signals reach the transport: those of exchanges, and the listen stream. -/
  connected : List (StreamId × Option ExchangeId) := []
  listenStream : Option StreamId := none
  listenEvents : SSEParser := {}
  lastEventId : Bytes := []
  listenAccepted : Bool := false
  listenRefused : Bool := false
  listenResumed : Bool := false
  listenHeard : Bool := false
  listenOutageReported : Bool := false
  listenBacklog : List Backlogged := []
  listenBackoffMs : Int := Streamable.kInitialBackoffMs
  serverRetryMs : Option Int := none
  /-- `listenUptime` is valid. -/
  listenUptime : Bool := false
  /-- The delay of `listenRetryTimer`, while it runs. -/
  listenRetryTimer : Option Int := none
  /-- How many sessions have ended. No code reads it, or anything that follows. -/
  sessions : Nat := 0
  /-- The sessions from whose responses `sessionId` and `protocolVersion` are. -/
  sessionIdFrom : Option Nat := none
  protocolVersionFrom : Option Nat := none
  /-- The calls of `startNewSession` that tell of requests that were superseded. -/
  superseding : Nat := 0
  /-- A message was sent meanwhile. -/
  sentMeanwhile : Bool := false
  listening : ListenStream := {}
  /-- What the server has sent over listen streams, oldest first. -/
  served : List ServerEvent := []
  history : List Observation := []

/-- What the transport calls out to. -/
inductive StreamableOut where
  | errorOccurred (reason : String)
  | messageReceived (message : JsonObject)
  | sendFailed (message : JsonObject) (reason : String)
  | closed
  /-- A transport that is gone is used. -/
  | terminate

/-- From the end of the program nothing returns. -/
def StreamableOut.Ans : StreamableOut → Type
  | .terminate => Empty
  | _ => Unit

/-- The loops of the transport that may go on for ever. -/
inductive StreamableFn where
  /-- The loop over the backlog in `onListenChunk`. -/
  | deliverBacklog

abbrev StreamableSig : Sig where
  State := StreamableHttpTransport
  Out := StreamableOut
  Ans := StreamableOut.Ans
  Fn := StreamableFn
  Res _ := Unit

namespace StreamableHttpTransport

def observe (s : StreamableHttpTransport) (o : Observation) : StreamableHttpTransport :=
  { s with history := o :: s.history }

/-- Change one exchange. -/
def update (s : StreamableHttpTransport) (id : ExchangeId) (f : Exchange → Exchange) :
    StreamableHttpTransport :=
  { s with exchange := Function.update s.exchange id (f (s.exchange id)) }

/-- `stream->disconnect(q)` -/
def disconnect (s : StreamableHttpTransport) (stream : Option StreamId) :
    StreamableHttpTransport :=
  { s with connected := s.connected.filter fun c => some c.1 != stream }

/-- A new stream, connected to the transport. -/
def connect (s : StreamableHttpTransport) (owner : Option ExchangeId) : StreamableHttpTransport :=
  { s with
    connected := (s.nextStream, owner) :: s.connected
    nextStream := s.nextStream + 1 }

/-- The stream is gone, and every `QPointer` to it is null. -/
def destroyStream (s : StreamableHttpTransport) (stream : StreamId) : StreamableHttpTransport :=
  { s.disconnect (some stream) with
    exchange := fun id =>
      if (s.exchange id).stream = some stream then { s.exchange id with stream := none }
      else s.exchange id
    listenStream := if s.listenStream = some stream then none else s.listenStream }

/-! ### Exchanges -/

/-- `attach`. -/
def attach (s : StreamableHttpTransport) (id : ExchangeId) : StreamableHttpTransport :=
  (s.update id fun e => { e with stream := some s.nextStream }).connect (some id)

/-- An exchange for a message. -/
def newExchange (s : StreamableHttpTransport) (message : JsonObject) : StreamableHttpTransport :=
  { s with
    exchange := Function.update s.exchange s.nextExchange { message, session := s.sessions }
    exchanges := s.exchanges ++ [s.nextExchange]
    nextExchange := s.nextExchange + 1 }.attach s.nextExchange

/-- `drop`, and `release` where its exchange is taken from the list as well. -/
def drop (s : StreamableHttpTransport) (id : ExchangeId) : StreamableHttpTransport :=
  (s.update id fun e => { e with done := true, resumeTimer := none }).disconnect
    (s.exchange id).stream

/-- `release`. -/
def release (s : StreamableHttpTransport) (id : ExchangeId) : StreamableHttpTransport :=
  { s.drop id with exchanges := s.exchanges.erase id }

/-- `abandonExchanges`. -/
def abandonExchanges (s : StreamableHttpTransport) : StreamableHttpTransport :=
  s.exchanges.foldl drop { s with exchanges := [] }

/-- `onHeaders`. -/
def onHeaders (s : StreamableHttpTransport) (id : ExchangeId) (head : ResponseHead) :
    StreamableHttpTransport :=
  let s := s.update id fun e => { e with response := head.toHttpResponse }
  if head.sessionId.isEmpty then s
  else { s with sessionId := head.sessionId, sessionIdFrom := some (s.exchange id).session }

/-- An exchange reads a chunk of its event stream. -/
def readEvents (s : StreamableHttpTransport) (id : ExchangeId) (chunk : Bytes) :
    StreamableHttpTransport :=
  s.update id fun e =>
    let r := e.events.append chunk
    { e with
      events := r.1
      retryMs := r.1.retryMs <|> e.retryMs
      backoffMs :=
        if !r.2.isEmpty || r.1.lastEventId != e.cursor then Streamable.kInitialBackoffMs else e.backoffMs
      cursor := r.1.lastEventId }

/-- The start of `resumeTimer` in `scheduleResume`, after the stream was let go. -/
def scheduleResume (s : StreamableHttpTransport) (id : ExchangeId) : StreamableHttpTransport :=
  (s.disconnect (s.exchange id).stream).update id fun e =>
    { e with
      stream := none
      resumeTimer := some (max (e.retryMs.getD 0) e.backoffMs)
      backoffMs := min (e.backoffMs * 2) Streamable.kMaxBackoffMs }

/-- `resume`, when there is a stream. -/
def beginResume (s : StreamableHttpTransport) (id : ExchangeId) : StreamableHttpTransport :=
  ((s.update id fun e =>
    { e with
      resuming := true
      response := {}
      events := { e.events.clear with lastEventId := e.cursor, idBuffer := e.cursor } }).attach
    id).observe (.resumed id (s.exchange id).cursor)

/-! ### Listening -/

/-- The place at which a server goes on for a client with this `Last-Event-ID`. -/
def resumePlace (served : List ServerEvent) (lastEventId : Bytes) : Nat :=
  if lastEventId.isEmpty then served.length else Resume.start ServerEvent.id lastEventId served

/-- `openListenStream`, before the `HttpTransport` is told to open a stream. -/
def prepareListening (s : StreamableHttpTransport) : StreamableHttpTransport :=
  { s with
    listenEvents :=
      { s.listenEvents.clear with lastEventId := s.lastEventId, idBuffer := s.lastEventId }
    listenResumed := !s.lastEventId.isEmpty
    listenHeard := false }

/-- The listen stream is opened. -/
def connectListening (s : StreamableHttpTransport) : StreamableHttpTransport :=
  { s with
    listenStream := some s.nextStream
    listening :=
      { sessionId := s.sessionId
        lastEventId := s.lastEventId
        sessions := s.sessions :: (s.sessionIdFrom.toList ++ s.protocolVersionFrom.toList) } }.connect
    none

/-- `releaseListenStream`, and `abandonListenStream`, which aborts the stream as well. -/
def releaseListenStream (s : StreamableHttpTransport) : StreamableHttpTransport :=
  match s.listenStream with
  | some stream => { s with listenStream := none }.disconnect (some stream)
  | none => s

/-- `restartListenBackoff`. -/
def restartListenBackoff (s : StreamableHttpTransport) : StreamableHttpTransport :=
  { s with listenBackoffMs := Streamable.kInitialBackoffMs, listenOutageReported := false }

/-- `onListenChunk`, before the loop. -/
def readListened (s : StreamableHttpTransport) (chunk : Bytes) : StreamableHttpTransport :=
  let r := s.listenEvents.append chunk
  { s with
    listenEvents := r.1
    serverRetryMs := r.1.retryMs <|> s.serverRetryMs
    listenHeard := s.listenHeard || !r.2.isEmpty || r.1.lastEventId != s.lastEventId
    lastEventId := r.1.lastEventId
    listenBacklog := s.listenBacklog ++ r.2.map fun event => ⟨event, s.listening.sessions⟩
    listening := { s.listening with received := s.listening.received ++ chunk } }

/-- `onListenEnded`, before the retry; the stream was up for `elapsed` ms. -/
def endListening (s : StreamableHttpTransport) (elapsed : Int) : StreamableHttpTransport :=
  let s :=
    if s.listenUptime then
      if Streamable.kInitialBackoffMs ≤ elapsed then s.restartListenBackoff
      else if s.listenResumed && !s.listenHeard then { s with lastEventId := [] }
      else s
    else s
  { s with listenUptime := false }.releaseListenStream

/-- `stopListening`, with which a session ends. -/
def stopListening (s : StreamableHttpTransport) : StreamableHttpTransport :=
  { { s with listenRetryTimer := none }.releaseListenStream with
    listenEvents := s.listenEvents.clear
    lastEventId := []
    listenAccepted := false
    listenRefused := false
    listenResumed := false
    listenHeard := false
    listenBacklog := []
    listenOutageReported := false
    listenBackoffMs := Streamable.kInitialBackoffMs
    serverRetryMs := none
    listenUptime := false
    sessions := s.sessions + 1 }

/-- The session id and the protocol version are cleared. -/
def forgetSession (s : StreamableHttpTransport) : StreamableHttpTransport :=
  { s with sessionId := "", sessionIdFrom := none, protocolVersion := "",
           protocolVersionFrom := none }

/-- `startNewSession`, before its loop. -/
def beginSupersede (s : StreamableHttpTransport) : StreamableHttpTransport :=
  { s.abandonExchanges with superseding := s.superseding + 1 }

/-- `startNewSession`, after its loop. The old session is deleted on the server, whose answer nobody
waits for. -/
def endSupersede (s : StreamableHttpTransport) : StreamableHttpTransport :=
  { s with superseding := s.superseding - 1 }.forgetSession.stopListening

/-- The message of an event, if it carries one. -/
def messageOf (json : RpcCodec) (type : String) (data : Bytes) : Option JsonObject :=
  if type = "message" then
    let message := jsonRpcMessageIn json.toJsonCodec { data }
    if message.isEmpty then none else some message
  else none

/-- A message of the listen stream is delivered now. -/
def deliver (s : StreamableHttpTransport) (message : JsonObject) (sessions : List Nat) :
    StreamableHttpTransport :=
  s.restartListenBackoff.observe (.delivered ⟨message, sessions, s.sessions, s.isOpen⟩)

section Code

variable (json : RpcCodec)

/-- `scheduleListenRetry`. -/
def scheduleListenRetry : Proc StreamableSig Unit := do
  let s ← Proc.read (S := StreamableSig)
  if !s.isOpen || !s.http || s.listenRefused then pure ()
  else do
    let delayMs := max (s.serverRetryMs.getD 0) s.listenBackoffMs
    (if Streamable.kMaxBackoffMs ≤ s.listenBackoffMs ∧ s.listenOutageReported = false then do
      Proc.modify (S := StreamableSig) fun s => { s with listenOutageReported := true }
      Proc.query (S := StreamableSig) (.errorOccurred
        s!"Server message stream keeps failing; retrying every {delayMs / 1000} s")
    else pure ())
    Proc.modify (S := StreamableSig) fun s =>
      { s with
        listenRetryTimer := some delayMs
        listenBackoffMs := min (s.listenBackoffMs * 2) Streamable.kMaxBackoffMs }

/-- `openListenStream`. -/
def openListenStream : Proc StreamableSig Unit := do
  let s ← Proc.read (S := StreamableSig)
  if !s.isOpen || !s.http || s.listenStream.isSome || s.listenRefused then pure ()
  else do
    Proc.modify (S := StreamableSig) prepareListening
    if s.opens then Proc.modify (S := StreamableSig) connectListening
    else scheduleListenRetry

/-- `stop`. The session is deleted on the server, whose answer nobody waits for. -/
def stop : Proc StreamableSig Unit := do
  let isOpen ← Proc.reads (S := StreamableSig) (·.isOpen)
  if isOpen then
    Proc.modify (S := StreamableSig) fun s =>
      { s with isOpen := false }.forgetSession.abandonExchanges.stopListening
    Proc.query (S := StreamableSig) .closed
  else pure ()

/-- `onListenHeaders`. -/
def onListenHeaders (head : Streamable.HttpResponse) : Proc StreamableSig Unit := do
  if head.isEventStream then
    Proc.modify (S := StreamableSig) fun s => { s with listenAccepted := true, listenUptime := true }
  else do
    Proc.modify (S := StreamableSig) releaseListenStream
    let status := head.statusCode
    let s ← Proc.read (S := StreamableSig)
    if status = 404 ∧ s.listenAccepted = true ∧ s.sessionId ≠ "" then
      Proc.query (S := StreamableSig) (.errorOccurred
        s!"Server message stream: session not found (HTTP {status})")
      Proc.modify (S := StreamableSig) fun s => { s with sessionId := "", sessionIdFrom := none }
      stop
    else if status = 400 ∧ s.lastEventId ≠ [] then
      Proc.modify (S := StreamableSig) fun s => { s with lastEventId := [] }
      scheduleListenRetry
    else if isTransientRefusal status then scheduleListenRetry
    else Proc.modify (S := StreamableSig) fun s => { s with listenRefused := true }

/-- The loop of `onListenChunk`. -/
def deliverBacklog : Proc StreamableSig Unit := do
  match ← Proc.reads (S := StreamableSig) (·.listenBacklog) with
  | [] => pure ()
  | b :: rest => do
      Proc.modify (S := StreamableSig) fun s => { s with listenBacklog := rest }
      match messageOf json b.event.type b.event.data with
      | none => Proc.invoke (S := StreamableSig) .deliverBacklog
      | some message => do
          Proc.modify (S := StreamableSig) fun s => s.deliver message b.sessions
          Proc.query (S := StreamableSig) (.messageReceived message)
          Proc.invoke (S := StreamableSig) .deliverBacklog

/-- `onListenChunk`. -/
def onListenChunk (chunk : Bytes) : Proc StreamableSig Unit := do
  Proc.modify (S := StreamableSig) fun s => s.readListened chunk
  Proc.invoke (S := StreamableSig) .deliverBacklog

/-- `onListenEnded`. -/
def onListenEnded (elapsed : Int) : Proc StreamableSig Unit := do
  Proc.modify (S := StreamableSig) fun s => s.endListening elapsed
  scheduleListenRetry

/-! ### Messages -/

/-- A request of an exchange is reported as failed. -/
def sendFailed (id : ExchangeId) (message : JsonObject) (reason : String) :
    Proc StreamableSig Unit := do
  Proc.modify (S := StreamableSig) fun s => s.observe (.failed id)
  Proc.query (S := StreamableSig) (.sendFailed message reason)

/-- `failUnsent`. -/
def failUnsent (message : JsonObject) (reason : String) : Proc StreamableSig Unit := do
  Proc.query (S := StreamableSig) (.errorOccurred reason)
  if isJsonRpcRequest message then Proc.query (S := StreamableSig) (.sendFailed message reason)
  else pure ()

/-- `fail`. -/
def fail (id : ExchangeId) (reason : String) : Proc StreamableSig Unit := do
  Proc.query (S := StreamableSig) (.errorOccurred reason)
  let e ← Proc.reads (S := StreamableSig) (·.exchange id)
  if isJsonRpcRequest e.message && !e.answered then sendFailed id e.message reason
  else pure ()

/-- `failRequest`. -/
def failRequest (id : ExchangeId) (message : JsonObject) (reason : String) (body : Bytes) :
    Proc StreamableSig Unit := do
  let error := json.jsonRpcErrorIn body
  if error.isEmpty then sendFailed id message reason
  else do
    Proc.modify (S := StreamableSig) fun s => s.observe (.failed id)
    Proc.query (S := StreamableSig) (.messageReceived
      ((error.insert "jsonrpc" (.str "2.0")).insert "id" (message.value "id")))

/-- `receive`. -/
def receive (id : ExchangeId) (reply : JsonObject) : Proc StreamableSig Unit := do
  let e ← Proc.reads (S := StreamableSig) (·.exchange id)
  let answer := json.answers reply e.message
  (if answer then do
    Proc.modify (S := StreamableSig) fun s => s.update id fun e => { e with answered := true }
    let version := (((reply.value "result").toObject).value "protocolVersion").toString
    if isInitialize e.message && !version.isEmpty then
      Proc.modify (S := StreamableSig) fun s =>
        { s with protocolVersion := version, protocolVersionFrom := some e.session }
      openListenStream
    else pure ()
  else pure ())
  Proc.modify (S := StreamableSig) fun s => s.observe (.received id reply answer)
  Proc.query (S := StreamableSig) (.messageReceived reply)

/-- `deliverBody`. -/
def deliverBody (id : ExchangeId) : Proc StreamableSig Unit := do
  let e ← Proc.reads (S := StreamableSig) (·.exchange id)
  if e.response.statusCode = 202 ∨ e.response.body = [] then pure ()
  else if !e.response.hasContentType "application/json" then pure ()
  else
    match json.fromJson e.response.body with
    | .object reply => receive json id reply
    | _ => Proc.query (S := StreamableSig) (.errorOccurred "Invalid JSON response body")

/-- The loop over the events in `onChunk`. -/
def receiveEvents (id : ExchangeId) : List SSEEvent → Proc StreamableSig Unit
  | [] => pure ()
  | event :: events => do
      let e ← Proc.reads (S := StreamableSig) (·.exchange id)
      if e.done then pure ()
      else
        match messageOf json event.type event.data with
        | none => receiveEvents id events
        | some reply => do
            receive json id reply
            receiveEvents id events

/-- `onChunk`. -/
def onChunk (id : ExchangeId) (chunk : Bytes) : Proc StreamableSig Unit := do
  let e ← Proc.reads (S := StreamableSig) (·.exchange id)
  if !e.response.isEventStream then
    Proc.modify (S := StreamableSig) fun s => s.update id fun e =>
      { e with response := { e.response with body := e.response.body ++ chunk } }
  else do
    Proc.modify (S := StreamableSig) fun s => s.readEvents id chunk
    receiveEvents json id (e.events.append chunk).2
    let e ← Proc.reads (S := StreamableSig) (·.exchange id)
    if e.resuming && e.answered && !e.done then
      Proc.modify (S := StreamableSig) fun s => s.release id
    else pure ()

/-- `onFinished`. -/
def onFinished (id : ExchangeId) : Proc StreamableSig Unit := do
  let e ← Proc.reads (S := StreamableSig) (·.exchange id)
  let response := e.response
  let resumable :=
    response.isEventStream || (e.resuming && isTransientRefusal response.statusCode)
  if resumable && e.canResume then
    Proc.modify (S := StreamableSig) fun s => s.scheduleResume id
  else do
    Proc.modify (S := StreamableSig) fun s => s.release id
    if !response.isSuccess then do
      let reason := s!"HTTP error {response.statusCode}"
      Proc.query (S := StreamableSig) (.errorOccurred reason)
      (if isJsonRpcRequest e.message then failRequest json id e.message reason response.body
      else pure ())
      let sessionId ← Proc.reads (S := StreamableSig) (·.sessionId)
      if response.statusCode = 404 ∧ sessionId ≠ "" then
        Proc.modify (S := StreamableSig) fun s => { s with sessionId := "", sessionIdFrom := none }
        stop
      else pure ()
    else do
      (if response.isEventStream then pure () else deliverBody json id)
      let answered ← Proc.reads (S := StreamableSig) fun s => (s.exchange id).answered
      if isJsonRpcRequest e.message && !answered then
        sendFailed id e.message
          s!"HTTP {response.statusCode} reply carried no response to the request"
      else pure ()

/-- The slot of `HttpStreamHandle::errorOccurred`. -/
def onError (id : ExchangeId) (message : String) : Proc StreamableSig Unit := do
  let e ← Proc.reads (S := StreamableSig) (·.exchange id)
  if e.canResume then Proc.modify (S := StreamableSig) fun s => s.scheduleResume id
  else do
    Proc.modify (S := StreamableSig) fun s => s.release id
    fail id s!"HTTP error: {message}"

/-- `resume`. -/
def resume (id : ExchangeId) : Proc StreamableSig Unit := do
  let s ← Proc.read (S := StreamableSig)
  if (s.exchange id).done then pure ()
  else if !s.http then do
    Proc.modify (S := StreamableSig) fun s => s.release id
    fail id "HTTP transport destroyed"
  else if !s.opens then do
    Proc.modify (S := StreamableSig) fun s => s.release id
    fail id "HTTP transport opened no stream to resume the reply"
  else Proc.modify (S := StreamableSig) fun s => s.beginResume id

/-- The loop of `startNewSession`. -/
def supersede : List ExchangeId → Proc StreamableSig Unit
  | [] => pure ()
  | id :: rest => do
      let e ← Proc.reads (S := StreamableSig) (·.exchange id)
      (if isJsonRpcRequest e.message && !e.answered then
        sendFailed id e.message "Superseded by a new session"
      else pure ())
      supersede rest

/-- `startNewSession`. -/
def startNewSession : Proc StreamableSig Unit := do
  let pending ← Proc.reads (S := StreamableSig) (·.exchanges)
  Proc.modify (S := StreamableSig) beginSupersede
  supersede pending
  Proc.modify (S := StreamableSig) endSupersede

/-- `post`. -/
def post (message : JsonObject) : Proc StreamableSig Unit := do
  let http ← Proc.reads (S := StreamableSig) (·.http)
  if !http then failUnsent message "HTTP transport destroyed"
  else do
    (if isInitialize message then startNewSession else pure ())
    let s ← Proc.read (S := StreamableSig)
    if !s.http then do
      -- a slot of `sendFailed` has destroyed the transport, which is not looked at again
      let never : Empty ← Proc.query (S := StreamableSig) .terminate
      never.elim
    else if s.opens then Proc.modify (S := StreamableSig) fun s => s.newExchange message
    else failUnsent message "HTTP transport opened no stream"

/-- `send`. -/
def send (message : JsonObject) : Proc StreamableSig Unit := do
  let isOpen ← Proc.reads (S := StreamableSig) (·.isOpen)
  if isOpen then do
    Proc.modify (S := StreamableSig) fun s =>
      { s with sentMeanwhile := s.sentMeanwhile || decide (0 < s.superseding) }
    post message
  else Proc.query (S := StreamableSig) (.errorOccurred "Transport not open")

/-- `start`, of an endpoint that may be valid. -/
def start (isValid : Bool) : Proc StreamableSig Unit := do
  let isOpen ← Proc.reads (S := StreamableSig) (·.isOpen)
  if isOpen then pure ()
  else if !isValid then Proc.query (S := StreamableSig) (.errorOccurred "Invalid endpoint")
  else Proc.modify (S := StreamableSig) fun s => { s with isOpen := true }

/-- Is the exchange that of the request? -/
def isExchangeOf (s : StreamableHttpTransport) (requestId : String) (id : ExchangeId) : Bool :=
  isJsonRpcRequest (s.exchange id).message &&
    json.variantText ((s.exchange id).message.value "id") == requestId

/-- `abandonExchange`. -/
def abandonExchange (s : StreamableHttpTransport) (requestId : String) :
    StreamableHttpTransport :=
  match s.exchanges.find? (s.isExchangeOf json requestId) with
  | some id => (s.release id).observe (.abandoned id)
  | none => s

end Code

end StreamableHttpTransport

/-- The signals of a stream. -/
inductive StreamableSignal where
  | headersReceived (head : ResponseHead)
  | chunkReceived (chunk : Bytes)
  | finished
  | errorOccurred (message : String)
  | destroyed

/-- What happens to the transport and its server. -/
inductive StreamableEvent where
  | start (isValid : Bool)
  | stop
  | send (message : JsonObject)
  | abandon (requestId : String)
  /-- A signal of the stream of an exchange. -/
  | exchange (stream : StreamId) (id : ExchangeId) (signal : StreamableSignal)
  /-- A signal of the listen stream; if it ends, it was up for `elapsed` ms. -/
  | listen (stream : StreamId) (signal : StreamableSignal) (elapsed : Int)
  | resumeTimer (id : ExchangeId)
  | listenRetryTimer
  | httpDestroyed
  /-- The `HttpTransport` opens streams from now on, or none. -/
  | opens (opens : Bool)
  /-- The server sends an event. -/
  | serve (e : ServerEvent)
  /-- The server begins to answer the request for the listen stream. -/
  | answerListen

section Machine

variable (json : RpcCodec)

open StreamableHttpTransport in
/-- The code of each event. -/
def streamableEntry : StreamableEvent → Proc StreamableSig Unit
  | .start isValid => start isValid
  | .stop => stop
  | .send message => send message
  | .abandon requestId => Proc.modify (S := StreamableSig) fun s => s.abandonExchange json requestId
  | .exchange _ id (.headersReceived head) =>
      Proc.modify (S := StreamableSig) fun s => s.onHeaders id head
  | .exchange _ id (.chunkReceived chunk) => onChunk json id chunk
  | .exchange _ id .finished => onFinished json id
  | .exchange _ id (.errorOccurred message) => onError id message
  | .exchange stream id .destroyed => do
      Proc.modify (S := StreamableSig) fun s => (s.destroyStream stream).release id
      fail id "HTTP stream destroyed before the reply ended"
  | .listen _ (.headersReceived head) _ => onListenHeaders head.toHttpResponse
  | .listen _ (.chunkReceived chunk) _ => onListenChunk chunk
  | .listen _ .finished elapsed => onListenEnded elapsed
  | .listen _ (.errorOccurred _) elapsed => onListenEnded elapsed
  | .listen stream .destroyed elapsed => do
      Proc.modify (S := StreamableSig) fun s => s.destroyStream stream
      onListenEnded elapsed
  | .resumeTimer id => do
      Proc.modify (S := StreamableSig) fun s => s.update id fun e => { e with resumeTimer := none }
      resume id
  | .listenRetryTimer => do
      Proc.modify (S := StreamableSig) fun s => { s with listenRetryTimer := none }
      openListenStream
  | .httpDestroyed =>
      Proc.modify (S := StreamableSig) fun s =>
        { s with http := false, listenRetryTimer := none }
  | .opens opens => Proc.modify (S := StreamableSig) fun s => { s with opens }
  | .serve e => Proc.modify (S := StreamableSig) fun s => { s with served := s.served ++ [e] }
  | .answerListen =>
      Proc.modify (S := StreamableSig) fun s =>
        { s with listening := { s.listening with
            start := some (resumePlace s.served s.listening.lastEventId) } }

def streamableMachine : Machine StreamableSig where
  Event := StreamableEvent
  entry := streamableEntry json
  body _ := StreamableHttpTransport.deliverBacklog json

/-- Signals reach the transport while it is connected to their stream, and timers fire while they
run. -/
def StreamableEvent.Possible (s : StreamableHttpTransport) : StreamableEvent → Prop
  | .exchange stream id _ => (stream, some id) ∈ s.connected
  | .listen stream _ _ => (stream, none) ∈ s.connected
  | .resumeTimer id => (s.exchange id).resumeTimer.isSome
  | .listenRetryTimer => s.listenRetryTimer.isSome
  | _ => True

instance (s : StreamableHttpTransport) (e : StreamableEvent) : Decidable (e.Possible s) := by
  unfold StreamableEvent.Possible; split <;> infer_instance

end Machine

end LLMQore.Mcp
