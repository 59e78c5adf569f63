import Mathlib.Data.List.Infix
import LLMQore.Json
import LLMQore.Network.SSEParser
import LLMQore.Reentrant.Rules

/-!
# LLMQore.Mcp.SseHttpTransport

The client transport over HTTP with a standing stream of events (`McpSseHttpTransport`), as the
specification of 2024-11-05 has it.

The server announces over the stream where messages are to be posted. What is sent before is
queued, and posted when an endpoint of the same origin is announced. Slots of the transport's
signals may enter it again, and so may what happens while a message is handed to the
`HttpTransport`.
-/

namespace LLMQore.Mcp

open Reentrant Network

/-! ### URLs -/

/-- `QUrl`, of which the origin is looked at. -/
structure Url where
  scheme : String := ""
  host : String := ""
  port : Option Nat := none
  /-- The user information, the path, the query and the fragment. -/
  rest : String := ""
  deriving DecidableEq

namespace Url

/-- `QUrl::isEmpty`. -/
def isEmpty (url : Url) : Bool := url == {}

/-- `QUrl::isRelative`. -/
def isRelative (url : Url) : Bool := url.scheme.isEmpty

/-- `effectivePort`. -/
def effectivePort (url : Url) : Nat := url.port.getD (if url.scheme = "https" then 443 else 80)

/-- `isSameOrigin`. -/
def isSameOrigin (url origin : Url) : Bool :=
  url.scheme == origin.scheme && url.host == origin.host &&
    url.effectivePort == origin.effectivePort

end Url

/-- What `QUrl` does with texts. Nothing is assumed of it. -/
structure UrlReader where
  /-- `QUrl(QString::fromUtf8(data).trimmed())` -/
  parse : Bytes → Url
  /-- `QUrl::resolved`, of the first against the second. -/
  resolved : Url → Url → Url
  isValid : Url → Bool
  toString : Url → String

/-- The endpoint an event announces. -/
def UrlReader.announced (urls : UrlReader) (endpoint : Url) (data : Bytes) : Url :=
  let ep := urls.parse data
  if ep.isRelative then urls.resolved ep endpoint else ep

/-! ### The transport -/

/-- The identity of a stream. -/
abbrev StreamId := Nat

/-- A message that was sent, and what an observer knows of it. -/
structure Outbound where
  message : JsonObject
  /-- The number of messages sent before it. -/
  number : Nat
  /-- The stream that was open when it was sent. -/
  stream : Option StreamId
  /-- It was sent before an endpoint was announced. -/
  early : Bool
  deriving DecidableEq

/-- What an observer sees. -/
inductive SseObservation where
  | sent (m : Outbound)
  /-- A `POST` was handed to the `HttpTransport`, over the stream that was open then. -/
  | posted (m : Outbound) (stream : Option StreamId) (url : Url)
  /-- An endpoint was announced over the stream, and accepted. -/
  | announced (stream : Option StreamId) (url : Url)

structure SseHttpTransport where
  /-- `http` is not null. -/
  http : Bool := true
  isOpen : Bool := false
  sseStream : Option StreamId := none
  /-- The streams whose signals reach the transport. -/
  connected : List StreamId := []
  sseParser : SSEParser := {}
  postEndpoint : Url := {}
  pendingSends : List Outbound := []
  nextStream : StreamId := 0
  nextNumber : Nat := 0
  /-- What an observer sees, newest first. No code reads it. -/
  history : List SseObservation := []

/-- What the transport calls out to. -/
inductive SseOut where
  | errorOccurred (reason : String)
  | messageReceived (message : JsonObject)
  | sendFailed (message : JsonObject) (reason : String)
  | closed
  /-- `http->send` -/
  | httpSend (url : Url) (message : JsonObject)

abbrev SseSig : Sig where
  State := SseHttpTransport
  Out := SseOut
  Ans _ := Unit
  Fn := Empty
  Res f := f.elim

namespace SseHttpTransport

def observe (s : SseHttpTransport) (o : SseObservation) : SseHttpTransport :=
  { s with history := o :: s.history }

/-- `resetSession`. -/
def resetSession (s : SseHttpTransport) : SseHttpTransport :=
  { s with sseParser := s.sseParser.clear, postEndpoint := {}, pendingSends := [] }

/-- `sseStream->disconnect(q)`, and the stream is let go. -/
def dropStream (s : SseHttpTransport) : SseHttpTransport :=
  match s.sseStream with
  | some id => { s with connected := s.connected.filter (· != id), sseStream := none }
  | none => s

/-- The stream is gone, and a `QPointer` to it is null. -/
def destroyStream (s : SseHttpTransport) (id : StreamId) : SseHttpTransport :=
  { s with
    connected := s.connected.filter (· != id)
    sseStream := if s.sseStream = some id then none else s.sseStream }

/-- A new stream, connected to the transport. -/
def connect (s : SseHttpTransport) : SseHttpTransport :=
  { s with
    isOpen := true
    sseStream := some s.nextStream
    connected := s.nextStream :: s.connected
    nextStream := s.nextStream + 1 }

/-- The next message, sent now. -/
def outbound (s : SseHttpTransport) (message : JsonObject) : Outbound where
  message
  number := s.nextNumber
  stream := s.sseStream
  early := s.postEndpoint.isEmpty

/-- A message is sent. -/
def number (s : SseHttpTransport) (m : Outbound) : SseHttpTransport :=
  { s with nextNumber := s.nextNumber + 1 }.observe (.sent m)

section Code

variable (json : JsonCodec) (urls : UrlReader) (endpoint : Url)

/-- `openStream`, where the `HttpTransport` opens a stream or returns null. -/
def openStream (opens : Bool) : Proc SseSig Unit := do
  let http ← Proc.reads (S := SseSig) (·.http)
  if !http then
    Proc.query (S := SseSig) (.errorOccurred "HTTP transport destroyed")
  else if !opens then
    Proc.modify (S := SseSig) fun s => { s with sseStream := none }
    Proc.query (S := SseSig) (.errorOccurred "HTTP transport opened no SSE stream")
  else
    Proc.modify (S := SseSig) connect

/-- `start`. -/
def start (opens : Bool) : Proc SseSig Unit := do
  let isOpen ← Proc.reads (S := SseSig) (·.isOpen)
  if isOpen then pure ()
  else if !urls.isValid endpoint then
    Proc.query (S := SseSig) (.errorOccurred "Invalid endpoint")
  else openStream opens

/-- `stop`. -/
def stop : Proc SseSig Unit := do
  let isOpen ← Proc.reads (S := SseSig) (·.isOpen)
  if isOpen then
    Proc.modify (S := SseSig) fun s => { s with isOpen := false }.dropStream.resetSession
    Proc.query (S := SseSig) .closed
  else pure ()

/-- `onFinished`. -/
def onFinished : Proc SseSig Unit := do
  Proc.modify (S := SseSig) fun s => s.dropStream.resetSession
  let isOpen ← Proc.reads (S := SseSig) (·.isOpen)
  if isOpen then
    Proc.modify (S := SseSig) fun s => { s with isOpen := false }
    Proc.query (S := SseSig) .closed
  else pure ()

/-- `stillCurrent`. -/
def stillCurrent (stream : Option StreamId) : Proc SseSig Bool :=
  Proc.reads (S := SseSig) fun s => s.sseStream == stream

/-- `reportError`. -/
def reportError (reason : String) : Proc SseSig Bool := do
  let stream ← Proc.reads (S := SseSig) (·.sseStream)
  Proc.query (S := SseSig) (.errorOccurred reason)
  stillCurrent stream

/-- `onHeaders`, of the status and the content type of the response. -/
def onHeaders (statusCode : Int) (contentType : String) : Proc SseSig Unit := do
  let reason :=
    if !(200 ≤ statusCode && statusCode < 300) then s!"SSE stream rejected (HTTP {statusCode})"
    else if !decide ("text/event-stream".toList <:+: contentType.toList) then
      s!"SSE stream is not text/event-stream: {contentType}"
    else ""
  if reason.isEmpty then pure ()
  else
    let current ← reportError reason
    if current then stop else pure ()

/-- `isJsonRpcRequest`. -/
def isJsonRpcRequest (message : JsonObject) : Bool :=
  message.contains "method" && message.contains "id"

/-- `failPost`. -/
def failPost (message : JsonObject) (reason : String) : Proc SseSig Unit := do
  Proc.query (S := SseSig) (.errorOccurred reason)
  if isJsonRpcRequest message then Proc.query (S := SseSig) (.sendFailed message reason)
  else pure ()

/-- `post`. -/
def post (m : Outbound) : Proc SseSig Unit := do
  let s ← Proc.read (S := SseSig)
  if s.postEndpoint.isEmpty then
    Proc.modify (S := SseSig) fun s => { s with pendingSends := s.pendingSends ++ [m] }
  else if !s.http then failPost m.message "HTTP transport destroyed"
  else
    Proc.modify (S := SseSig) fun s => s.observe (.posted m s.sseStream s.postEndpoint)
    Proc.query (S := SseSig) (.httpSend s.postEndpoint m.message)

/-- The loop over the queue in `onChunk`, and whether the stream is still current after it. -/
def flush (stream : Option StreamId) : List Outbound → Proc SseSig Bool
  | [] => pure true
  | m :: queued => do
      post m
      let current ← stillCurrent stream
      if current then flush stream queued else pure false

/-- `jsonRpcMessageIn`. -/
def jsonRpcMessageIn (ev : SSEEvent) : JsonObject := (json.fromJson ev.data).toObject

/-- The loop over the events in `onChunk`. -/
def handleEvents (stream : Option StreamId) : List SSEEvent → Proc SseSig Unit
  | [] => pure ()
  | ev :: events =>
      if ev.type = "endpoint" then
        let ep := urls.announced endpoint ev.data
        if !ep.isSameOrigin endpoint then do
          let current ←
            reportError s!"SSE endpoint outside the connection origin: {urls.toString ep}"
          if current then stop else pure ()
        else do
          Proc.modify (S := SseSig) fun s =>
            { s with postEndpoint := ep }.observe (.announced s.sseStream ep)
          let queued ← Proc.reads (S := SseSig) (·.pendingSends)
          Proc.modify (S := SseSig) fun s => { s with pendingSends := [] }
          let current ← flush stream queued
          if current then handleEvents stream events else pure ()
      else if ev.type = "message" then
        let message := jsonRpcMessageIn json ev
        if message.isEmpty then handleEvents stream events
        else do
          Proc.query (S := SseSig) (.messageReceived message)
          let current ← stillCurrent stream
          if current then handleEvents stream events else pure ()
      else handleEvents stream events

/-- `onChunk`. -/
def onChunk (chunk : Bytes) : Proc SseSig Unit := do
  let stream ← Proc.reads (S := SseSig) (·.sseStream)
  let events ← Proc.reads (S := SseSig) fun s => (s.sseParser.append chunk).2
  Proc.modify (S := SseSig) fun s => { s with sseParser := (s.sseParser.append chunk).1 }
  handleEvents json urls endpoint stream events

/-- The slot of `HttpStreamHandle::errorOccurred`. -/
def onStreamError (message : String) : Proc SseSig Unit := do
  let current ← reportError s!"SSE stream error: {message}"
  if current then onFinished else pure ()

/-- `send`. -/
def send (message : JsonObject) : Proc SseSig Unit := do
  let s ← Proc.read (S := SseSig)
  if s.isOpen then
    Proc.modify (S := SseSig) fun s => s.number (s.outbound message)
    post (s.outbound message)
  else
    Proc.query (S := SseSig) (.errorOccurred "Transport not open")

end Code

end SseHttpTransport

/-- The signals of a stream. -/
inductive StreamSignal where
  | headersReceived (statusCode : Int) (contentType : String)
  | chunkReceived (chunk : Bytes)
  | finished
  | errorOccurred (message : String)
  | destroyed

/-- The events that reach the transport. -/
inductive SseTransportEvent where
  /-- `start`, and whether the `HttpTransport` opens a stream. -/
  | start (opens : Bool)
  | stop
  | send (message : JsonObject)
  | stream (id : StreamId) (signal : StreamSignal)
  /-- The `POST` of a message failed, or was answered with an error. -/
  | postFailed (message : JsonObject) (reason : String)
  /-- The `HttpTransport` is gone. -/
  | httpDestroyed

section Machine

variable (json : JsonCodec) (urls : UrlReader) (endpoint : Url)

open SseHttpTransport in
/-- The code of each event. -/
def sseEntry : SseTransportEvent → Proc SseSig Unit
  | .start opens => start urls endpoint opens
  | .stop => stop
  | .send message => send message
  | .stream _ (.headersReceived statusCode contentType) => onHeaders statusCode contentType
  | .stream _ (.chunkReceived chunk) => onChunk json urls endpoint chunk
  | .stream _ .finished => onFinished
  | .stream _ (.errorOccurred message) => onStreamError message
  | .stream id .destroyed => do
      Proc.modify (S := SseSig) fun s => s.destroyStream id
      onFinished
  | .postFailed message reason => failPost message reason
  | .httpDestroyed => Proc.modify (S := SseSig) fun s => { s with http := false }

def sseMachine : Machine SseSig where
  Event := SseTransportEvent
  entry := sseEntry json urls endpoint
  body f := f.elim

/-- The signals of a stream reach the transport while it is connected to them. -/
def SseTransportEvent.Possible (s : SseHttpTransport) : SseTransportEvent → Prop
  | .stream id _ => id ∈ s.connected
  | _ => True

end Machine

end LLMQore.Mcp
