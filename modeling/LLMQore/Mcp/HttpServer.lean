import LLMQore.Rpc.Session
import LLMQore.Reentrant.Rules

/-!
# LLMQore.Mcp.HttpServer

The MCP HTTP server transport (`McpHttpServerTransport`) driving a
`JsonRpcSession`.

The transport hands every message it reads to the session at once: the session's
slots are its only receivers here. What a socket does is up to its surroundings:
which requests its parser finds in the bytes that arrived, when it leaves the
connected state, when its `disconnected` signal is delivered and when the object
is gone. Writing to a socket, closing it and asking its parser are call-outs, so
any of this may also happen inside them.

A pending entry carries the tag of the request it was made for, for the observer
only, and so does a message in a response.
-/

namespace LLMQore.Mcp

open Reentrant Rpc

/-- The identity of a socket. -/
abbrev SocketId := Nat
/-- The identity of a timer. -/
abbrev TimerId := Nat

/-- `HttpServerConfig`. -/
structure HttpServerConfig where
  path : String := "/mcp"
  allowedOrigins : List String := []
  maxQueuedServerMessages : Int := 1024

/-- A request the parser took, its body read as JSON; `none` is a body that is not. -/
structure HttpRequest where
  method : String
  target : String
  headers : List (String × String) := []
  body : Option JsonValue := none

/-- `HttpRequest::header`: names compare without case. -/
def HttpRequest.header (req : HttpRequest) (name : String) : String :=
  ((req.headers.find? fun h => h.1.toLower == name.toLower).map Prod.snd).getD ""

/-- `HttpRequestParser::Status`, a complete request with what `takeRequest` gives. -/
inductive ParseResult where
  | needMoreData
  | complete (req : HttpRequest)
  | headerOverflow
  | bodyTooLarge
  | invalidContentLength
  | invalidRequestLine

/-- `PendingRequestEntry`. -/
structure PendingRequestEntry where
  socket : SocketId
  timeoutTimer : TimerId
  tag : RequestTag

/-- A response as written to a socket. The length of a body of messages is left to
its encoding. -/
structure HttpResponse where
  status : Nat
  reason : String
  headers : List (String × String)
  /-- The JSON-RPC messages in the body, each with the request it answers. -/
  body : List (JsonObject × Option RequestTag) := []

inductive HttpObservation where
  /-- A request was taken from the parser of a connection. -/
  | read (client : SocketId) (req : HttpRequest)
  /-- A JSON-RPC request read from a socket was put in `pendingByRequestId`. -/
  | registered (client : SocketId) (tag : RequestTag) (message : JsonObject)
  | wrote (client : SocketId) (response : HttpResponse)

/-- What happens to the messages in the queue. -/
inductive QueueObservation where
  /-- `send` put a message in the queue. -/
  | queued (message : JsonObject)
  /-- The message was dropped to keep the budget. -/
  | overflowed (message : JsonObject)
  /-- The queue was emptied, and its messages written to a socket that is connected. -/
  | flushed (client : SocketId) (messages : List JsonObject)
  /-- The queue was emptied, and its messages written to a socket that is not. -/
  | lost (client : SocketId) (messages : List JsonObject)
  /-- The queue was emptied at the end of the session, or by `stop`. -/
  | discarded (messages : List JsonObject)

/-- The state of a `McpHttpServerTransport`, its session and its sockets. -/
structure HttpServer where
  config : HttpServerConfig := {}
  session : Session := {}
  isOpen : Bool := false
  sessionId : String := ""
  endedSessions : Finset String := ∅
  /-- The keys of `connections`. -/
  connections : Finset SocketId := ∅
  /-- The sockets whose signals still reach the transport. -/
  subscribed : Finset SocketId := ∅
  /-- The sockets in `ConnectedState`. -/
  connected : Finset SocketId := ∅
  /-- The sockets that are gone, so that a `QPointer` to them is null. -/
  deleted : Finset SocketId := ∅
  pendingByRequestId : AList (fun _ : String => PendingRequestEntry) := ∅
  /-- The running timers, each with the id its slot has captured. -/
  timers : AList (fun _ : TimerId => String) := ∅
  queuedServerMessages : List JsonObject := []
  nextSocket : SocketId := 0
  nextTimer : TimerId := 0
  log : List HttpObservation := []
  queueHistory : List QueueObservation := []
  /-- How many calls of `endSession` and `stop` are under way, as the observer counts them. -/
  closings : Nat := 0

namespace HttpServer

def observe (s : HttpServer) (o : HttpObservation) : HttpServer := { s with log := o :: s.log }

/-- `enforceQueueBudget`. -/
def enforceQueueBudget (s : HttpServer) : HttpServer :=
  let cap := s.config.maxQueuedServerMessages
  if cap ≤ 0 then s
  else
    let excess := s.queuedServerMessages.length - cap.toNat
    { s with
      queuedServerMessages := s.queuedServerMessages.drop excess
      queueHistory :=
        ((s.queuedServerMessages.take excess).map .overflowed).reverse ++ s.queueHistory }

/-- A message is put in the queue. -/
def enqueue (s : HttpServer) (message : JsonObject) : HttpServer :=
  { s with
    queuedServerMessages := s.queuedServerMessages ++ [message]
    queueHistory := .queued message :: s.queueHistory }.enforceQueueBudget

/-- The queue is emptied, to be written to a socket. -/
def takeQueue (s : HttpServer) (client : SocketId) : HttpServer :=
  { s with
    queuedServerMessages := []
    queueHistory :=
      (if client ∈ s.connected then .flushed client s.queuedServerMessages
        else .lost client s.queuedServerMessages) :: s.queueHistory }

/-- The queue is emptied, and what was in it is not written. -/
def discardQueue (s : HttpServer) : HttpServer :=
  { s with
    queuedServerMessages := []
    queueHistory := .discarded s.queuedServerMessages :: s.queueHistory }

/-- Stop the timer of an entry and erase it. -/
def dropEntry (s : HttpServer) (idStr : String) (entry : PendingRequestEntry) : HttpServer :=
  { s with
    timers := s.timers.erase entry.timeoutTimer
    pendingByRequestId := s.pendingByRequestId.erase idStr }

/-- The loop of `onDisconnected` over the pending entries. -/
def dropEntriesOf (client : SocketId) :
    List (Sigma fun _ : String => PendingRequestEntry) → HttpServer → HttpServer
  | [], s => s
  | ⟨idStr, entry⟩ :: rest, s =>
      dropEntriesOf client rest
        (if entry.socket ∈ s.deleted ∨ entry.socket = client then s.dropEntry idStr entry else s)

/-- Stop the timers of all entries, then forget the entries. -/
def clearPending (s : HttpServer) : HttpServer :=
  { s with
    timers := s.pendingByRequestId.entries.foldl
      (fun timers e => timers.erase e.2.timeoutTimer) s.timers
    pendingByRequestId := ∅ }

/-- `standardResponseHeaders`. -/
def standardResponseHeaders (s : HttpServer) (extra : List (String × String)) :
    List (String × String) :=
  [("Mcp-Session-Id", s.sessionId), ("Access-Control-Allow-Origin", "*"),
    ("Cache-Control", "no-store")] ++ extra

/-- The checks `processRequest` makes before it looks at a request's body. -/
def rejection (s : HttpServer) (req : HttpRequest) : Option (Nat × String) :=
  let targetPath := String.ofList (req.target.toList.takeWhile (· ≠ '?'))
  let incomingSession := req.header "mcp-session-id"
  if targetPath ≠ s.config.path then some (404, "Not Found")
  else if s.config.allowedOrigins ≠ [] ∧ req.header "origin" ∉ s.config.allowedOrigins then
    some (403, "Forbidden")
  else if incomingSession ∈ s.endedSessions then some (404, "Not Found")
  else if incomingSession ≠ "" ∧ incomingSession ≠ s.sessionId then some (400, "Bad Request")
  else none

/-- The JSON-RPC message a `POST` carries. -/
def postedMessage (req : HttpRequest) : Option JsonObject :=
  match req.body with
  | some (.obj msg) =>
      if (JsonObject.value msg "jsonrpc").toString = "2.0" then some msg else none
  | _ => none

end HttpServer

/-! ### The surroundings of the code -/

/-- What the transport and its session call out to. -/
inductive HttpOut where
  | parseNext (client : SocketId)
  | flush (client : SocketId)
  | disconnectFromHost (client : SocketId)
  | abort (client : SocketId)
  | listen
  | createUuid
  | errorOccurred (reason : String)
  | emit (signal : Signal)
  | handle (tag : RequestTag) (method : String) (params : JsonObject)
  | notify (method : String) (params : JsonObject)
  | progress (token : String) (progress total : Rat) (message : String)

def HttpOut.Ans : HttpOut → Type
  | .parseNext _ => ParseResult
  | .listen => Bool
  | .createUuid => String
  | .handle .. => Except Exn Unit
  | _ => Unit

/-- The loop of `onReadyRead`. -/
inductive HttpFn where
  | readLoop (client : SocketId)

abbrev HttpSig : Sig where
  State := HttpServer
  Out := HttpOut
  Ans := HttpOut.Ans
  Fn := HttpFn
  Res _ := Unit

namespace HttpServer

/-! ### Writing -/

/-- `client->write(...)`, then `client->flush()`. -/
def write (client : SocketId) (response : HttpResponse) : Proc HttpSig Unit := do
  Proc.modify (S := HttpSig) fun s => s.observe (.wrote client response)
  Proc.query (S := HttpSig) (.flush client)

/-- `client->disconnectFromHost()`: the socket leaves the connected state. -/
def disconnectFromHost (client : SocketId) : Proc HttpSig Unit := do
  Proc.modify (S := HttpSig) fun s => { s with connected := s.connected.erase client }
  Proc.query (S := HttpSig) (.disconnectFromHost client)

/-- `writeStatus`. -/
def writeStatus (client : SocketId) (status : Nat) (reason : String)
    (headers : List (String × String)) : Proc HttpSig Unit :=
  write client { status, reason, headers }

/-- `respondWithStatus`. -/
def respondWithStatus (client : SocketId) (status : Nat) (reason : String) :
    Proc HttpSig Unit := do
  writeStatus client status reason [("Content-Length", "0"), ("Connection", "close")]
  disconnectFromHost client

/-- `writeSseResponse`. -/
def writeSseResponse (client : SocketId) (body : List (JsonObject × Option RequestTag)) :
    Proc HttpSig Unit := do
  let headers ← Proc.reads (S := HttpSig) fun s =>
    s.standardResponseHeaders [("Content-Type", "text/event-stream")]
  write client { status := 200, reason := "OK", headers, body }

/-- `writeJsonResponse`. -/
def writeJsonResponse (client : SocketId) (message : JsonObject) (answers : Option RequestTag) :
    Proc HttpSig Unit := do
  let headers ← Proc.reads (S := HttpSig) fun s =>
    s.standardResponseHeaders [("Content-Type", "application/json")]
  write client { status := 200, reason := "OK", headers, body := [(message, answers)] }

/-- The queued messages, as they go into a body. -/
def queuedBody (s : HttpServer) : List (JsonObject × Option RequestTag) :=
  s.queuedServerMessages.map fun message => (message, none)

/-- `writeAckOrQueuedMessages`. -/
def writeAckOrQueuedMessages (client : SocketId) : Proc HttpSig Unit := do
  let s ← Proc.read (S := HttpSig)
  if s.queuedServerMessages.isEmpty then
    writeStatus client 202 "Accepted" (s.standardResponseHeaders [("Content-Length", "0")])
    disconnectFromHost client
  else
    Proc.modify (S := HttpSig) fun s => s.takeQueue client
    writeSseResponse client s.queuedBody
    disconnectFromHost client

/-- Write an answer to the socket that waits for it, behind the queued messages. -/
def writeAnswer (client : SocketId) (message : JsonObject) (answers : Option RequestTag) :
    Proc HttpSig Unit := do
  let s ← Proc.read (S := HttpSig)
  if s.queuedServerMessages.isEmpty then
    writeJsonResponse client message answers
    disconnectFromHost client
  else
    Proc.modify (S := HttpSig) fun s => s.takeQueue client
    writeSseResponse client (s.queuedBody ++ [(message, answers)])
    disconnectFromHost client

/-- Does `send` take the message for an answer? -/
def isAnswer (message : JsonObject) : Bool :=
  message.contains "id" && !(message.value "id").isNull &&
    (message.contains "result" || message.contains "error")

/-- `send`. -/
def send (answers : Option RequestTag) (message : JsonObject) : Proc HttpSig Unit := do
  let s ← Proc.read (S := HttpSig)
  if !s.isOpen then
    Proc.query (S := HttpSig) (.errorOccurred "Transport not open")
  else if isAnswer message then
    let idStr := idToString (message.value "id")
    match s.pendingByRequestId.lookup idStr with
    | none => pure ()
    | some entry =>
        Proc.modify (S := HttpSig) fun s => s.dropEntry idStr entry
        if entry.socket ∉ s.deleted ∧ entry.socket ∈ s.connected then
          writeAnswer entry.socket message answers
  else
    Proc.modify (S := HttpSig) fun s => s.enqueue message

/-- The session over this transport, which does not override `abandon`. -/
def host : SessionHost HttpSig where
  session s := s.session
  withSession s session := { s with session }
  isOpen s := s.isOpen
  send := send
  abandon _ := pure ()
  emit signal := Proc.query (S := HttpSig) (.emit signal)
  handle tag method params := Proc.query (S := HttpSig) (.handle tag method params)
  notify method params := Proc.query (S := HttpSig) (.notify method params)
  progress token progress total message :=
    Proc.query (S := HttpSig) (.progress token progress total message)

/-! ### Reading -/

/-- The loop of `endSession` over the pending entries. -/
def disconnectEntries :
    List (Sigma fun _ : String => PendingRequestEntry) → Proc HttpSig Unit
  | [] => pure ()
  | ⟨_, entry⟩ :: rest => do
      Proc.modify (S := HttpSig) fun s => { s with timers := s.timers.erase entry.timeoutTimer }
      if entry.socket ∈ (← Proc.reads (S := HttpSig) (·.deleted)) then
        disconnectEntries rest
      else
        disconnectFromHost entry.socket
        disconnectEntries rest

/-- `endSession`. -/
def endSession : Proc HttpSig Unit := do
  Proc.modify (S := HttpSig) fun s => { s with closings := s.closings + 1 }
  let pending ← Proc.reads (S := HttpSig) (·.pendingByRequestId)
  disconnectEntries pending.entries
  Proc.modify (S := HttpSig) fun s =>
    { s.discardQueue with
      pendingByRequestId := ∅
      endedSessions := insert s.sessionId s.endedSessions
      closings := s.closings - 1 }
  let sessionId ← Proc.query (S := HttpSig) .createUuid
  Proc.modify (S := HttpSig) fun s => { s with sessionId }

/-- Put a request read from a socket in `pendingByRequestId`. It will be the next
request the session receives. -/
def register (client : SocketId) (msg : JsonObject) (s : HttpServer) : HttpServer :=
  let idStr := idToString (msg.value "id")
  { s with
    nextTimer := s.nextTimer + 1
    timers := s.timers.insert s.nextTimer idStr
    pendingByRequestId :=
      s.pendingByRequestId.insert idStr ⟨client, s.nextTimer, s.session.nextTag⟩
    }.observe (.registered client s.session.nextTag msg)

/-- The part of `processRequest` that handles the message of a `POST`. -/
def processMessage (client : SocketId) (msg : JsonObject) : Proc HttpSig Unit := do
  if classify msg = .request then
    let pending ← Proc.reads (S := HttpSig) (·.pendingByRequestId)
    let idStr := idToString (msg.value "id")
    if idStr.isEmpty then
      respondWithStatus client 400 "Bad Request"
    else if (pending.lookup idStr).isSome then
      respondWithStatus client 400 "Bad Request"
    else
      Proc.modify (S := HttpSig) (register client msg)
      host.onMessageReceived msg
  else
    host.onMessageReceived msg
    writeAckOrQueuedMessages client

/-- `processRequest`. -/
def processRequest (client : SocketId) (req : HttpRequest) : Proc HttpSig Unit := do
  let s ← Proc.read (S := HttpSig)
  if req.method ≠ "POST" ∧ req.method ≠ "DELETE" then
    writeStatus client 405 "Method Not Allowed"
      [("Allow", "POST, DELETE"), ("Content-Length", "0"), ("Connection", "close")]
    disconnectFromHost client
  else
    match s.rejection req with
    | some (status, reason) => respondWithStatus client status reason
    | none =>
        if req.method = "DELETE" then
          if req.header "mcp-session-id" = "" then
            respondWithStatus client 400 "Bad Request"
          else
            endSession
            respondWithStatus client 200 "OK"
        else
          match postedMessage req with
          | none => respondWithStatus client 400 "Bad Request"
          | some msg => processMessage client msg

/-- The body of the loop of `onReadyRead`. -/
def readLoop (client : SocketId) : Proc HttpSig Unit := do
  match ← Proc.query (S := HttpSig) (.parseNext client) with
  | .needMoreData => pure ()
  | .complete req =>
      Proc.modify (S := HttpSig) fun s => s.observe (.read client req)
      processRequest client req
      let s ← Proc.read (S := HttpSig)
      if client ∈ s.connections ∧ client ∈ s.connected then
        Proc.invoke (S := HttpSig) (.readLoop client)
      else
        pure ()
  | .headerOverflow => respondWithStatus client 431 "Request Header Fields Too Large"
  | .bodyTooLarge => respondWithStatus client 413 "Payload Too Large"
  | .invalidContentLength => respondWithStatus client 400 "Bad Request"
  | .invalidRequestLine => respondWithStatus client 400 "Bad Request"

/-- `onReadyRead`. -/
def onReadyRead (client : SocketId) : Proc HttpSig Unit := do
  if client ∈ (← Proc.reads (S := HttpSig) (·.connections)) then
    Proc.invoke (S := HttpSig) (.readLoop client)
  else
    pure ()

/-! ### Connections and timers -/

/-- A new connection, as `onNewConnection` takes it. -/
def accept (s : HttpServer) : HttpServer :=
  { s with
    nextSocket := s.nextSocket + 1
    connections := insert s.nextSocket s.connections
    subscribed := insert s.nextSocket s.subscribed
    connected := insert s.nextSocket s.connected }

/-- `onNewConnection`, with the number of connections that wait. -/
def onNewConnection (count : Nat) : Proc HttpSig Unit :=
  Proc.modify (S := HttpSig) (accept^[count])

/-- `onDisconnected`. -/
def onDisconnected (client : SocketId) : Proc HttpSig Unit :=
  Proc.modify (S := HttpSig) fun s =>
    dropEntriesOf client s.pendingByRequestId.entries
      { s with connections := s.connections.erase client }

/-- The slot of a pending entry's timer. -/
def onPendingTimeout (idStr : String) : Proc HttpSig Unit := do
  let s ← Proc.read (S := HttpSig)
  match s.pendingByRequestId.lookup idStr with
  | none => pure ()
  | some entry =>
      Proc.modify (S := HttpSig) fun s =>
        { s with pendingByRequestId := s.pendingByRequestId.erase idStr }
      if entry.socket ∉ s.deleted ∧ entry.socket ∈ s.connected then
        writeStatus entry.socket 504 "Gateway Timeout"
          [("Content-Length", "0"), ("Connection", "close")]
        disconnectFromHost entry.socket

/-- A running timer fires; it is single-shot. -/
def pendingTimeout (timer : TimerId) : Proc HttpSig Unit := do
  match (← Proc.reads (S := HttpSig) (·.timers)).lookup timer with
  | none => pure ()
  | some idStr =>
      Proc.modify (S := HttpSig) fun s => { s with timers := s.timers.erase timer }
      onPendingTimeout idStr

/-! ### Life cycle -/

/-- `start`. -/
def start : Proc HttpSig Unit := do
  if ← Proc.reads (S := HttpSig) (·.isOpen) then
    pure ()
  else
    let listening : Bool ← Proc.query (S := HttpSig) .listen
    if listening then
      Proc.modify (S := HttpSig) fun s => { s with isOpen := true }
    else
      Proc.query (S := HttpSig) (.errorOccurred "Failed to listen")

/-- The loop of `stop` over the sockets. -/
def abortSockets : List SocketId → Proc HttpSig Unit
  | [] => pure ()
  | client :: rest => do
      Proc.modify (S := HttpSig) fun s =>
        { s with
          subscribed := s.subscribed.erase client
          connected := s.connected.erase client }
      Proc.query (S := HttpSig) (.abort client)
      abortSockets rest

/-- `stop`; `closed` reaches the session. The order in which a hash lists its keys
is taken to be that of the sockets' identities. -/
def stop : Proc HttpSig Unit := do
  let s ← Proc.read (S := HttpSig)
  if s.isOpen then
    Proc.modify (S := HttpSig) fun s => { s with isOpen := false, closings := s.closings + 1 }
    abortSockets ((List.range s.nextSocket).filter (· ∈ s.connections))
    Proc.modify (S := HttpSig) fun s =>
      { s.clearPending.discardQueue with connections := ∅, closings := s.closings - 1 }
    host.onTransportClosed
  else
    pure ()

end HttpServer

/-! ### The machine -/

/-- The events that reach the transport and its session. -/
inductive HttpEvent where
  /-- Calls of the session's API, its timers, and its handlers' futures. -/
  | session (c : SessionCall)
  | start
  | stop
  | newConnection (count : Nat)
  | readyRead (client : SocketId)
  /-- A socket leaves the connected state; its signal may come later. -/
  | connectionLost (client : SocketId)
  | disconnected (client : SocketId)
  | socketDeleted (client : SocketId)
  | pendingTimeout (timer : TimerId)

/-- The code of each event. -/
def httpEntry : HttpEvent → Proc HttpSig Unit
  | .session c => HttpServer.host.call c
  | .start => HttpServer.start
  | .stop => HttpServer.stop
  | .newConnection count => HttpServer.onNewConnection count
  | .readyRead client => do
      if client ∈ (← Proc.reads (S := HttpSig) (·.subscribed)) then
        HttpServer.onReadyRead client
      else
        pure ()
  | .connectionLost client =>
      Proc.modify (S := HttpSig) fun s => { s with connected := s.connected.erase client }
  | .disconnected client => do
      Proc.modify (S := HttpSig) fun s => { s with connected := s.connected.erase client }
      if client ∈ (← Proc.reads (S := HttpSig) (·.subscribed)) then
        HttpServer.onDisconnected client
      else
        pure ()
  | .socketDeleted client =>
      Proc.modify (S := HttpSig) fun s =>
        { s with
          connected := s.connected.erase client
          subscribed := s.subscribed.erase client
          deleted := insert client s.deleted }
  | .pendingTimeout timer => HttpServer.pendingTimeout timer

def httpMachine : Machine HttpSig where
  Event := HttpEvent
  entry := httpEntry
  body | .readLoop client => HttpServer.readLoop client

end LLMQore.Mcp
