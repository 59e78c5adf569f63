import LLMQore.Core.ActiveRequest
import LLMQore.Reentrant.Implement

/-!
# LLMQore.Core.BaseClient

The client (`BaseClient`) over any provider: its requests, the streams and buffered posts
they wait for, their rounds of tools and their one-shot promises.

The tools manager belongs to the client and calls out through it (`hostedTools`): its
signal `toolExecutionComplete` first enters `handleToolsCompleted`. A manager without
tools and rounds does what no manager does, so the client always has one.

Slots of the client's signals, gates, the bodies of tools and the transport are call-outs.
What a gate or the body of a tool throws passes through the client; out of a slot of a
stream it would end the program, and so it does here.

`ClientState.history` records what an observer sees, newest first. No code reads it. The
data of a stream and what is made of it carry the address of the stream, which beyond the
slots of the stream is for the observer only.
-/

namespace LLMQore

open Reentrant Network Tools

/-- The identity of a one-shot promise. -/
abbrev PromiseRef := Nat
/-- The identity of a buffered post. -/
abbrev SendRef := Nat

structure HttpResponse where
  statusCode : Int
  body : Bytes

def HttpResponse.isSuccess (r : HttpResponse) : Bool := 200 ≤ r.statusCode && r.statusCode < 300

structure CompletionInfo where
  fullText : String
  model : String
  stopReason : String
  usage : Option TokenUsage
  requestPayload : JsonObject
  conversation : Conversation

/-- The signals of the client that are its own. -/
inductive ClientSignal where
  | chunkReceived (id chunk : String)
  | accumulatedReceived (id accumulated : String)
  | thinkingBlockReceived (id thinking signature : String)
  | requestFinalized (id : String) (info : CompletionInfo)
  | requestCompleted (id fullText : String)
  | requestFailed (id error : String)

/-- How a one-shot promise is finished: a result, or an exception with its text. -/
inductive OneShotOutcome where
  | result (info : CompletionInfo)
  | exception (what : String)

/-- An event of a stream, with the JSON it holds. -/
inductive StreamEvent where
  | sse (event : SSEEvent) (json : JsonObject)
  | line (json : JsonObject)

/-- Where something the client processes is from: an event of a stream, or else a buffered
body or the end of a stream. -/
abbrev Source := Option (StreamRef × StreamEvent)

/-- A change of the text of the current round of a request. -/
inductive TextEdit where
  | append (chunk : String)
  | replace (text : String)

/-- What an observer sees. -/
inductive ClientObservation where
  /-- `createRequest` made a request, with the promise that waits for it. -/
  | started (id : String) (oneShot : Option PromiseRef)
  /-- An HTTP request is about to be sent for a request. -/
  | sent (id : String)
  /-- The transport opened the stream of the request's current turn. -/
  | opened (id : String) (ref : StreamRef)
  /-- The transport has taken a buffered post. -/
  | posted (id : String) (ref : SendRef)
  /-- A stream signalled a chunk. -/
  | received (ref : StreamRef) (data : Bytes)
  /-- A stream signalled its end. -/
  | ended (ref : StreamRef)
  /-- The message of a request took something in. -/
  | applied (id : String) (source : Source)
  /-- The text of a request changed. -/
  | wrote (id : String) (edit : TextEdit)
  /-- The usage of a request was brought up to date. -/
  | accounted (id : String) (source : Source) (delta : UsageDelta)
  /-- A round of tools is about to begin for the tool uses of a message. -/
  | begun (id : String) (uses : List ToolUseContent)
  /-- A continuation is built from a message and the results of a round. -/
  | continued (id : String) (message : BaseMessage) (toolResults : ToolResults)
  /-- A signal is about to be emitted. -/
  | emitted (signal : ClientSignal)
  /-- A one-shot promise was finished. -/
  | finished (promise : PromiseRef) (outcome : OneShotOutcome)

structure ClientState (P : ProviderClient) where
  settings : ClientSettings := {}
  toolsManager : ToolsManager := {}
  maxToolRounds : Int := 10
  requests : AList (fun _ : String => ActiveRequest P) := ∅
  /-- What the provider keeps for its requests. -/
  derived : AList (fun _ : String => P.Derived) := ∅
  oneShots : AList (fun _ : String => PromiseRef) := ∅
  pendingOneShot : Option PromiseRef := none
  nextPromise : PromiseRef := 0
  /-- The streams the client is connected to, with the request its slots have captured. -/
  streams : AList (fun _ : StreamRef => String) := ∅
  nextStream : StreamRef := 0
  /-- The buffered posts that have not ended, with the request the continuation has captured. -/
  sends : AList (fun _ : SendRef => String) := ∅
  /-- The posts that failed, until `onFailed` is told; what was thrown may have no text. -/
  failedSends : AList (fun _ : SendRef => String × Option String) := ∅
  nextSend : SendRef := 0
  history : List ClientObservation := []

namespace ActiveRequest

variable {P : ProviderClient} (r : ActiveRequest P)

/-- What `cleanupFullRequest` makes of the request. -/
def retire : ActiveRequest P :=
  { r with
    finalBlocks := match r.message with
      | some m => (P.base m).currentBlocks
      | none => r.finalBlocks
    message := none
    url := ""
    finalPayload := r.originalPayload
    originalPayload := []
    mode := .streaming }

/-- The conversation `completeRequest` reports. -/
def finalConversation : Conversation :=
  if !r.tracksConversation then {}
  else if !r.finalBlocks.isEmpty then r.conversation.addAssistant r.finalBlocks
  else if !r.roundText.isEmpty then r.conversation.addAssistantText r.roundText
  else r.conversation

/-- The completion info of a request whose last turn is finalized. -/
def completionInfo (model : String) : CompletionInfo where
  fullText := r.responseContent
  model := model
  stopReason := r.stopReason
  usage := r.usage
  requestPayload := if r.finalPayload.isEmpty then r.originalPayload else r.finalPayload
  conversation := r.finalConversation

/-- `setUsage` of what a delta makes of the usage of the turn, unless it is empty. -/
def applyUsage (delta : UsageDelta) : ActiveRequest P :=
  if delta.isEmpty then r else { r with turnUsage := some (delta.applyTo (r.turnUsage.getD {})) }

/-- The request once its stream has ended. -/
def closeStream : ActiveRequest P := { r with stream := none, errorMode := false, errorBody := [] }

end ActiveRequest

namespace ClientState

variable {P : ProviderClient} (s : ClientState P)

def observe (o : ClientObservation) : ClientState P := { s with history := o :: s.history }

/-- Change a request, if it is there. -/
def update (id : String) (f : ActiveRequest P → ActiveRequest P) : ClientState P :=
  match s.requests.lookup id with
  | none => s
  | some r => { s with requests := s.requests.insert id (f r) }

/-- `messageForRequest`. -/
def messageFor (id : String) : Option P.Msg := (s.requests.lookup id).bind (·.message)

def derivedFor (id : String) : P.Derived := (s.derived.lookup id).getD P.noDerived

/-- The state with the stream of a request aborted and disconnected. -/
def dropStream (id : String) : ClientState P :=
  match (s.requests.lookup id).bind (·.stream) with
  | none => s
  | some ref =>
      { s.update id fun r => { r with stream := none } with streams := s.streams.erase ref }

/-- `cleanupRequest`. -/
def cleanupRequest (id : String) : ClientState P :=
  { s.dropStream id with requests := (s.dropStream id).requests.erase id }

/-- `cleanupFullRequest`. -/
def cleanupFullRequest (id : String) : ClientState P :=
  { s.update id ActiveRequest.retire with
    derived := s.derived.erase id
    toolsManager := s.toolsManager.cleanupRequest id }

/-- `createRequest`. -/
def createRequest (id : String) : ClientState P :=
  { s with
    requests := s.requests.insert id {}
    oneShots := match s.pendingOneShot with
      | none => s.oneShots
      | some promise => s.oneShots.insert id promise
    pendingOneShot := none }.observe (.started id s.pendingOneShot)

/-- A chunk is added to the text of a request. -/
def appendText (id chunk : String) : ClientState P :=
  (s.update id fun r => { r with responseContent := r.responseContent ++ chunk }).observe
    (.wrote id (.append chunk))

/-- The text of the current round of a request is replaced. -/
def replaceText (id text : String) : ClientState P :=
  (s.update id fun r => { r with responseContent := r.replacedText text }).observe
    (.wrote id (.replace text))

/-- Bring the usage of a request up to date, if it is there. -/
def account (id : String) (source : Source) (delta : UsageDelta) : ClientState P :=
  match s.requests.lookup id with
  | none => s
  | some r =>
      { s with requests := s.requests.insert id (r.applyUsage delta) }.observe
        (.accounted id source delta)

/-- Take the promise of a request and finish it, if there is one. -/
def finishOneShot (id : String) (outcome : OneShotOutcome) : ClientState P :=
  match s.oneShots.lookup id with
  | none => s
  | some promise =>
      { s with oneShots := s.oneShots.erase id }.observe (.finished promise outcome)

/-- The stream the transport has opened becomes that of the request, and is connected. -/
def connectStream (id : String) : ClientState P :=
  { s.update id fun r =>
      { r with stream := some s.nextStream, errorMode := false, errorBody := [] } with
    streams := s.streams.insert s.nextStream id
    nextStream := s.nextStream + 1 }.observe (.opened id s.nextStream)

/-- The future of a buffered post is watched. -/
def watchSend (id : String) : ClientState P :=
  { s with
    sends := s.sends.insert s.nextSend id
    nextSend := s.nextSend + 1 }.observe (.posted id s.nextSend)

@[simp] theorem history_observe (o : ClientObservation) : (s.observe o).history = o :: s.history :=
  rfl

@[simp] theorem requests_observe (o : ClientObservation) : (s.observe o).requests = s.requests := rfl

@[simp] theorem lookup_update (id : String) (f : ActiveRequest P → ActiveRequest P) :
    (s.update id f).requests.lookup id = (s.requests.lookup id).map f := by
  unfold update
  cases hl : s.requests.lookup id with
  | none => exact hl
  | some r => simp

theorem lookup_update_ne {id id' : String} (hne : id' ≠ id)
    (f : ActiveRequest P → ActiveRequest P) :
    (s.update id f).requests.lookup id' = s.requests.lookup id' := by
  unfold update
  cases s.requests.lookup id with
  | none => rfl
  | some r => simp [AList.lookup_insert_ne hne]

theorem lookup_replaceText (id text : String) :
    (s.replaceText id text).requests.lookup id =
      (s.requests.lookup id).map fun r => { r with responseContent := r.replacedText text } :=
  s.lookup_update id _

/-- A change of a request changes nothing else. -/
theorem update_eq (id : String) (f : ActiveRequest P → ActiveRequest P) :
    s.update id f = { s with requests := (s.update id f).requests } := by
  unfold update
  cases s.requests.lookup id <;> rfl

@[simp] theorem history_update (id : String) (f : ActiveRequest P → ActiveRequest P) :
    (s.update id f).history = s.history := by
  rw [update_eq]

@[simp] theorem pendingOneShot_update (id : String) (f : ActiveRequest P → ActiveRequest P) :
    (s.update id f).pendingOneShot = s.pendingOneShot := by
  rw [update_eq]

@[simp] theorem maxToolRounds_update (id : String) (f : ActiveRequest P → ActiveRequest P) :
    (s.update id f).maxToolRounds = s.maxToolRounds := by
  rw [update_eq]

@[simp] theorem toolsManager_update (id : String) (f : ActiveRequest P → ActiveRequest P) :
    (s.update id f).toolsManager = s.toolsManager := by
  rw [update_eq]

theorem lookup_of_messageFor {id : String} {m : P.Msg} (h : s.messageFor id = some m) :
    ∃ r, s.requests.lookup id = some r ∧ r.message = some m :=
  Option.bind_eq_some_iff.mp h

theorem lookup_cleanupRequest_ne {id id' : String} (hne : id' ≠ id) :
    (s.cleanupRequest id).requests.lookup id' = s.requests.lookup id' := by
  unfold cleanupRequest dropStream
  cases (s.requests.lookup id).bind (·.stream) with
  | none => simp [AList.lookup_erase_ne hne]
  | some ref => simp [AList.lookup_erase_ne hne, lookup_update_ne s hne]

@[simp] theorem lookup_cleanupRequest (id : String) :
    (s.cleanupRequest id).requests.lookup id = none :=
  AList.lookup_erase ..

end ClientState

/-! ### The surroundings of the client -/

/-- What the client calls out to. -/
inductive ClientOut where
  | emit (signal : ClientSignal)
  /-- The slots of a signal of the tools manager, after the client's own. -/
  | tools (signal : ToolsSignal)
  | gate (args : CallArgs)
  | executeAsync (tool : BaseTool) (input : JsonObject)
  /-- `HttpTransport::openStream`. -/
  | openStream (id url : String) (payload : JsonObject)
  /-- `HttpTransport::send`. -/
  | send (id url : String) (payload : JsonObject)
  /-- An exception has left a slot. -/
  | terminate

/-- A gate and a tool's body return a future or throw; the transport may return no stream;
from the end of the program nothing returns. -/
def ClientOut.Ans : ClientOut → Type
  | .emit _ | .tools _ | .send .. => Unit
  | .gate _ | .executeAsync .. => Except ToolExn Unit
  | .openStream .. => Bool
  | .terminate => Empty

abbrev ClientSig (P : ProviderClient) : Sig where
  State := ClientState P
  Out := ClientOut
  Ans := ClientOut.Ans
  Fn := ToolsFn
  Res _ := Except ToolExn Unit

/-! ### Reading streams and bodies -/

/-- `httpErrorSnippet`. -/
def httpErrorSnippet (response : HttpResponse) : String :=
  if response.body.isEmpty then "HTTP " ++ toString response.statusCode
  else "HTTP " ++ toString response.statusCode ++ ": " ++
    Bytes.toUtf8String (response.body.take 512)

/-- The event `dispatchSseEvents` passes on, if any. -/
def sseEvent (codec : JsonCodec) (event : SSEEvent) : Option StreamEvent :=
  if event.data.isEmpty || event.data == Bytes.ascii "[DONE]" then none
  else
    let json := (codec.fromJson event.data).toObject
    if json.isEmpty then none else some (.sse event json)

/-- The event `dispatchJsonLines` passes on, if any. -/
def lineEvent (codec : JsonCodec) (raw : Bytes) : Option StreamEvent :=
  if raw.trimmed.isEmpty then none
  else
    match codec.fromJson raw.trimmed with
    | .object json => some (.line json)
    | _ => none

namespace Framer

/-- `append`, with the events that are dispatched. -/
def append (codec : JsonCodec) : Framer → Bytes → Framer × List StreamEvent
  | .sse parser, data =>
      (.sse (parser.append data).1, (parser.append data).2.filterMap (sseEvent codec))
  | .lines framer, data =>
      (.lines (framer.append data).1, (framer.append data).2.filterMap (lineEvent codec))

/-- What `flushStreamBuffers` does to the framer, with the events that are dispatched. -/
def flush (codec : JsonCodec) : Framer → Framer × List StreamEvent
  | .sse parser => (.sse parser.flush.1, parser.flush.2.filterMap (sseEvent codec))
  | .lines framer =>
      if framer.hasIncompleteData then
        (.lines framer.clear, [framer.buffer].filterMap (lineEvent codec))
      else (.lines framer, [])

end Framer

/-- `processSseEvent` or `processJsonLine`. -/
def ProviderClient.processEvent (P : ProviderClient) (message : Option P.Msg) :
    StreamEvent → Reception P.Msg
  | .sse event json => P.processSseEvent message event json
  | .line json => P.processJsonLine message json

/-! ### The code -/

/-- A client: its provider, and the JSON reader and writer it uses. -/
structure BaseClient where
  provider : ProviderClient
  codec : JsonCodec

namespace BaseClient

variable (B : BaseClient)

abbrev State := ClientState B.provider

abbrev Sig : Reentrant.Sig := ClientSig B.provider

/-- Code that may throw. -/
abbrev Slot := Throws B.Sig Unit

def read : Proc B.Sig B.State := Proc.read (S := B.Sig)

def modify (f : B.State → B.State) : Proc B.Sig Unit := Proc.modify (S := B.Sig) f

def query (e : ClientOut) : Proc B.Sig e.Ans := Proc.query (S := B.Sig) e

def hasRequest (id : String) : Proc B.Sig Bool :=
  Proc.reads (S := B.Sig) fun s => (s.requests.lookup id).isSome

def note (o : ClientObservation) : Proc B.Sig Unit := B.modify fun s => s.observe o

def emit (signal : ClientSignal) : Proc B.Sig Unit := do
  B.note (.emitted signal)
  B.query (.emit signal)

/-- `describeError`. -/
def describeError (error : JsonObject) : String :=
  LLMQore.describeError B.codec B.provider.errorAnnotations error

/-- `parseHttpError`. -/
def parseHttpError (response : HttpResponse) : String :=
  match B.codec.fromJson response.body with
  | .object body =>
      let message := errorMessageFrom B.provider.errorAnnotations body
      if message.isEmpty then httpErrorSnippet response
      else "HTTP " ++ toString response.statusCode ++ ": " ++ message
  | _ => httpErrorSnippet response

/-! ### The ends of a request -/

/-- `failRequest`. -/
def failRequest (id error : String) : Proc B.Sig Unit := do
  if ← B.hasRequest id then
    B.modify fun s => (s.cleanupFullRequest id).cleanupRequest id
    B.emit (.requestFailed id error)
    B.modify fun s => s.finishOneShot id (.exception error)
  else return

/-- `abortRequest`. -/
def abortRequest (id error : String) : Proc B.Sig Unit := do
  if ← B.hasRequest id then
    B.modify fun s => s.dropStream id
    B.failRequest id error
  else return

/-- `cancelRequest`. -/
def cancelRequest (id : String) : Proc B.Sig Unit := B.abortRequest id "Request cancelled"

/-- `completeRequest`. -/
def completeRequest (id : String) : Proc B.Sig Unit := do
  let s ← B.read
  match s.requests.lookup id with
  | none => return
  | some r => do
      let info := r.finalizeTurn.completionInfo s.settings.model
      B.modify fun s => s.cleanupRequest id
      B.emit (.requestFinalized id info)
      B.emit (.requestCompleted id info.fullText)
      B.modify fun s => s.finishOneShot id (.result info)

/-! ### Sending -/

/-- `startHttpRequest`; the slots of the stream and the continuation of the post are events. -/
def startHttpRequest (id url : String) (payload : JsonObject) (mode : RequestMode) :
    Proc B.Sig Unit := do
  if ← B.hasRequest id then
    B.note (.sent id)
    match mode with
    | .buffered => do
        B.query (.send id url payload)
        B.modify fun s => s.watchSend id
    | .streaming => do
        let stream : Bool ← B.query (.openStream id url payload)
        if ← B.hasRequest id then
          if stream then B.modify fun s => s.connectStream id
          else
            -- `onStreamFinished` with an error fails the request
            B.failRequest id "Transport returned no stream"
        else return
  else return

/-- `sendRequest`. -/
def sendRequest (id url : String) (payload : JsonObject) (mode : RequestMode) :
    Proc B.Sig Unit := do
  B.modify fun s => s.update id fun r => { r.storeContext url payload with mode }
  B.startHttpRequest id url payload mode

/-- `continueRequest`. -/
def continueRequest (id : String) (payload : JsonObject) : Proc B.Sig Unit := do
  let s ← B.read
  match s.requests.lookup id with
  | none => B.failRequest id "Missing data for tool continuation"
  | some r =>
      if r.url.isEmpty then B.failRequest id "Missing data for tool continuation"
      else do
        B.modify fun s => s.update id ActiveRequest.beginNextTurn
        B.sendRequest id r.url payload r.mode

/-- `postJson`; the id is the fresh uuid of `createRequest`. -/
def postJson (id : String) (payload : JsonObject) (endpoint : String) (mode : RequestMode) :
    Proc B.Sig Unit := do
  B.modify fun s => s.createRequest id
  let s ← B.read
  let resolved := if endpoint.isEmpty then s.settings.chatPath else endpoint
  B.sendRequest id (s.settings.url ++ resolved) payload mode

/-- `sendMessage`. -/
def sendMessage (id : String) (payload : JsonObject) (endpoint : String) (mode : RequestMode) :
    Proc B.Sig Unit := do
  let s ← B.read
  let request := B.provider.sendMessage s.settings payload endpoint mode
  B.postJson id request.1 request.2 mode

/-- `ask`. -/
def ask (id : String) (conversation : Conversation) (extra : JsonObject) (mode : RequestMode) :
    Proc B.Sig Unit := do
  let s ← B.read
  B.sendMessage id (askPayload B.provider s.settings s.toolsManager conversation extra) "" mode
  B.modify fun s => s.update id fun r => { r with conversation, tracksConversation := true }

/-- `askOnce`, with `trackOneShot`. -/
def askOnce (id : String) (conversation : Conversation) (extra : JsonObject)
    (mode : RequestMode) : Proc B.Sig Unit := do
  let s ← B.read
  let promise := s.nextPromise
  B.modify fun s => { s with nextPromise := promise + 1, pendingOneShot := some promise }
  B.ask id conversation extra mode
  let s ← B.read
  B.modify fun s => { s with pendingOneShot := none }
  if s.pendingOneShot.isSome then
    B.note (.finished promise (.exception "request finished before it could be tracked"))
  else return

/-! ### Rounds of tools -/

/-- `buildReplayContinuation`. -/
def buildReplayContinuation (id : String) (toolResults : ToolResults) : Proc B.Sig JsonObject := do
  let s ← B.read
  match s.requests.lookup id with
  | none => return []
  | some r =>
      match r.message with
      | none => return []
      | some m => do
          B.modify fun s =>
            (s.update id fun r => (r.buildReplayContinuation toolResults).1).observe
              (.continued id (B.provider.base m) toolResults)
          return (r.buildReplayContinuation toolResults).2

/-- `handleToolsCompleted`. -/
def handleToolsCompleted (id : String) (toolResults : ToolResults) : Proc B.Sig Unit := do
  let s ← B.read
  match s.requests.lookup id with
  | none => return
  | some r => do
      B.modify fun s => s.update id fun r => { r with toolRounds := r.toolRounds + 1 }
      if s.maxToolRounds < r.toolRounds + 1 then
        B.abortRequest id "Tool continuation limit reached"
      else
        let payload ← B.buildReplayContinuation id toolResults
        if payload.isEmpty then B.abortRequest id "Missing data for tool continuation"
        else B.continueRequest id payload

/-- The slot of the client for a signal of the tools manager. -/
def toolsSlot : ToolsSignal → Proc B.Sig Unit
  | .toolExecutionComplete id toolResults => B.handleToolsCompleted id toolResults
  | .toolExecutionStarted _ | .toolExecutionResult .. | .toolsChanged => return

/-- A signal of the tools manager: the client's own slot comes first. -/
def emitTools (signal : ToolsSignal) : Proc B.Sig Unit := do
  B.toolsSlot signal
  B.query (.tools signal)

/-- The tools manager as part of the client. -/
def hostedTools : Implementation ToolsSig B.Sig where
  part s := s.toolsManager
  withPart s toolsManager := { s with toolsManager }
  part_withPart _ _ := rfl
  out
    | .emit signal => B.emitTools signal
    | .gate args => B.query (.gate args)
    | .executeAsync tool input => B.query (.executeAsync tool input)
  fn f := f
  res _ r := r

/-! ### What is received -/

/-- `replaceRoundText`. -/
def replaceRoundText (id text : String) : Proc B.Sig Unit := do
  let s ← B.read
  match s.requests.lookup id with
  | none => return
  | some r =>
      if r.replacedText text = r.responseContent then return
      else do
        B.modify fun s => s.replaceText id text
        B.emit (.accumulatedReceived id (r.replacedText text))

/-- The loop of `notifyPendingThinkingBlocks`. -/
def announceThinking (id : String) : List PendingThinkingNotification → Proc B.Sig Unit
  | [] => return
  | notification :: rest => do
      B.emit (.thinkingBlockReceived id notification.thinking notification.signature)
      if ← B.hasRequest id then announceThinking id rest else return

/-- `notifyPendingThinkingBlocks`. -/
def notifyPendingThinkingBlocks (id : String) : Proc B.Sig Unit := do
  let s ← B.read
  match s.messageFor id with
  | none => return
  | some m => do
      let taken := (B.provider.base m).takePendingThinkingNotifications
      B.modify fun s =>
        s.update id fun r => { r with message := some (B.provider.withBase m taken.2) }
      B.announceThinking id taken.1

/-- `addChunk`. -/
def addChunk (id chunk : String) : Proc B.Sig Unit := do
  let s ← B.read
  match s.requests.lookup id with
  | none => return
  | some r => do
      B.modify fun s => s.appendText id chunk
      B.emit (.chunkReceived id chunk)
      if ← B.hasRequest id then B.emit (.accumulatedReceived id (r.responseContent ++ chunk))
      else return

/-- `applyUsage`. -/
def applyUsage (id : String) (source : Source) (root : JsonObject) (schema : UsageSchema) :
    Proc B.Sig Unit :=
  B.modify fun s => s.account id source (parseUsage root schema)

/-- `executeToolsFromMessage`. -/
def executeToolsFromMessage (id : String) : B.Slot := do
  let s ← B.read
  match s.messageFor id with
  | none => return
  | some m =>
      if (B.provider.base m).state ≠ .requiresToolExecution then return
      else if (B.provider.base m).currentToolUseContent.isEmpty then return
      else do
        B.note (.begun id (B.provider.base m).currentToolUseContent)
        ExceptT.mk (Proc.implement B.hostedTools
          (toolsHost.beginRound id ((B.provider.base m).currentToolUseContent.map fun use =>
            ⟨use.id, use.name, use.input⟩)).run)

/-- The text effects of `applyEffects`. -/
def applyText (id : String) (effects : MessageEffects) : Proc B.Sig Unit := do
  let s ← B.read
  if !effects.fullText.isEmpty then B.replaceRoundText id effects.fullText
  else if !effects.fallbackText.isEmpty &&
      ((s.requests.lookup id).map (·.roundText)).getD "" = "" then
    B.replaceRoundText id effects.fallbackText
  else return

/-- `applyEffects`. -/
def applyEffects (id : String) (source : Source) (effects : MessageEffects) : B.Slot := do
  B.applyText id effects
  (if effects.thinkingCompleted then B.notifyPendingThinkingBlocks id else pure ())
  (if !effects.chunk.isEmpty then B.addChunk id effects.chunk else pure ())
  -- effects without usage mention no counter
  B.applyUsage id source effects.usage B.provider.usageSchema
  match effects.error with
  | some error => B.failRequest id (B.describeError error)
  | none => if effects.toolsReady then B.executeToolsFromMessage id else return

/-- What a provider's client does with what it made of something received. -/
def receive (id : String) (source : Source) : Reception B.provider.Msg → B.Slot
  | .dropped => B.modify fun s => s.account id source {}
  | .applied message effects => do
      B.modify fun s =>
        (s.update id fun r => { r with message := some message }).observe (.applied id source)
      B.applyEffects id source effects
  | .native content usage schema stop => do
      (if !content.isEmpty then B.addChunk id content else pure ())
      B.applyUsage id source usage schema
      if stop then
        B.modify fun s => s.cleanupFullRequest id
        B.completeRequest id
      else return

/-- The loop of `dispatchSseEvents` and `dispatchJsonLines`, over what they pass on. -/
def dispatchEvents (id : String) (ref : Option StreamRef) : List StreamEvent → B.Slot
  | [] => return
  | event :: rest => do
      let s ← B.read
      B.receive id (ref.map (·, event)) (B.provider.processEvent (s.messageFor id) event)
      if ← B.hasRequest id then dispatchEvents id ref rest else return

/-- `processData`. -/
def processData (id : String) (ref : StreamRef) (data : Bytes) : B.Slot := do
  let s ← B.read
  match s.requests.lookup id with
  | none => return
  | some r =>
      let sniffed := B.provider.processData (s.derivedFor id) data
      B.modify fun s => { s with derived := s.derived.insert id sniffed.1 }
      if sniffed.2 then
        let framed := r.framer.append B.codec data
        B.modify fun s => s.update id fun r => { r with framer := framed.1 }
        B.dispatchEvents id (some ref) framed.2
      else return

/-- `flushStreamBuffers`. -/
def flushStreamBuffers (id : String) (ref : Option StreamRef) : B.Slot := do
  let s ← B.read
  match s.requests.lookup id with
  | none => return
  | some r =>
      let framed := r.framer.flush B.codec
      B.modify fun s => s.update id fun r => { r with framer := framed.1 }
      B.dispatchEvents id ref framed.2

/-- `onStreamDrained`. -/
def onStreamDrained (id : String) : B.Slot :=
  match B.provider.onStreamDrained with
  | none => return
  | some effects => B.applyEffects id none effects

/-- The end of `onStreamFinished`: the request is complete unless it waits for tools. -/
def finishTurn (id : String) : Proc B.Sig Unit := do
  let s ← B.read
  if (s.messageFor id).any fun m => (B.provider.base m).state = .requiresToolExecution then return
  else do
    B.modify fun s =>
      (s.update id fun r => { r with
        stopReason := match r.message with
          | some m => (B.provider.base m).stopReason
          | none => r.stopReason }).cleanupFullRequest id
    B.completeRequest id

/-- `onStreamFinished` without an error of the transport. -/
def streamDrained (id : String) (ref : Option StreamRef) : B.Slot := do
  let s ← B.read
  match B.provider.takePendingStreamError (s.derivedFor id) with
  | (some error, derived) => do
      B.modify fun s => { s with derived := s.derived.insert id derived }
      B.failRequest id error
  | (none, _) => do
      B.flushStreamBuffers id ref
      if ← B.hasRequest id then
        B.onStreamDrained id
        if ← B.hasRequest id then B.finishTurn id else return
      else return

/-- `onStreamFinished`. -/
def onStreamFinished (id : String) (ref : Option StreamRef) : Option String → B.Slot
  | some error => B.failRequest id error
  | none => B.streamDrained id ref

/-! ### The slots of streams -/

/-- An exception that leaves a slot ends the program. -/
def slot (p : B.Slot) : Proc B.Sig Unit := do
  match ← p.run with
  | .ok () => return
  | .error _ => do
      let never : Empty ← B.query .terminate
      never.elim

/-- The slots of a stream check that it is still the stream of their request. -/
def ifCurrent (id : String) (ref : StreamRef) (p q : B.Slot) : B.Slot := do
  let s ← B.read
  if ((s.requests.lookup id).bind (·.stream)) = some ref then p else q

/-- A stream goes away. -/
def closeStream (id : String) (ref : StreamRef) : Proc B.Sig Unit :=
  B.modify fun s =>
    { s.update id ActiveRequest.closeStream with streams := s.streams.erase ref }

/-- A stream that is no longer that of its request is deleted when it ends. -/
def deleteStream (ref : StreamRef) : Proc B.Sig Unit :=
  B.modify fun s => { s with streams := s.streams.erase ref }

/-- The slot of `headersReceived`. -/
def headersReceived (id : String) (ref : StreamRef) (statusCode : Int) : B.Slot :=
  B.ifCurrent id ref
    (if statusCode < 200 || 300 ≤ statusCode then
      B.modify fun s => s.update id fun r => { r with errorMode := true }
    else return)
    (return)

def kMaxErrorBodyBytes : Nat := 64 * 1024

/-- The slot of `chunkReceived`. -/
def chunkReceived (id : String) (ref : StreamRef) (chunk : Bytes) : B.Slot := do
  B.note (.received ref chunk)
  B.ifCurrent id ref
    (do
      let s ← B.read
      if ((s.requests.lookup id).map (·.errorMode)).getD false then
        B.modify fun s => s.update id fun r =>
          { r with
            errorBody := r.errorBody ++ chunk.take (kMaxErrorBodyBytes - r.errorBody.length) }
      else B.processData id ref chunk)
    (return)

/-- The error of a stream that ended in error mode. -/
def streamError (r : ActiveRequest B.provider) (statusCode : Int) : Option String :=
  if r.errorMode then some (B.parseHttpError ⟨statusCode, r.errorBody⟩)
  else none

/-- The slot of `finished`. -/
def streamFinished (id : String) (ref : StreamRef) (statusCode : Int) : B.Slot := do
  B.note (.ended ref)
  B.ifCurrent id ref
    (do
      let s ← B.read
      B.closeStream id ref
      B.onStreamFinished id (some ref)
        ((s.requests.lookup id).bind fun r => B.streamError r statusCode))
    (B.deleteStream ref)

/-- The slot of `errorOccurred`. -/
def errorOccurred (id : String) (ref : StreamRef) (message : String) : B.Slot :=
  B.ifCurrent id ref
    (do
      B.closeStream id ref
      B.onStreamFinished id (some ref) (some message))
    (B.deleteStream ref)

/-! ### Buffered posts -/

/-- `processBufferedResponse`. -/
def processBufferedResponse (id : String) (data : Bytes) : B.Slot :=
  match B.codec.fromJson data with
  | .object body =>
      match errorIn body with
      | some error => B.failRequest id (B.describeError error)
      | none => do
          let s ← B.read
          B.receive id none (B.provider.processBufferedBody (s.messageFor id) body)
  | _ => B.failRequest id "Invalid JSON in buffered response"

/-- The continuation of a buffered post that is answered. -/
def sendContinuation (id : String) (response : HttpResponse) : B.Slot := do
  if ← B.hasRequest id then
    if !response.isSuccess then
      B.onStreamFinished id none (some (B.parseHttpError response))
    else do
      B.processBufferedResponse id response.body
      B.onStreamFinished id none none
  else return

/-- What the continuation of a post throws, and what its future holds, is for `onFailed`. -/
def failSend (ref : SendRef) (id : String) (what : Option String) : Proc B.Sig Unit :=
  B.modify fun s => { s with failedSends := s.failedSends.insert ref (id, what) }

/-- The future of a buffered post has ended. -/
def sendFinished (ref : SendRef) (outcome : Except String HttpResponse) : Proc B.Sig Unit := do
  let s ← B.read
  match s.sends.lookup ref with
  | none => return
  | some id => do
      B.modify fun s => { s with sends := s.sends.erase ref }
      match outcome with
      | .error message => B.failSend ref id (some message)
      | .ok response =>
          match ← (B.sendContinuation id response).run with
          | .ok () => return
          | .error e => B.failSend ref id e.what

/-- `onFailed`; what has no text leaves it. -/
def sendFailed (ref : SendRef) : B.Slot := do
  let s ← B.read
  match s.failedSends.lookup ref with
  | none => return
  | some (id, what) => do
      B.modify fun s => { s with failedSends := s.failedSends.erase ref }
      match what with
      | none => throw .unknown
      | some message =>
          if ← B.hasRequest id then B.onStreamFinished id none (some message) else return

end BaseClient

/-! ### The machine -/

/-- Calls of the client's API, signals of its streams, and the ends of its posts. -/
inductive ClientEvent where
  | configure (settings : ClientSettings)
  | setMaxToolContinuations (limit : Int)
  | sendMessage (id : String) (payload : JsonObject) (endpoint : String) (mode : RequestMode)
  | ask (id : String) (conversation : Conversation) (extra : JsonObject) (mode : RequestMode)
  | askOnce (id : String) (conversation : Conversation) (extra : JsonObject) (mode : RequestMode)
  | cancelRequest (id : String)
  | tools (call : ToolsCall)
  | headersReceived (ref : StreamRef) (statusCode : Int)
  | chunkReceived (ref : StreamRef) (chunk : Bytes)
  | streamFinished (ref : StreamRef) (statusCode : Int)
  | errorOccurred (ref : StreamRef) (message : String)
  | sendFinished (ref : SendRef) (outcome : Except String HttpResponse)
  | sendFailed (ref : SendRef)

namespace BaseClient

variable (B : BaseClient)

/-- A signal of a stream reaches the slot the client has connected, if it has. -/
def ofStream (ref : StreamRef) (p : String → B.Slot) : Proc B.Sig Unit := do
  let s ← B.read
  match s.streams.lookup ref with
  | none => return
  | some id => B.slot (p id)

/-- The code of each event. -/
def entry : ClientEvent → Proc B.Sig Unit
  | .configure settings => B.modify fun s => { s with settings }
  | .setMaxToolContinuations limit =>
      B.modify fun s => { s with maxToolRounds := if 0 < limit then limit else 1 }
  | .sendMessage id payload endpoint mode => B.sendMessage id payload endpoint mode
  | .ask id conversation extra mode => B.ask id conversation extra mode
  | .askOnce id conversation extra mode => B.askOnce id conversation extra mode
  | .cancelRequest id => B.cancelRequest id
  | .tools call => Proc.implement B.hostedTools (toolsHost.call call)
  | .headersReceived ref statusCode => B.ofStream ref fun id => B.headersReceived id ref statusCode
  | .chunkReceived ref chunk => B.ofStream ref fun id => B.chunkReceived id ref chunk
  | .streamFinished ref statusCode => B.ofStream ref fun id => B.streamFinished id ref statusCode
  | .errorOccurred ref message => B.ofStream ref fun id => B.errorOccurred id ref message
  | .sendFinished ref outcome => B.sendFinished ref outcome
  | .sendFailed ref => B.slot (B.sendFailed ref)

def machine : Machine B.Sig where
  Event := ClientEvent
  entry := B.entry
  body f := Proc.implement B.hostedTools (toolsMachine.body f)

end BaseClient

end LLMQore
