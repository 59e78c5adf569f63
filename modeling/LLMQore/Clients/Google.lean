import LLMQore.Clients.OpenAI

/-!
# LLMQore.Clients.Google

The client of the Gemini API (`GoogleAIClient`) and its message (`GoogleMessage`).

Gemini names no tool calls; the message gives each a UUID. The UUIDs are a parameter: the
n-th one the message draws is `uuid n`.
-/

namespace LLMQore

open Network Tools

structure GoogleMessage extends BaseMessage where
  pendingFunctionArgs : String := ""
  currentFunctionName : String := ""
  /-- How many UUIDs were drawn. -/
  drawn : Nat := 0

namespace GoogleMessage

/-- `startNewContinuation`. -/
def startNewContinuation (m : GoogleMessage) : GoogleMessage :=
  { toBaseMessage := m.toBaseMessage.startNewContinuation, drawn := m.drawn }

/-! ### Events -/

/-- The message with its last block of the wanted kind, and the index of that block. -/
def ensureLast (m : GoogleMessage) (kind : TurnContent → Bool) (fresh : TurnContent) :
    Nat × GoogleMessage :=
  if m.currentBlocks.getLast?.any kind then (m.currentBlocks.length - 1, m)
  else
    let (block, base) := m.toBaseMessage.addCurrentContent fresh
    (block, { m with toBaseMessage := base })

/-- Change the block at an index. -/
def change (m : GoogleMessage) (index : Nat) (f : TurnContent → TurnContent) : GoogleMessage :=
  { m with toBaseMessage := m.toBaseMessage.changeBlock index f }

def handleContentDelta (m : GoogleMessage) (text : String) : GoogleMessage :=
  let (block, m) := m.ensureLast TurnContent.isText (.text ⟨""⟩)
  m.change block (.onText fun c => ⟨c.text ++ text⟩)

def handleThoughtDelta (m : GoogleMessage) (text : String) : GoogleMessage :=
  let (block, m) := m.ensureLast TurnContent.isThinking (.thinking {})
  m.change block (.onThinking fun c => { c with thinking := c.thinking ++ text })

def handleThoughtSignature (m : GoogleMessage) (signature : String) : GoogleMessage :=
  match m.toBaseMessage.lastThinkingIndex with
  | some existing => m.change existing (.onThinking fun c => { c with signature })
  | none =>
      { m with
        toBaseMessage := (m.toBaseMessage.addCurrentContent (.thinking { signature })).2 }

def handleToolCallStart (m : GoogleMessage) (name : String) : GoogleMessage :=
  { m with currentFunctionName := name, pendingFunctionArgs := "" }

def handleToolCallDelta (m : GoogleMessage) (argsJson : String) : GoogleMessage :=
  { m with pendingFunctionArgs := m.pendingFunctionArgs ++ argsJson }

def handleToolCallComplete (codec : JsonCodec) (uuid : Nat → String) (m : GoogleMessage) :
    GoogleMessage :=
  if m.currentFunctionName.isEmpty then m
  else
    { toBaseMessage := (m.toBaseMessage.addCurrentContent (.toolUse
        ⟨uuid m.drawn, m.currentFunctionName, parseToolArguments codec m.pendingFunctionArgs⟩)).2
      drawn := m.drawn + 1 }

/-- The texts of a part. -/
def applyText (r : GoogleMessage × MessageEffects) (part : JsonObject) :
    GoogleMessage × MessageEffects :=
  if !part.contains "text" then r
  else
    let text := (part.value "text").toString
    if (part.value "thought").toBool then
      let m := r.1.handleThoughtDelta text
      (if part.contains "signature" then
        m.handleThoughtSignature (part.value "signature").toString else m, r.2)
    else
      (r.1.handleContentDelta text,
        { r.2 with thinkingCompleted := true, chunk := r.2.chunk ++ text })

/-- The function call of a part. -/
def applyFunctionCall (codec : JsonCodec) (uuid : Nat → String)
    (r : GoogleMessage × MessageEffects) (part : JsonObject) : GoogleMessage × MessageEffects :=
  if !part.contains "functionCall" then r
  else
    let functionCall := (part.value "functionCall").toObject
    (((r.1.handleToolCallStart (functionCall.value "name").toString).handleToolCallDelta
        (codec.toJson (functionCall.value "args").toObject)).handleToolCallComplete codec uuid,
      { r.2 with thinkingCompleted := true })

/-- The loop body over `parts`. -/
def applyPart (codec : JsonCodec) (uuid : Nat → String) (r : GoogleMessage × MessageEffects)
    (part : JsonObject) : GoogleMessage × MessageEffects :=
  let r := applyText r part
  let m :=
    if part.contains "thoughtSignature" then
      r.1.handleThoughtSignature (part.value "thoughtSignature").toString
    else r.1
  applyFunctionCall codec uuid (m, r.2) part

def applyParts (codec : JsonCodec) (uuid : Nat → String) (r : GoogleMessage × MessageEffects)
    (parts : List JsonValue) : GoogleMessage × MessageEffects :=
  parts.foldl (fun r part => applyPart codec uuid r part.toObject) r

def stopReasonMap : StopReasonMap where
  toolReasons := ["STOP", "MAX_TOKENS"]
  completeReasons := []
  finalReasons := []
  openReasons := []

def handleStopReason (m : GoogleMessage) (reason : String) : GoogleMessage :=
  { m with toBaseMessage := m.toBaseMessage.recordStopReason reason stopReasonMap }

/-- `errorFinishMessage`, for the reasons of `isErrorFinishReason`. -/
def errorFinishMessage (reason : String) : Option String :=
  if reason = "SAFETY" then some "Response blocked by safety filters"
  else if reason = "RECITATION" then
    some "Response blocked due to recitation of copyrighted content"
  else if reason = "MALFORMED_FUNCTION_CALL" then
    some ("Model attempted to call a function with malformed arguments. Please try rephrasing " ++
      "your request or disabling tools.")
  else if reason = "PROHIBITED_CONTENT" then
    some "Response blocked due to prohibited content"
  else if reason = "SPII" then
    some "Response blocked due to sensitive personally identifiable information"
  else if reason = "OTHER" then some "Request failed due to an unknown reason"
  else none

/-- The loop over `candidates`, which a finish reason that is an error leaves. -/
def applyCandidates (codec : JsonCodec) (uuid : Nat → String)
    (r : GoogleMessage × MessageEffects) : List JsonValue → GoogleMessage × MessageEffects
  | [] => r
  | value :: rest =>
      let candidate := value.toObject
      let r := applyParts codec uuid r
        ((candidate.value "content").toObject.value "parts").toArray
      if candidate.contains "finishReason" then
        let m := r.1.handleStopReason (candidate.value "finishReason").toString
        match errorFinishMessage m.stopReason with
        | some message =>
            (m, { r.2 with error := some (JsonObject.ofFields [("message", .str message)]) })
        | none => applyCandidates codec uuid (m, r.2) rest
      else applyCandidates codec uuid r rest

def applyEvent (codec : JsonCodec) (uuid : Nat → String) (m : GoogleMessage)
    (chunk : JsonObject) : GoogleMessage × MessageEffects :=
  match errorIn chunk with
  | some error => (m, { error := some error })
  | none =>
      let usage := if (chunk.value "usageMetadata").isObject then chunk else []
      applyCandidates codec uuid (m, { usage }) (chunk.value "candidates").toArray

/-! ### Serialization -/

/-- What `serializeTurn` collects. -/
structure TurnParts where
  parts : List JsonValue := []
  lastThoughtSignature : String := ""

def imagePart (c : ImageContent) : JsonObject :=
  if c.isUrl then
    .ofFields [("fileData", .obj (JsonObject.ofFields
      [("mimeType", .str c.mimeType), ("fileUri", .str c.url)]))]
  else
    .ofFields [("inlineData", .obj (JsonObject.ofFields
      [("mimeType", .str (mimeTypeOr c.mimeType "image/png")), ("data", .str c.base64)]))]

def functionCallPart (c : ToolUseContent) (lastThoughtSignature : String) : JsonObject :=
  let part := JsonObject.ofFields
    [("functionCall", .obj (JsonObject.ofFields [("name", .str c.name), ("args", .obj c.input)]))]
  if lastThoughtSignature.isEmpty then part
  else part.insert "thoughtSignature" (.str lastThoughtSignature)

def thinkingPart (c : ThinkingContent) : JsonObject :=
  .ofFields [("text", .str c.thinking), ("thought", .bool true)]

/-- The visit of a block in `serializeTurn`. -/
def addBlock (t : TurnParts) : TurnContent → TurnParts
  | .text c => { t with parts := t.parts ++ [.obj (JsonObject.ofFields [("text", .str c.text)])] }
  | .image c => { t with parts := t.parts ++ [.obj (imagePart c)] }
  | .audio c =>
      { t with
        parts := t.parts ++ [.obj (JsonObject.ofFields [("inlineData", .obj (JsonObject.ofFields
          [("mimeType", .str (mimeTypeOr c.mimeType "audio/wav")),
            ("data", .str (Bytes.toBase64 c.data))]))])] }
  | .toolUse c =>
      { t with parts := t.parts ++ [.obj (functionCallPart c t.lastThoughtSignature)] }
  | .toolResult _ => t
  | .thinking c =>
      if c.signature.isEmpty then { t with parts := t.parts ++ [.obj (thinkingPart c)] }
      else
        { parts := t.parts ++ [.obj (thinkingPart c),
            .obj (JsonObject.ofFields [("thoughtSignature", .str c.signature)])]
          lastThoughtSignature := c.signature }
  | .redactedThinking _ => t

def serializeTurn (role : TurnRole) (blocks : List TurnContent) : JsonObject :=
  .ofFields
    [("role", .str (if role = .assistant then "model" else "user")),
      ("parts", .arr (blocks.foldl addBlock {}).parts)]

def toProviderFormat (m : GoogleMessage) : JsonObject := serializeTurn .assistant m.currentBlocks

/-- The mime type and the bytes of a block that can be inlined. -/
def inlineData : ToolContent → String × Bytes
  | .text _ => ("", [])
  | .image c => if c.isUrl then ("", []) else (mimeTypeOr c.mimeType "image/png", c.bytes)
  | .audio c => (mimeTypeOr c.mimeType "audio/wav", c.data)
  | .resource c =>
      match c.contents with
      | .blob data => (mimeTypeOr c.mimeType "application/octet-stream", data)
      | .text _ => ("", [])
  | .resourceLink _ => ("", [])

/-- `toInlineDataPart`, which is empty where there is nothing to inline. -/
def toInlineDataPart (block : ToolContent) : JsonObject :=
  let (mime, bytes) := inlineData block
  if bytes.isEmpty then []
  else
    .ofFields [("inlineData", .obj (JsonObject.ofFields
      [("mimeType", .str mime), ("data", .str (Bytes.toBase64 bytes))]))]

/-- The parts of a result that can be inlined. -/
def inlineParts (content : List ToolContent) : List JsonValue :=
  ((content.map toInlineDataPart).filter (!·.isEmpty)).map .obj

/-- A `functionResponse` with a result text, and the inlined parts if there are any. -/
def functionResponse (name text : String) (media : List JsonValue) : JsonObject :=
  let response := JsonObject.ofFields
    [("name", .str name), ("response", .obj (JsonObject.ofFields [("result", .str text)]))]
  .ofFields [("functionResponse",
    .obj (if media.isEmpty then response else response.insert "parts" (.arr media)))]

/-- What `buildGeminiResponseText` says of a block. -/
def responseChunk : ToolContent → Option String
  | .text c => if c.text.isEmpty then none else some c.text
  | .image _ => none
  | .audio _ => none
  | .resource c => if !c.isBlob && !c.text.isEmpty then some c.text else none
  | .resourceLink c => some ("[resource link: " ++ c.uri ++ "]")

/-- `buildGeminiResponseText`. -/
def buildGeminiResponseText (r : ToolResult) : String :=
  "\n".intercalate (r.content.filterMap responseChunk)

/-- The part of a tool result in `createToolResultParts`. -/
def toolResultPart (codec : JsonCodec) (name : String) (r : ToolResult) : JsonObject :=
  if r.hasOnlyText then functionResponse name (toolResultText codec r) []
  else functionResponse name (buildGeminiResponseText r) (inlineParts r.content)

def createToolResultParts (codec : JsonCodec) (m : GoogleMessage) (toolResults : ToolResults) :
    List JsonValue :=
  mapToolResults m.currentBlocks toolResults fun use r => toolResultPart codec use.name r

/-- `toolResultTurnRole`. -/
def toolResultTurnRole (parts : List JsonValue) : String :=
  if parts.any fun part => (part.toObject.value "functionResponse").toObject.contains "parts"
  then "user" else "function"

end GoogleMessage

/-! ### The client -/

namespace GoogleAIClient

def usageSchema : UsageSchema where
  container := "usageMetadata"
  prompt := ⟨"", "promptTokenCount"⟩
  completion := ⟨"", "candidatesTokenCount"⟩
  cached := ⟨"", "cachedContentTokenCount"⟩
  reasoning := ⟨"", "thoughtsTokenCount"⟩

def errorAnnotations : List ErrorAnnotation := [⟨"code", "code"⟩, ⟨"status", "status"⟩]

/-- `sendMessage`. -/
def sendMessage (settings : ClientSettings) (payload : JsonObject) (endpoint : String)
    (mode : RequestMode) : JsonObject × String :=
  let modelName :=
    if payload.contains "model" then (payload.value "model").toString else settings.model
  let suffix :=
    if mode = .streaming then ":streamGenerateContent?alt=sse" else ":generateContent"
  (payload, if endpoint.isEmpty then "/models/" ++ modelName ++ suffix else endpoint)

/-- The part of a tool result in `buildConversationPayload`. -/
def replayedPart (codec : JsonCodec) (c : ToolResultContent) : JsonObject :=
  let r := toToolResult c
  GoogleMessage.functionResponse c.name (toolResultText codec r)
    (if r.hasOnlyText then [] else GoogleMessage.inlineParts r.content)

/-- The contents of a turn: nothing for a turn without parts. -/
def turnContents (codec : JsonCodec) (turn : Turn) : List JsonValue :=
  if turn.role = .tool then
    let parts := (toolResultsOf turn.content).map fun c => JsonValue.obj (replayedPart codec c)
    if parts.isEmpty then []
    else
      [.obj (JsonObject.ofFields
        [("role", .str (GoogleMessage.toolResultTurnRole parts)), ("parts", .arr parts)])]
  else
    let serialized := GoogleMessage.serializeTurn turn.role turn.content
    if (serialized.value "parts").toArray.isEmpty then [] else [.obj serialized]

/-- The array `contents` of a conversation. -/
def contents (codec : JsonCodec) (conversation : Conversation) : List JsonValue :=
  conversation.turns.flatMap (turnContents codec)

def buildConversationPayload (codec : JsonCodec) (_ : ClientSettings)
    (conversation : Conversation) : JsonObject :=
  let payload : JsonObject :=
    if conversation.system.isEmpty then []
    else JsonObject.ofFields [("systemInstruction", .obj (JsonObject.ofFields
      [("parts", .arr [.obj (JsonObject.ofFields [("text", .str conversation.system)])])]))]
  payload.insert "contents" (.arr (contents codec conversation))

def buildContinuationPayload (codec : JsonCodec) (originalPayload : JsonObject)
    (message : GoogleMessage) (toolResults : ToolResults) : JsonObject :=
  let toolResultParts := message.createToolResultParts codec toolResults
  let functionMessage := JsonObject.ofFields
    [("role", .str (GoogleMessage.toolResultTurnRole toolResultParts)),
      ("parts", .arr toolResultParts)]
  originalPayload.insert "contents" (.arr ((originalPayload.value "contents").toArray ++
    [.obj message.toProviderFormat, .obj functionMessage]))

/-- `JsonErrorSniffer`, and the entry of `m_failedRequests`. -/
structure Sniffed where
  active : Bool := true
  buffer : Bytes := []
  failed : Option String := none

def kMaxBytes : Nat := 64 * 1024

/-- `JsonErrorSniffer::append`, and what `processData` does with what it finds. -/
def processData (codec : JsonCodec) (d : Sniffed) (data : Bytes) : Sniffed × Bool :=
  if data.isEmpty then (d, false)
  else if !d.active then (d, true)
  else
    let buffer := d.buffer ++ data
    let trimmed := buffer.trimmed
    if trimmed.isEmpty then ({ d with buffer }, true)
    else if trimmed.head? != some 0x7B || kMaxBytes < buffer.length then
      ({ d with active := false, buffer := [] }, true)
    else
      match codec.fromJson trimmed with
      | .object o =>
          match errorIn o with
          | some error =>
              ({ active := false
                 buffer := []
                 failed := some (describeError codec errorAnnotations error) }, false)
          | none => ({ d with active := false, buffer := [] }, true)
      | _ => ({ d with buffer }, true)

def takePendingStreamError (d : Sniffed) : Option String × Sniffed :=
  (d.failed, { d with failed := none })

/-- `ensureMessage<GoogleMessage>`. -/
def ensure (message : Option GoogleMessage) : GoogleMessage :=
  ensureMessage GoogleMessage.toBaseMessage {} GoogleMessage.startNewContinuation message

/-- The message and the effects of an event. -/
def received (r : GoogleMessage × MessageEffects) : Reception GoogleMessage := .applied r.1 r.2

def processSseEvent (codec : JsonCodec) (uuid : Nat → String) (message : Option GoogleMessage)
    (_ : SSEEvent) (chunk : JsonObject) : Reception GoogleMessage :=
  match message with
  | some m =>
      if chunk.contains "candidates" then
        received ((ensure (some m)).applyEvent codec uuid chunk)
      else received (m.applyEvent codec uuid chunk)
  | none => received ((ensure none).applyEvent codec uuid chunk)

def processBufferedBody (codec : JsonCodec) (uuid : Nat → String)
    (message : Option GoogleMessage) (response : JsonObject) : Reception GoogleMessage :=
  received ((ensure message).applyEvent codec uuid response)

end GoogleAIClient

/-- `GoogleAIClient`. -/
def googleAIClient (codec : JsonCodec) (uuid : Nat → String)
    (toolsDefinitions : ToolsManager → List JsonValue) : ProviderClient where
  Msg := GoogleMessage
  base := GoogleMessage.toBaseMessage
  withBase m base := { m with toBaseMessage := base }
  Derived := GoogleAIClient.Sniffed
  noDerived := {}
  usageSchema := GoogleAIClient.usageSchema
  errorAnnotations := GoogleAIClient.errorAnnotations
  toolsDefinitions := toolsDefinitions
  sendMessage := GoogleAIClient.sendMessage
  buildConversationPayload := GoogleAIClient.buildConversationPayload codec
  buildContinuationPayload := GoogleAIClient.buildContinuationPayload codec
  processSseEvent := GoogleAIClient.processSseEvent codec uuid
  processBufferedBody := GoogleAIClient.processBufferedBody codec uuid
  processData := GoogleAIClient.processData codec
  takePendingStreamError := GoogleAIClient.takePendingStreamError
  onStreamDrained := some { thinkingCompleted := true, toolsReady := true }

end LLMQore
