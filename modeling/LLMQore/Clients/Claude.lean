import LLMQore.Core.ProviderClient

/-!
# LLMQore.Clients.Claude

The client of the Messages API (`ClaudeClient`) and its message (`ClaudeMessage`).
-/

namespace LLMQore

open Network Tools

structure ClaudeMessage extends BaseMessage where
  toolCalls : ToolCallAccumulator Int := {}
  blockPositions : AList (fun _ : Int => Nat) := ∅

namespace ClaudeMessage

/-- `startNewContinuation`. -/
def startNewContinuation (m : ClaudeMessage) : ClaudeMessage :=
  { toBaseMessage := m.toBaseMessage.startNewContinuation }

/-- Add a block at the position of its index in the response. -/
def placeBlock (m : ClaudeMessage) (index : Int) (content : TurnContent) : ClaudeMessage :=
  let (position, base) := m.toBaseMessage.addCurrentContent content
  { m with toBaseMessage := base, blockPositions := m.blockPositions.insert index position }

def beginImage (source : JsonObject) : ImageContent :=
  if (source.value "type").toString = "url" then ⟨.url (source.value "url").toString, ""⟩
  else ⟨.bytes (Bytes.fromBase64 (source.value "data").toString), (source.value "media_type").toString⟩

def beginBlock (m : ClaudeMessage) (index : Int) (data : JsonObject) : ClaudeMessage :=
  let blockType := (data.value "type").toString
  if blockType = "text" then m.placeBlock index (.text ⟨(data.value "text").toString⟩)
  else if blockType = "image" then
    m.placeBlock index (.image (beginImage (data.value "source").toObject))
  else if blockType = "tool_use" then
    let placed := m.placeBlock index (.toolUse
      ⟨(data.value "id").toString, (data.value "name").toString, (data.value "input").toObject⟩)
    { placed with toolCalls := placed.toolCalls.start index m.currentBlocks.length }
  else if blockType = "thinking" then
    m.placeBlock index (.thinking
      { thinking := (data.value "thinking").toString
        signature := (data.value "signature").toString })
  else if blockType = "redacted_thinking" then
    m.placeBlock index (.redactedThinking ⟨(data.value "signature").toString⟩)
  else m

/-- Change the block at a position. -/
def change (m : ClaudeMessage) (position : Nat) (f : TurnContent → TurnContent) : ClaudeMessage :=
  { m with toBaseMessage := m.toBaseMessage.changeBlock position f }

def applyDelta (m : ClaudeMessage) (index : Int) (deltaType : String) (delta : JsonObject) :
    ClaudeMessage :=
  match m.blockPositions.lookup index with
  | none => m
  | some position =>
      if deltaType = "text_delta" then
        m.change position (.onText fun c => ⟨c.text ++ (delta.value "text").toString⟩)
      else if deltaType = "input_json_delta" then
        { m with toolCalls := m.toolCalls.delta index (delta.value "partial_json").toString }
      else if deltaType = "thinking_delta" then
        m.change position (.onThinking fun c =>
          { c with thinking := c.thinking ++ (delta.value "thinking").toString })
      else if deltaType = "signature_delta" then
        (m.change position (.onThinking fun c =>
          { c with signature := (delta.value "signature").toString })).change position
            (.onRedactedThinking fun _ => ⟨(delta.value "signature").toString⟩)
      else m

def endBlock (codec : JsonCodec) (m : ClaudeMessage) (index : Int) : ClaudeMessage :=
  let (toolCalls, base) := m.toolCalls.complete codec m.toBaseMessage index ""
  { m with toBaseMessage := base, toolCalls }

def stopReasonMap : StopReasonMap where
  toolReasons := ["tool_use"]
  completeReasons := []
  finalReasons := ["end_turn"]
  openReasons := []

def handleStopReason (m : ClaudeMessage) (stopReason : String) : ClaudeMessage :=
  { m with toBaseMessage := m.toBaseMessage.recordStopReason stopReason stopReasonMap }

def applyEvent (codec : JsonCodec) (m : ClaudeMessage) (event : JsonObject) :
    ClaudeMessage × MessageEffects :=
  let type := (event.value "type").toString
  if type = "message_start" then
    (m.startNewContinuation, { usage := (event.value "message").toObject })
  else if type = "content_block_start" then
    (m.beginBlock (event.value "index").toInt (event.value "content_block").toObject, {})
  else if type = "content_block_delta" then
    let delta := (event.value "delta").toObject
    let deltaType := (delta.value "type").toString
    (m.applyDelta (event.value "index").toInt deltaType delta,
      { chunk := if deltaType = "text_delta" then (delta.value "text").toString else "" })
  else if type = "content_block_stop" then
    (m.endBlock codec (event.value "index").toInt, { thinkingCompleted := true })
  else if type = "message_delta" then
    let delta := (event.value "delta").toObject
    if delta.contains "stop_reason" then
      (m.handleStopReason (delta.value "stop_reason").toString,
        { usage := event, toolsReady := true })
    else (m, { usage := event })
  else if type = "error" then (m, { error := some (event.value "error").toObject })
  else (m, {})

/-- The loop body of `applyResponse`. -/
def applyBlock (codec : JsonCodec) (r : ClaudeMessage × MessageEffects) (index : Nat)
    (block : JsonObject) : ClaudeMessage × MessageEffects :=
  let blockType := (block.value "type").toString
  ((r.1.beginBlock index block).endBlock codec index,
    if blockType = "text" then { r.2 with chunk := r.2.chunk ++ (block.value "text").toString }
    else if blockType = "thinking" || blockType = "redacted_thinking" then
      { r.2 with thinkingCompleted := true }
    else r.2)

/-- The loop of `applyResponse`, from the block at `index`. -/
def applyBlocks (codec : JsonCodec) (r : ClaudeMessage × MessageEffects) (index : Nat) :
    List JsonValue → ClaudeMessage × MessageEffects
  | [] => r
  | block :: rest => applyBlocks codec (applyBlock codec r index block.toObject) (index + 1) rest

def applyResponse (codec : JsonCodec) (m : ClaudeMessage) (response : JsonObject) :
    ClaudeMessage × MessageEffects :=
  let (m, effects) :=
    applyBlocks codec (m.startNewContinuation, {}) 0 (response.value "content").toArray
  let stopReason := (response.value "stop_reason").toString
  if stopReason.isEmpty then (m, { effects with usage := response })
  else (m.handleStopReason stopReason, { effects with usage := response, toolsReady := true })

/-! ### Serialization -/

/-- The source of an image, inline or by reference. -/
def imageSource (c : ImageContent) : JsonObject :=
  if c.isUrl then .ofFields [("type", .str "url"), ("url", .str c.url)]
  else
    .ofFields
      [("type", .str "base64"), ("media_type", .str (mimeTypeOr c.mimeType "image/png")),
        ("data", .str c.base64)]

def image (c : ImageContent) : JsonObject :=
  .ofFields [("type", .str "image"), ("source", .obj (imageSource c))]

/-- `toClaudeInnerBlock`. -/
def innerBlock (block : ToolContent) : JsonObject := renderToolContent "text" image block

/-- `buildClaudeToolResultContent`. -/
def toolResultContent (r : ToolResult) : JsonValue :=
  match r.content with
  | [] => .str ""
  | [.text c] => .str c.text
  | content => .arr (content.map fun block => .obj (innerBlock block))

/-- The block of a tool result. -/
def toolResultBlock (toolUseId : String) (r : ToolResult) : JsonObject :=
  let block := JsonObject.ofFields
    [("type", .str "tool_result"), ("tool_use_id", .str toolUseId),
      ("content", toolResultContent r)]
  if r.isError then block.insert "is_error" (.bool true) else block

/-- A block that carries a signature if it has one. -/
def signed (block : JsonObject) (signature : String) : JsonObject :=
  if signature.isEmpty then block else block.insert "signature" (.str signature)

def serializeTurnContent : TurnContent → JsonObject
  | .text c => .ofFields [("type", .str "text"), ("text", .str c.text)]
  | .image c => image c
  | .audio c =>
      .ofFields [("type", .str "text"),
        ("text", .str ("[audio: " ++ mimeTypeOr c.mimeType "unknown" ++ "]"))]
  | .toolUse c =>
      .ofFields [("type", .str "tool_use"), ("id", .str c.id), ("name", .str c.name),
        ("input", .obj c.input)]
  | .toolResult c => toolResultBlock c.toolUseId (toToolResult c)
  | .thinking c =>
      signed (.ofFields [("type", .str "thinking"), ("thinking", .str c.thinking)]) c.signature
  | .redactedThinking c => signed (.ofFields [("type", .str "redacted_thinking")]) c.signature

def serializeBlocks (blocks : List TurnContent) : List JsonValue :=
  blocks.map fun block => .obj (serializeTurnContent block)

def toProviderFormat (m : ClaudeMessage) : JsonObject :=
  .ofFields [("role", .str "assistant"), ("content", .arr (serializeBlocks m.currentBlocks))]

def createToolResultsContent (m : ClaudeMessage) (toolResults : ToolResults) : List JsonValue :=
  mapToolResults m.currentBlocks toolResults fun use r => toolResultBlock use.id r

end ClaudeMessage

/-! ### The client -/

namespace ClaudeClient

def kDefaultMaxTokens : Int := 8192

def usageSchema : UsageSchema where
  container := "usage"
  prompt := ⟨"", "input_tokens"⟩
  completion := ⟨"", "output_tokens"⟩
  cached := ⟨"", "cache_read_input_tokens"⟩

/-- `sendMessage`. -/
def sendMessage (_ : ClientSettings) (payload : JsonObject) (endpoint : String)
    (mode : RequestMode) : JsonObject × String :=
  (payload.insert "stream" (.bool (mode = .streaming)), endpoint)

def turnMessage (turn : Turn) : JsonObject :=
  .ofFields
    [("role", .str (if turn.role = .assistant then "assistant" else "user")),
      ("content", .arr (ClaudeMessage.serializeBlocks turn.content))]

/-- The array `messages` of a conversation. -/
def messages (conversation : Conversation) : List JsonValue :=
  conversation.turns.map fun turn => .obj (turnMessage turn)

def buildConversationPayload (settings : ClientSettings) (conversation : Conversation) :
    JsonObject :=
  let payload := JsonObject.ofFields
    [("model", .str settings.model),
      ("max_tokens", .num (settings.maxOutputTokens.getD kDefaultMaxTokens))]
  let payload :=
    if conversation.system.isEmpty then payload
    else payload.insert "system" (.str conversation.system)
  payload.insert "messages" (.arr (messages conversation))

def buildContinuationPayload (originalPayload : JsonObject) (message : ClaudeMessage)
    (toolResults : ToolResults) : JsonObject :=
  let userMessage := JsonObject.ofFields
    [("role", .str "user"), ("content", .arr (message.createToolResultsContent toolResults))]
  originalPayload.insert "messages" (.arr ((originalPayload.value "messages").toArray ++
    [.obj message.toProviderFormat, .obj userMessage]))

/-- The message and the effects of an event. -/
def received (r : ClaudeMessage × MessageEffects) : Reception ClaudeMessage := .applied r.1 r.2

def processSseEvent (codec : JsonCodec) (message : Option ClaudeMessage) (_ : SSEEvent)
    (event : JsonObject) : Reception ClaudeMessage :=
  match message with
  | some m => received (m.applyEvent codec event)
  | none =>
      let eventType := (event.value "type").toString
      if eventType ≠ "message_start" && eventType ≠ "error" then .dropped
      else received (ClaudeMessage.applyEvent codec {} event)

def processBufferedBody (codec : JsonCodec) (message : Option ClaudeMessage)
    (response : JsonObject) : Reception ClaudeMessage :=
  received ((ensureMessage ClaudeMessage.toBaseMessage {} ClaudeMessage.startNewContinuation
    message).applyResponse codec response)

end ClaudeClient

/-- `ClaudeClient`. -/
def claudeClient (codec : JsonCodec) (toolsDefinitions : ToolsManager → List JsonValue) :
    ProviderClient where
  Msg := ClaudeMessage
  base := ClaudeMessage.toBaseMessage
  withBase m base := { m with toBaseMessage := base }
  Derived := Unit
  noDerived := ()
  usageSchema := ClaudeClient.usageSchema
  errorAnnotations := [⟨"", "type"⟩]
  toolsDefinitions := toolsDefinitions
  sendMessage := ClaudeClient.sendMessage
  buildConversationPayload := ClaudeClient.buildConversationPayload
  buildContinuationPayload := ClaudeClient.buildContinuationPayload
  processSseEvent := ClaudeClient.processSseEvent codec
  processBufferedBody := ClaudeClient.processBufferedBody codec

end LLMQore
