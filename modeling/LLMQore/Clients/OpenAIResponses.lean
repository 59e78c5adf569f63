import LLMQore.Clients.OpenAI

/-!
# LLMQore.Clients.OpenAIResponses

The client of the Responses API (`OpenAIResponsesClient`) and its message
(`OpenAIResponsesMessage`).
-/

namespace LLMQore

open Network Tools

inductive ReasoningPersistence where
  | off | replay
  deriving DecidableEq

structure OpenAIResponsesMessage extends BaseMessage where
  toolCalls : ToolCallAccumulator String := {}
  thinkingBlocks : AList (fun _ : String => Nat) := ∅
  itemIdToCallId : AList (fun _ : String => String) := ∅

namespace OpenAIResponsesMessage

/-- `startNewContinuation`. -/
def startNewContinuation (m : OpenAIResponsesMessage) : OpenAIResponsesMessage :=
  { toBaseMessage := m.toBaseMessage.startNewContinuation }

/-! ### Events -/

def handleContentDelta (m : OpenAIResponsesMessage) (text : String) : OpenAIResponsesMessage :=
  { m with toBaseMessage := m.toBaseMessage.appendTextDelta text }

def handleToolCallStart (m : OpenAIResponsesMessage) (callId name : String) :
    OpenAIResponsesMessage :=
  let (block, base) := m.toBaseMessage.addCurrentContent (.toolUse ⟨callId, name, []⟩)
  { m with toBaseMessage := base, toolCalls := m.toolCalls.start callId block }

def handleToolCallComplete (codec : JsonCodec) (m : OpenAIResponsesMessage)
    (callId finalArguments : String) : OpenAIResponsesMessage :=
  let (toolCalls, base) := m.toolCalls.complete codec m.toBaseMessage callId finalArguments
  { m with toBaseMessage := base, toolCalls }

def handleReasoningStart (m : OpenAIResponsesMessage) (itemId : String) :
    OpenAIResponsesMessage :=
  let (block, base) := m.toBaseMessage.addCurrentContent (.thinking { itemId })
  { m with toBaseMessage := base, thinkingBlocks := m.thinkingBlocks.insert itemId block }

/-- The message with a thinking block for the item. -/
def withReasoning (m : OpenAIResponsesMessage) (itemId : String) : OpenAIResponsesMessage :=
  if itemId ∈ m.thinkingBlocks then m else m.handleReasoningStart itemId

/-- Change the thinking block of an item. -/
def changeReasoning (m : OpenAIResponsesMessage) (itemId : String)
    (f : ThinkingContent → ThinkingContent) : OpenAIResponsesMessage :=
  match m.thinkingBlocks.lookup itemId with
  | none => m
  | some block => { m with toBaseMessage := m.toBaseMessage.changeBlock block (.onThinking f) }

def handleReasoningEncryptedContent (m : OpenAIResponsesMessage)
    (itemId encryptedContent : String) : OpenAIResponsesMessage :=
  if encryptedContent.isEmpty then m
  else (m.withReasoning itemId).changeReasoning itemId fun c => { c with encryptedContent }

def handleReasoningDelta (m : OpenAIResponsesMessage) (itemId text : String) :
    OpenAIResponsesMessage :=
  if text.isEmpty then m
  else
    (m.withReasoning itemId).changeReasoning itemId fun c =>
      { c with thinking := c.thinking ++ text }

def stopReasonMap : StopReasonMap where
  toolReasons := ["completed"]
  completeReasons := ["completed"]
  finalReasons := ["failed", "cancelled", "incomplete"]
  openReasons := ["in_progress"]
  fallback := .building

def handleStopReason (m : OpenAIResponsesMessage) (status : String) : OpenAIResponsesMessage :=
  { m with toBaseMessage := m.toBaseMessage.recordStopReason status stopReasonMap }

def streamingReasoningPlaceholder : String :=
  "[Reasoning process completed, but detailed thinking is not available in streaming mode.]"

def responseFailedError : JsonObject := .ofFields [("message", .str "Response failed")]

/-- The text of an object of one of the given types. -/
def textOfType (type : String) (value : JsonValue) : Option String :=
  if (value.toObject.value "type").toString = type then some (value.toObject.value "text").toString
  else none

/-- `reasoningTextOf`. -/
def reasoningTextOf (item : JsonObject) : String :=
  match (item.value "summary").toArray.findSome? (textOfType "summary_text") with
  | some text => text
  | none =>
      "\n".intercalate ((item.value "content").toArray.filterMap (textOfType "reasoning_text"))

/-- `aggregatedTextOf`. -/
def aggregatedTextOf (response : JsonObject) : String :=
  let outputText := (response.value "output_text").toString
  if !outputText.isEmpty then outputText
  else
    let messages := (response.value "output").toArray.filter fun item =>
      (item.toObject.value "type").toString = "message"
    String.join (messages.flatMap fun item =>
      (item.toObject.value "content").toArray.filterMap (textOfType "output_text"))

/-- `accumulatedText`. -/
def accumulatedText (m : OpenAIResponsesMessage) : String :=
  String.join (m.currentBlocks.filterMap fun block => match block with
    | .text c => some c.text
    | _ => none)

/-- `applyReasoningItem`. -/
def applyReasoningItem (m : OpenAIResponsesMessage) (itemId : String) (item : JsonObject)
    (placeholder : String) : OpenAIResponsesMessage :=
  if itemId.isEmpty then m
  else
    let text := if (reasoningTextOf item).isEmpty then placeholder else reasoningTextOf item
    let encrypted := (item.value "encrypted_content").toString
    if text.isEmpty && encrypted.isEmpty then m
    else (m.handleReasoningDelta itemId text).handleReasoningEncryptedContent itemId encrypted

/-- `applyItemDone`. -/
def applyItemDone (codec : JsonCodec) (m : OpenAIResponsesMessage) (data : JsonObject) :
    OpenAIResponsesMessage × MessageEffects :=
  let itemId := (data.value "item_id").toString
  let item := (data.value "item").toObject
  let itemType := (item.value "type").toString
  if !item.isEmpty && itemType = "reasoning" then
    let finalItemId := if itemId.isEmpty then (item.value "id").toString else itemId
    (m.applyReasoningItem finalItemId item streamingReasoningPlaceholder,
      { thinkingCompleted := !finalItemId.isEmpty })
  else if item.isEmpty && !itemId.isEmpty then
    let callId := (m.itemIdToCallId.lookup itemId).getD ""
    (if callId.isEmpty then m
      else m.handleToolCallComplete codec callId (data.value "arguments").toString, {})
  else if !item.isEmpty && itemType = "function_call" then
    let callId := (item.value "call_id").toString
    (if callId.isEmpty then m
      else m.handleToolCallComplete codec callId (item.value "arguments").toString, {})
  else (m, {})

/-- `applyTerminal`. -/
def applyTerminal (m : OpenAIResponsesMessage) (response : JsonObject) (fallbackStatus : String) :
    OpenAIResponsesMessage × MessageEffects :=
  if response.isEmpty then
    (m.handleStopReason fallbackStatus, { thinkingCompleted := true, toolsReady := true })
  else
    (m.handleStopReason (response.value "status").toString,
      { fallbackText := if m.accumulatedText.isEmpty then aggregatedTextOf response else ""
        usage := response
        thinkingCompleted := true
        toolsReady := true })

/-- The event `response.output_item.added`. -/
def addItem (m : OpenAIResponsesMessage) (item : JsonObject) : OpenAIResponsesMessage :=
  let itemType := (item.value "type").toString
  let itemId := (item.value "id").toString
  if itemType = "function_call" then
    let callId := (item.value "call_id").toString
    let name := (item.value "name").toString
    if !callId.isEmpty && !name.isEmpty then
      { m with itemIdToCallId := m.itemIdToCallId.insert itemId callId }.handleToolCallStart
        callId name
    else m
  else if itemType = "reasoning" && !itemId.isEmpty then
    (m.handleReasoningStart itemId).handleReasoningEncryptedContent itemId
      (item.value "encrypted_content").toString
  else m

def applyEvent (codec : JsonCodec) (m : OpenAIResponsesMessage) (eventType : String)
    (data : JsonObject) : OpenAIResponsesMessage × MessageEffects :=
  if eventType = "response.output_text.delta" then
    let delta := (data.value "delta").toString
    (if delta.isEmpty then m else m.handleContentDelta delta, { chunk := delta })
  else if eventType = "response.output_text.done" then
    (m, { fullText := (data.value "text").toString })
  else if eventType = "response.output_item.added" then
    (m.addItem (data.value "item").toObject, {})
  else if eventType = "response.reasoning_content.delta" then
    (m.handleReasoningDelta (data.value "item_id").toString (data.value "delta").toString, {})
  else if eventType = "response.reasoning_content.done" then
    (m, { thinkingCompleted := !(data.value "item_id").toString.isEmpty })
  else if eventType = "response.function_call_arguments.delta" then
    let callId := (m.itemIdToCallId.lookup (data.value "item_id").toString).getD ""
    let delta := (data.value "delta").toString
    (if !callId.isEmpty && !delta.isEmpty then
      { m with toolCalls := m.toolCalls.delta callId delta } else m, {})
  else if eventType = "response.function_call_arguments.done" ||
      eventType = "response.output_item.done" then
    m.applyItemDone codec data
  else if eventType = "response.completed" then
    m.applyTerminal (data.value "response").toObject ""
  else if eventType = "response.incomplete" then
    m.applyTerminal (data.value "response").toObject "incomplete"
  else if eventType = "response.failed" then
    let error := ((data.value "response").toObject.value "error").toObject
    (m.handleStopReason "failed",
      { error := some (if error.isEmpty then responseFailedError else error) })
  else if eventType = "error" then
    (m, { error := some ((data.remove "type").remove "sequence_number") })
  else (m, {})

/-- The texts of an output message that are not empty. -/
def outputTexts (item : JsonObject) : List String :=
  ((item.value "content").toArray.filterMap (textOfType "output_text")).filter (!·.isEmpty)

/-- `applyOutputItem`. -/
def applyOutputItem (codec : JsonCodec) (r : OpenAIResponsesMessage × MessageEffects)
    (item : JsonObject) : OpenAIResponsesMessage × MessageEffects :=
  let itemType := (item.value "type").toString
  if itemType = "reasoning" then
    (r.1.applyReasoningItem (item.value "id").toString item "", r.2)
  else if itemType = "message" then
    ((outputTexts item).foldl handleContentDelta r.1,
      { r.2 with chunk := r.2.chunk ++ String.join (outputTexts item) })
  else if itemType = "function_call" then
    let callId := (item.value "call_id").toString
    let name := (item.value "name").toString
    if !callId.isEmpty && !name.isEmpty then
      ((r.1.handleToolCallStart callId name).handleToolCallComplete codec callId
        (item.value "arguments").toString, r.2)
    else r
  else r

def applyResponse (codec : JsonCodec) (m : OpenAIResponsesMessage) (response : JsonObject) :
    OpenAIResponsesMessage × MessageEffects :=
  let (m, effects) := (response.value "output").toArray.foldl
    (fun r item => applyOutputItem codec r item.toObject) (m, {})
  let status := (response.value "status").toString
  let effects := { effects with
    thinkingCompleted := true
    usage := response
    error := if status = "failed" then some responseFailedError else none }
  if status.isEmpty then (m, effects)
  else (m.handleStopReason status, { effects with toolsReady := true })

/-! ### Serialization -/

/-- What `serializeTurn` collects; `textPosition` is where the text goes. -/
structure TurnItems where
  items : List JsonObject := []
  parts : List JsonValue := []
  textContent : String := ""
  textPosition : Option Nat := none

def functionCallItem (codec : JsonCodec) (c : ToolUseContent) : JsonObject :=
  .ofFields
    [("type", .str "function_call"), ("call_id", .str c.id), ("name", .str c.name),
      ("arguments", .str (codec.toJson c.input))]

def reasoningItem (c : ThinkingContent) : JsonObject :=
  .ofFields
    [("type", .str "reasoning"), ("id", .str c.itemId),
      ("encrypted_content", .str c.encryptedContent), ("summary", .arr [])]

/-- The URL of an image, which inlines its data if it has no link. -/
def inputImage (c : ImageContent) : JsonObject :=
  .ofFields
    [("type", .str "input_image"), ("image_url", .str (OpenAIMessage.imageUrl c)),
      ("detail", .str "auto")]

/-- The visit of a block in `serializeTurn`. -/
def addBlock (codec : JsonCodec) (isAssistant includeReasoning : Bool) (t : TurnItems) :
    TurnContent → TurnItems
  | .text c =>
      if isAssistant then
        { t with
          textPosition := t.textPosition.or (some t.items.length)
          textContent := t.textContent ++ c.text }
      else
        { t with
          parts := t.parts ++
            [.obj (JsonObject.ofFields [("type", .str "input_text"), ("text", .str c.text)])] }
  | .image c => if isAssistant then t else { t with parts := t.parts ++ [.obj (inputImage c)] }
  | .audio _ => t
  | .toolUse c => { t with items := t.items ++ [functionCallItem codec c] }
  | .toolResult _ => t
  | .thinking c =>
      if !includeReasoning || c.itemId.isEmpty || c.encryptedContent.isEmpty then t
      else { t with items := t.items ++ [reasoningItem c] }
  | .redactedThinking _ => t

def serializeTurn (codec : JsonCodec) (role : TurnRole) (blocks : List TurnContent)
    (reasoning : ReasoningPersistence) : List JsonObject :=
  let isAssistant := decide (role = .assistant)
  let t := blocks.foldl (addBlock codec isAssistant (decide (reasoning = .replay))) {}
  if !isAssistant then
    if t.parts.isEmpty then t.items
    else t.items ++ [.ofFields [("role", .str "user"), ("content", .arr t.parts)]]
  else if t.textContent.isEmpty then t.items
  else
    t.items.insertIdx (min (t.textPosition.getD 0) t.items.length)
      (.ofFields [("role", .str "assistant"), ("content", .str t.textContent)])

def toItemsFormat (codec : JsonCodec) (m : OpenAIResponsesMessage)
    (reasoning : ReasoningPersistence) : List JsonObject :=
  serializeTurn codec .assistant m.currentBlocks reasoning

/-- `toResponsesInnerBlock`. -/
def toResponsesInnerBlock (block : ToolContent) : JsonObject :=
  renderToolContent "input_text" inputImage block

/-- The item of a tool result. -/
def toolResultItem (codec : JsonCodec) (toolUseId : String) (r : ToolResult) : JsonObject :=
  let item := JsonObject.ofFields
    [("type", .str "function_call_output"), ("call_id", .str toolUseId)]
  if r.hasOnlyText then item.insert "output" (.str (toolResultText codec r))
  else item.insert "output" (.arr (r.content.map fun block => .obj (toResponsesInnerBlock block)))

def createToolResultItems (codec : JsonCodec) (m : OpenAIResponsesMessage)
    (toolResults : ToolResults) : List JsonValue :=
  mapToolResults m.currentBlocks toolResults fun use r => toolResultItem codec use.id r

end OpenAIResponsesMessage

/-! ### The client -/

namespace OpenAIResponsesClient

def usageSchema : UsageSchema where
  container := "usage"
  prompt := ⟨"", "input_tokens"⟩
  completion := ⟨"", "output_tokens"⟩
  cached := ⟨"input_tokens_details", "cached_tokens"⟩
  reasoning := ⟨"output_tokens_details", "reasoning_tokens"⟩

/-- `sendMessage`. -/
def sendMessage (reasoning : ReasoningPersistence) (_ : ClientSettings) (payload : JsonObject)
    (endpoint : String) (mode : RequestMode) : JsonObject × String :=
  let request := payload.insert "stream" (.bool (mode = .streaming))
  (if reasoning = .replay && !request.contains "store" then request.insert "store" (.bool false)
    else request, endpoint)

/-- The input items of a turn. -/
def turnItems (codec : JsonCodec) (reasoning : ReasoningPersistence) (turn : Turn) :
    List JsonValue :=
  if turn.role = .tool then
    (toolResultsOf turn.content).map fun c =>
      .obj (OpenAIResponsesMessage.toolResultItem codec c.toolUseId (toToolResult c))
  else
    (OpenAIResponsesMessage.serializeTurn codec turn.role turn.content reasoning).map .obj

/-- The array `input` of a conversation. -/
def input (codec : JsonCodec) (reasoning : ReasoningPersistence) (conversation : Conversation) :
    List JsonValue :=
  conversation.turns.flatMap (turnItems codec reasoning)

def buildConversationPayload (codec : JsonCodec) (reasoning : ReasoningPersistence)
    (settings : ClientSettings) (conversation : Conversation) : JsonObject :=
  let payload := JsonObject.ofFields [("model", .str settings.model)]
  let payload :=
    if conversation.system.isEmpty then payload
    else payload.insert "instructions" (.str conversation.system)
  payload.insert "input" (.arr (input codec reasoning conversation))

def buildContinuationPayload (codec : JsonCodec) (reasoning : ReasoningPersistence)
    (originalPayload : JsonObject) (message : OpenAIResponsesMessage) (toolResults : ToolResults) :
    JsonObject :=
  originalPayload.insert "input" (.arr ((originalPayload.value "input").toArray ++
    (message.toItemsFormat codec reasoning).map .obj ++
    message.createToolResultItems codec toolResults))

/-- `ensureMessage<OpenAIResponsesMessage>`. -/
def ensure (message : Option OpenAIResponsesMessage) : OpenAIResponsesMessage :=
  ensureMessage OpenAIResponsesMessage.toBaseMessage {}
    OpenAIResponsesMessage.startNewContinuation message

/-- The message and the effects of an event. -/
def received (r : OpenAIResponsesMessage × MessageEffects) : Reception OpenAIResponsesMessage :=
  .applied r.1 r.2

def processSseEvent (codec : JsonCodec) (message : Option OpenAIResponsesMessage)
    (event : SSEEvent) (data : JsonObject) : Reception OpenAIResponsesMessage :=
  received ((ensure message).applyEvent codec event.type data)

def processBufferedBody (codec : JsonCodec) (message : Option OpenAIResponsesMessage)
    (response : JsonObject) : Reception OpenAIResponsesMessage :=
  received ((ensure message).applyResponse codec response)

end OpenAIResponsesClient

/-- `OpenAIResponsesClient`. -/
def openAIResponsesClient (codec : JsonCodec) (reasoning : ReasoningPersistence)
    (toolsDefinitions : ToolsManager → List JsonValue) : ProviderClient where
  Msg := OpenAIResponsesMessage
  base := OpenAIResponsesMessage.toBaseMessage
  withBase m base := { m with toBaseMessage := base }
  Derived := Unit
  noDerived := ()
  usageSchema := OpenAIResponsesClient.usageSchema
  errorAnnotations := openAIErrorAnnotations
  toolsDefinitions := toolsDefinitions
  sendMessage := OpenAIResponsesClient.sendMessage reasoning
  buildConversationPayload := OpenAIResponsesClient.buildConversationPayload codec reasoning
  buildContinuationPayload := OpenAIResponsesClient.buildContinuationPayload codec reasoning
  processSseEvent := OpenAIResponsesClient.processSseEvent codec
  processBufferedBody := OpenAIResponsesClient.processBufferedBody codec

end LLMQore
