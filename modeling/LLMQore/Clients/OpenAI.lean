import LLMQore.Core.ProviderClient

/-!
# LLMQore.Clients.OpenAI

The client of the chat completions API (`OpenAIClient`) and its message (`OpenAIMessage`).
-/

namespace LLMQore

open Network Tools

structure OpenAIMessage extends BaseMessage where
  toolCalls : ToolCallAccumulator Int := {}

namespace OpenAIMessage

/-- `startNewContinuation`. -/
def startNewContinuation (m : OpenAIMessage) : OpenAIMessage :=
  { toBaseMessage := m.toBaseMessage.startNewContinuation }

/-! ### Content parts -/

structure ContentParts where
  thinking : String := ""
  text : String := ""

/-- The text of an entry of a `thinking` array. -/
def thinkingEntry (value : JsonValue) : String :=
  if value.isString then value.toString
  else
    let o := value.toObject
    if (o.value "type").toString = "text" then (o.value "text").toString else ""

/-- What a part of type `thinking` adds. -/
def thinkingOf (part : JsonObject) : String :=
  match part.value "thinking" with
  | .str s => s
  | .arr xs => xs.foldl (fun out x => out ++ thinkingEntry x) ""
  | _ => (part.value "text").toString

def addPart (out : ContentParts) (part : JsonObject) : ContentParts :=
  let type := (part.value "type").toString
  if type = "text" then { out with text := out.text ++ (part.value "text").toString }
  else if type = "thinking" then { out with thinking := out.thinking ++ thinkingOf part }
  else out

def splitContentParts : JsonValue → ContentParts
  | .str s => { text := s }
  | .arr parts => parts.foldl (fun out part => addPart out part.toObject) {}
  | _ => {}

/-! ### Events -/

def handleReasoningDelta (m : OpenAIMessage) (reasoning : String) : OpenAIMessage :=
  { m with toBaseMessage := m.toBaseMessage.appendThinkingDelta reasoning }

def handleContentDelta (m : OpenAIMessage) (content : String) : OpenAIMessage :=
  { m with toBaseMessage := m.toBaseMessage.appendTextDelta content }

def isAbsent (value : JsonValue) : Bool := value.isUndefined || value.isNull

def takeReasoning (m : OpenAIMessage) (source : JsonObject) : OpenAIMessage :=
  let reasoning := source.value "reasoning_content"
  if isAbsent reasoning then m else m.handleReasoningDelta reasoning.toString

def takeReasoningAndText (m : OpenAIMessage) (source : JsonObject) : OpenAIMessage × String :=
  let m := m.takeReasoning source
  let content := source.value "content"
  if isAbsent content then (m, "")
  else
    let parts := splitContentParts content
    (if parts.thinking.isEmpty then m else m.handleReasoningDelta parts.thinking, parts.text)

def handleToolCallStart (m : OpenAIMessage) (index : Int) (id name : String) : OpenAIMessage :=
  let (block, base) := m.toBaseMessage.addCurrentContent (.toolUse ⟨id, name, []⟩)
  { toBaseMessage := base, toolCalls := m.toolCalls.start index block }

/-- The loop body over `tool_calls`. -/
def handleToolCall (m : OpenAIMessage) (toolCall : JsonObject) : OpenAIMessage :=
  let index := (toolCall.value "index").toInt
  let function := (toolCall.value "function").toObject
  let toolCallId := (toolCall.value "id").toString
  let m :=
    if toolCallId.isEmpty then m
    else m.handleToolCallStart index toolCallId (function.value "name").toString
  if function.contains "arguments" then
    { m with toolCalls := m.toolCalls.delta index (function.value "arguments").toString }
  else m

def handleToolCalls (m : OpenAIMessage) (toolCalls : List JsonValue) : OpenAIMessage :=
  toolCalls.foldl (fun m toolCall => m.handleToolCall toolCall.toObject) m

def stopReasonMap : StopReasonMap where
  toolReasons := ["tool_calls"]
  completeReasons := []
  finalReasons := ["stop"]
  openReasons := []

/-- Complete the tool calls and record the stop reason. -/
def finish (codec : JsonCodec) (m : OpenAIMessage) (finishReason : String) : OpenAIMessage :=
  let (toolCalls, base) := m.toolCalls.completeAll codec m.toBaseMessage
  { toBaseMessage := base.recordStopReason finishReason stopReasonMap, toolCalls }

/-- `applyEvent` from the delta of the first choice on. -/
def applyChoice (codec : JsonCodec) (m : OpenAIMessage) (usage : JsonObject)
    (choice : JsonObject) : OpenAIMessage × MessageEffects :=
  let delta := (choice.value "delta").toObject
  let finishReason := (choice.value "finish_reason").toString
  let (m, text) := m.takeReasoningAndText delta
  let m := if text.isEmpty then m else m.handleContentDelta text
  let m := m.handleToolCalls (delta.value "tool_calls").toArray
  if finishReason.isEmpty || finishReason = "null" then
    (m, { usage, chunk := text, thinkingCompleted := !text.isEmpty })
  else
    (m.finish codec finishReason,
      { usage, chunk := text, thinkingCompleted := true, toolsReady := true })

def applyEvent (codec : JsonCodec) (m : OpenAIMessage) (chunk : JsonObject) :
    OpenAIMessage × MessageEffects :=
  match errorIn chunk with
  | some error => (m, { error := some error })
  | none =>
      let usage := if (chunk.value "usage").isObject then chunk else []
      match (chunk.value "choices").toArray with
      | [] => (m, { usage })
      | choice :: _ => m.applyChoice codec usage choice.toObject

/-- The tool calls of a buffered message, each with its position. -/
def indexedCalls (position : Nat) : List JsonValue → List JsonValue
  | [] => []
  | value :: rest =>
      let call := value.toObject.insert "index" (.num position)
      let call :=
        if (call.value "id").toString.isEmpty then
          call.insert "id" (.str ("call_" ++ toString position))
        else call
      .obj call :: indexedCalls (position + 1) rest

/-- `bufferedChoiceAsDelta`. -/
def bufferedChoiceAsDelta (choice : JsonObject) : JsonObject :=
  let delta := (choice.value "message").toObject
  let toolCalls := (delta.value "tool_calls").toArray
  let delta :=
    if toolCalls.isEmpty then delta
    else delta.insert "tool_calls" (.arr (indexedCalls 0 toolCalls))
  (choice.remove "message").insert "delta" (.obj delta)

def applyResponse (codec : JsonCodec) (m : OpenAIMessage) (response : JsonObject) :
    OpenAIMessage × MessageEffects :=
  match (response.value "choices").toArray with
  | [] =>
      (m, { error := some (.ofFields [("message", .str "Empty choices in buffered response")]) })
  | choice :: _ =>
      m.applyEvent codec
        (response.insert "choices" (.arr [.obj (bufferedChoiceAsDelta choice.toObject)]))

/-! ### Serialization -/

/-- What `serializeTurn` collects. -/
structure TurnParts where
  textContent : String := ""
  reasoningContent : String := ""
  parts : List JsonValue := []
  toolCalls : List JsonValue := []

/-- The URL of an image, which inlines its data if it has no link. -/
def imageUrl (c : ImageContent) : String :=
  if c.isUrl then c.url
  else "data:" ++ mimeTypeOr c.mimeType "image/png" ++ ";base64," ++ c.base64

def toolCallItem (codec : JsonCodec) (c : ToolUseContent) : JsonObject :=
  .ofFields
    [("id", .str c.id), ("type", .str "function"),
      ("function", .obj (JsonObject.ofFields
        [("name", .str c.name), ("arguments", .str (codec.toJson c.input))]))]

/-- The visit of a block in `serializeTurn`. -/
def addBlock (codec : JsonCodec) (isAssistant : Bool) (t : TurnParts) : TurnContent → TurnParts
  | .text c =>
      let t := { t with textContent := t.textContent ++ c.text }
      if isAssistant then t
      else
        { t with
          parts := t.parts ++ [.obj (JsonObject.ofFields [("type", .str "text"), ("text", .str c.text)])] }
  | .image c =>
      if isAssistant then t
      else
        { t with
          parts := t.parts ++ [.obj (JsonObject.ofFields
            [("type", .str "image_url"),
              ("image_url", .obj (JsonObject.ofFields [("url", .str (imageUrl c))]))])] }
  | .audio _ => t
  | .toolUse c => { t with toolCalls := t.toolCalls ++ [.obj (toolCallItem codec c)] }
  | .toolResult _ => t
  | .thinking c => { t with reasoningContent := t.reasoningContent ++ c.thinking }
  | .redactedThinking _ => t

def hasNonText : List JsonValue → Bool
  | [] => false
  | [part] => (part.toObject.value "type").toString != "text"
  | _ :: _ :: _ => true

def serializeTurn (codec : JsonCodec) (role : TurnRole) (blocks : List TurnContent) :
    JsonObject :=
  let isAssistant := decide (role = .assistant)
  let t := blocks.foldl (addBlock codec isAssistant) {}
  let message := JsonObject.ofFields
    [("role", .str (if isAssistant then "assistant" else "user"))]
  let message :=
    if !isAssistant && hasNonText t.parts then message.insert "content" (.arr t.parts)
    else if !t.textContent.isEmpty then message.insert "content" (.str t.textContent)
    else if isAssistant then message.insert "content" .null
    else message
  let message :=
    if t.reasoningContent.isEmpty then message
    else message.insert "reasoning_content" (.str t.reasoningContent)
  if t.toolCalls.isEmpty then message else message.insert "tool_calls" (.arr t.toolCalls)

def toProviderFormat (codec : JsonCodec) (m : OpenAIMessage) : JsonObject :=
  serializeTurn codec .assistant m.currentBlocks

/-- The message of a tool result. -/
def toolMessage (codec : JsonCodec) (toolUseId : String) (r : ToolResult) : JsonObject :=
  .ofFields
    [("role", .str "tool"), ("tool_call_id", .str toolUseId),
      ("content", .str (toolResultText codec r))]

def createToolResultMessages (codec : JsonCodec) (m : OpenAIMessage) (toolResults : ToolResults) :
    List JsonValue :=
  mapToolResults m.currentBlocks toolResults fun use r => toolMessage codec use.id r

end OpenAIMessage

/-! ### The client -/

/-- `OpenAIClient::errorAnnotations`. -/
def openAIErrorAnnotations : List ErrorAnnotation := [⟨"type", "type"⟩, ⟨"code", "code"⟩]

/-- The system prompt as the first message, if there is one. -/
def systemMessages (conversation : Conversation) : List JsonValue :=
  if conversation.system.isEmpty then []
  else [.obj (JsonObject.ofFields [("role", .str "system"), ("content", .str conversation.system)])]

/-- The tool results among the blocks of a turn. -/
def toolResultsOf (content : List TurnContent) : List ToolResultContent :=
  content.filterMap fun block => match block with
    | .toolResult c => some c
    | _ => none

/-- `BaseClient::appendChatMessagesContinuation`. -/
def appendChatMessagesContinuation (originalPayload assistantMessage : JsonObject)
    (toolMessages : List JsonValue) : JsonObject :=
  originalPayload.insert "messages" (.arr ((originalPayload.value "messages").toArray ++
    .obj assistantMessage :: toolMessages))

namespace OpenAIClient

def usageSchema : UsageSchema where
  container := "usage"
  prompt := ⟨"", "prompt_tokens"⟩
  completion := ⟨"", "completion_tokens"⟩
  cached := ⟨"prompt_tokens_details", "cached_tokens"⟩
  reasoning := ⟨"completion_tokens_details", "reasoning_tokens"⟩

/-- `sendMessage`. -/
def sendMessage (_ : ClientSettings) (payload : JsonObject) (endpoint : String)
    (mode : RequestMode) : JsonObject × String :=
  let request := payload.insert "stream" (.bool (mode = .streaming))
  (if mode = .streaming then
    request.insert "stream_options"
      (.obj ((request.value "stream_options").toObject.insert "include_usage" (.bool true)))
    else request, endpoint)

/-- The messages of a turn. -/
def turnMessages (codec : JsonCodec) (turn : Turn) : List JsonValue :=
  if turn.role = .tool then
    (toolResultsOf turn.content).map fun c =>
      .obj (OpenAIMessage.toolMessage codec c.toolUseId (toToolResult c))
  else [.obj (OpenAIMessage.serializeTurn codec turn.role turn.content)]

/-- The array `messages` of a conversation. -/
def messages (codec : JsonCodec) (conversation : Conversation) : List JsonValue :=
  systemMessages conversation ++ conversation.turns.flatMap (turnMessages codec)

def buildConversationPayload (codec : JsonCodec) (settings : ClientSettings)
    (conversation : Conversation) : JsonObject :=
  (JsonObject.ofFields [("model", .str settings.model)]).insert "messages"
    (.arr (messages codec conversation))

def buildContinuationPayload (codec : JsonCodec) (originalPayload : JsonObject)
    (message : OpenAIMessage) (toolResults : ToolResults) : JsonObject :=
  appendChatMessagesContinuation originalPayload (message.toProviderFormat codec)
    (message.createToolResultMessages codec toolResults)

/-- `ensureMessage<OpenAIMessage>`. -/
def ensure (message : Option OpenAIMessage) : OpenAIMessage :=
  ensureMessage OpenAIMessage.toBaseMessage {} OpenAIMessage.startNewContinuation message

/-- The message and the effects of an event. -/
def received (r : OpenAIMessage × MessageEffects) : Reception OpenAIMessage := .applied r.1 r.2

def processSseEvent (codec : JsonCodec) (message : Option OpenAIMessage) (_ : SSEEvent)
    (chunk : JsonObject) : Reception OpenAIMessage :=
  match message, (chunk.value "choices").toArray with
  | some m, [] => received (m.applyEvent codec chunk)
  | message, _ => received ((ensure message).applyEvent codec chunk)

def processBufferedBody (codec : JsonCodec) (message : Option OpenAIMessage)
    (response : JsonObject) : Reception OpenAIMessage :=
  received ((ensure message).applyResponse codec response)

end OpenAIClient

/-- `OpenAIClient`. -/
def openAIClient (codec : JsonCodec) (toolsDefinitions : ToolsManager → List JsonValue) :
    ProviderClient where
  Msg := OpenAIMessage
  base := OpenAIMessage.toBaseMessage
  withBase m base := { m with toBaseMessage := base }
  Derived := Unit
  noDerived := ()
  usageSchema := OpenAIClient.usageSchema
  errorAnnotations := openAIErrorAnnotations
  toolsDefinitions := toolsDefinitions
  sendMessage := OpenAIClient.sendMessage
  buildConversationPayload := OpenAIClient.buildConversationPayload codec
  buildContinuationPayload := OpenAIClient.buildContinuationPayload codec
  processSseEvent := OpenAIClient.processSseEvent codec
  processBufferedBody := OpenAIClient.processBufferedBody codec

end LLMQore
