import LLMQore.Clients.OpenAI
import LLMQore.PlaceMarkers

/-!
# LLMQore.Clients.Ollama

The client of Ollama's chat API (`OllamaClient`) and its message (`OllamaMessage`).
-/

namespace LLMQore

open Network Tools

structure OllamaMessage extends BaseMessage where
  accumulatedContent : String := ""
  contentAddedToTextBlock : Bool := false
  toolCallSequence : Nat := 0

namespace OllamaMessage

/-- `startNewContinuation`; the sequence number of the calls goes on. -/
def startNewContinuation (m : OllamaMessage) : OllamaMessage :=
  { toBaseMessage := m.toBaseMessage.startNewContinuation
    toolCallSequence := m.toolCallSequence }

/-! ### Text -/

/-- White space of a regular expression. -/
def isRegexSpace (c : Char) : Bool := c == ' ' || (9 ≤ c.toNat && c.toNat ≤ 13)

/-- A word character of a regular expression. -/
def isRegexWord (c : Char) : Bool := c.isAlphanum || c == '_'

def fence : List Char := ['\x60', '\x60', '\x60']

/-- `stripMarkdownCodeFence`: what stands between the fences of a text that is one code
block, after the name of its language. -/
def stripMarkdownCodeFence (content : String) : String :=
  let body := Text.trimChars isRegexSpace content.toList
  if fence.isPrefixOf body && fence.isSuffixOf (body.drop 3) then
    Text.trimmed (String.ofList
      (((body.drop 3).take (body.length - 6)).dropWhile isRegexWord))
  else Text.trimmed content

def startsWithChar (s : String) (c : Char) : Bool := s.toList.head? == some c

/-- `QString::contains`. -/
def containsText (s part : String) : Bool :=
  s.toList.tails.any fun rest => part.toList.isPrefixOf rest

/-! ### Events -/

/-- `isAccumulatingToolCall`. -/
def isAccumulatingToolCall (m : OllamaMessage) : Bool :=
  !m.contentAddedToTextBlock && startsWithChar (Text.trimmed m.accumulatedContent) '{'

def handleContentDelta (m : OllamaMessage) (content : String) : OllamaMessage :=
  let accumulated := m.accumulatedContent ++ content
  let trimmed := Text.trimmed accumulated
  if startsWithChar trimmed '{' || startsWithChar trimmed '\x60' then
    { m with accumulatedContent := accumulated }
  else if !m.contentAddedToTextBlock then
    { m with
      toBaseMessage := m.toBaseMessage.setText fun _ => accumulated
      accumulatedContent := accumulated
      contentAddedToTextBlock := true }
  else
    { m with
      toBaseMessage := m.toBaseMessage.appendTextDelta content
      accumulatedContent := accumulated }

def makeToolCallId (m : OllamaMessage) (name : String) : String :=
  Text.arg (Text.arg "call_%1_%2" name) (toString m.toolCallSequence)

/-- Add a tool use with the next id. -/
def addToolUse (m : OllamaMessage) (name : String) (arguments : JsonObject) : OllamaMessage :=
  { m with
    toBaseMessage :=
      (m.toBaseMessage.addCurrentContent (.toolUse ⟨m.makeToolCallId name, name, arguments⟩)).2
    toolCallSequence := m.toolCallSequence + 1 }

def handleToolCall (m : OllamaMessage) (toolCall : JsonObject) : OllamaMessage :=
  let function := (toolCall.value "function").toObject
  let m :=
    if !m.contentAddedToTextBlock && !(Text.trimmed m.accumulatedContent).isEmpty then
      { m with accumulatedContent := "" }
    else m
  m.addToolUse (function.value "name").toString (function.value "arguments").toObject

def handleToolCalls (m : OllamaMessage) (toolCalls : List JsonValue) : OllamaMessage :=
  toolCalls.foldl (fun m toolCall => m.handleToolCall toolCall.toObject) m

def handleThinkingDelta (m : OllamaMessage) (thinking : String) : OllamaMessage :=
  if thinking.isEmpty then m
  else { m with toBaseMessage := m.toBaseMessage.appendThinkingDelta thinking }

def handleThinkingComplete (m : OllamaMessage) (signature : String) : OllamaMessage :=
  match m.toBaseMessage.lastThinkingIndex with
  | none => m
  | some index =>
      { m with
        toBaseMessage := m.toBaseMessage.changeBlock index
          (.onThinking fun c => { c with signature }) }

/-- The arguments of a tool call written as text: an object, or a string that holds one. -/
def legacyArguments (codec : JsonCodec) : JsonValue → Option JsonObject
  | .obj arguments => some arguments
  | .str json =>
      match codec.fromJson (Bytes.ofString json) with
      | .object arguments => some arguments
      | _ => none
  | _ => none

/-- The name and the arguments of the tool call that the content is, if it is one. -/
def legacyToolCall (codec : JsonCodec) (content : String) : Option (String × JsonObject) :=
  let trimmed := stripMarkdownCodeFence content
  if !startsWithChar trimmed '{' then none
  else
    match codec.fromJson (Bytes.ofString trimmed) with
    | .object o =>
        let name := (o.value "name").toString
        if !o.contains "name" || !o.contains "arguments" then none
        else if name.isEmpty then none
        else (legacyArguments codec (o.value "arguments")).map fun arguments => (name, arguments)
    | _ => none

/-- `tryParseToolCall`, where the content is a tool call. -/
def takeLegacyToolCall (m : OllamaMessage) (name : String) (arguments : JsonObject) :
    OllamaMessage :=
  { m with toBaseMessage := m.toBaseMessage.clearBlocks }.addToolUse name arguments

/-- `handleStopReason` where the content is not a tool call: content that was held back
becomes text, unless it looks like a tool call that failed. -/
def releaseContent (m : OllamaMessage) : OllamaMessage :=
  if m.contentAddedToTextBlock || (Text.trimmed m.accumulatedContent).isEmpty then m
  else
    let trimmed := stripMarkdownCodeFence m.accumulatedContent
    if startsWithChar trimmed '{' &&
        (containsText trimmed "\"name\"" || containsText trimmed "\"arguments\"") then
      { m with
        toBaseMessage := m.toBaseMessage.removeBlocksIf TurnContent.isText
        accumulatedContent := "" }
    else
      { m with
        toBaseMessage := m.toBaseMessage.setText fun _ => m.accumulatedContent
        contentAddedToTextBlock := true }

def stopReasonMap : StopReasonMap where
  toolReasons := []
  completeReasons := []
  finalReasons := []
  openReasons := []
  fallback := .final
  toolsOverrideReason := true

def handleStopReason (codec : JsonCodec) (m : OllamaMessage) (doneReason : String) :
    OllamaMessage :=
  let m := match legacyToolCall codec m.accumulatedContent with
    | some (name, arguments) => m.takeLegacyToolCall name arguments
    | none => m.releaseContent
  { m with toBaseMessage := m.toBaseMessage.recordStopReason doneReason stopReasonMap }

/-- The content of `applyEvent`: the object `message` of a chat, or the text `response`. -/
def applyContent (m : OllamaMessage) (event : JsonObject) : OllamaMessage × MessageEffects :=
  if event.contains "message" then
    let message := (event.value "message").toObject
    let m := m.handleThinkingDelta (message.value "thinking").toString
    let content := (message.value "content").toString
    let toolCalls := (message.value "tool_calls").toArray
    if content.isEmpty then (m.handleToolCalls toolCalls, {})
    else
      let m := m.handleContentDelta content
      (m.handleToolCalls toolCalls,
        { thinkingCompleted := true, chunk := if m.isAccumulatingToolCall then "" else content })
  else if event.contains "response" then
    let content := (event.value "response").toString
    (if content.isEmpty then m else m.handleContentDelta content, { chunk := content })
  else (m, {})

/-- The end of `applyEvent`, for the last line of a turn. -/
def applyDone (codec : JsonCodec) (m : OllamaMessage) (effects : MessageEffects)
    (event : JsonObject) : OllamaMessage × MessageEffects :=
  let m :=
    if event.contains "signature" then
      m.handleThinkingComplete (event.value "signature").toString
    else m
  (m.handleStopReason codec (event.value "done_reason").toString,
    { effects with usage := event, thinkingCompleted := true, toolsReady := true })

def applyEvent (codec : JsonCodec) (m : OllamaMessage) (event : JsonObject) :
    OllamaMessage × MessageEffects :=
  match errorIn event with
  | some error => (m, { error := some error })
  | none =>
      let m := m.handleThinkingDelta (event.value "thinking").toString
      let (m, effects) := m.applyContent event
      if (event.value "done").toBool then m.applyDone codec effects event else (m, effects)

/-! ### Serialization -/

/-- What `serializeTurn` collects. -/
structure TurnParts where
  textContent : String := ""
  toolCalls : List JsonValue := []
  thinkingContent : String := ""
  images : List JsonValue := []

def toolCallItem (c : ToolUseContent) : JsonObject :=
  .ofFields
    [("type", .str "function"),
      ("function", .obj (JsonObject.ofFields
        [("name", .str c.name), ("arguments", .obj c.input)]))]

/-- The visit of a block in `serializeTurn`. -/
def addBlock (t : TurnParts) : TurnContent → TurnParts
  | .text c => { t with textContent := t.textContent ++ c.text }
  | .image c => if c.isUrl then t else { t with images := t.images ++ [.str c.base64] }
  | .audio _ => t
  | .toolUse c => { t with toolCalls := t.toolCalls ++ [.obj (toolCallItem c)] }
  | .toolResult _ => t
  | .thinking c => { t with thinkingContent := t.thinkingContent ++ c.thinking }
  | .redactedThinking _ => t

def serializeTurn (role : TurnRole) (blocks : List TurnContent) : JsonObject :=
  let isAssistant := decide (role = .assistant)
  let t := blocks.foldl addBlock {}
  let message := JsonObject.ofFields
    [("role", .str (if isAssistant then "assistant" else "user"))]
  let message := if t.images.isEmpty then message else message.insert "images" (.arr t.images)
  let message :=
    if t.thinkingContent.isEmpty then message
    else message.insert "thinking" (.str t.thinkingContent)
  let message :=
    if !t.textContent.isEmpty || !isAssistant then message.insert "content" (.str t.textContent)
    else message
  if t.toolCalls.isEmpty then message else message.insert "tool_calls" (.arr t.toolCalls)

def toProviderFormat (m : OllamaMessage) : JsonObject := serializeTurn .assistant m.currentBlocks

/-- The message of a tool result. -/
def toolMessage (codec : JsonCodec) (r : ToolResult) : JsonObject :=
  .ofFields [("role", .str "tool"), ("content", .str (toolResultText codec r))]

def createToolResultMessages (codec : JsonCodec) (m : OllamaMessage) (toolResults : ToolResults) :
    List JsonValue :=
  mapToolResults m.currentBlocks toolResults fun _ r => toolMessage codec r

end OllamaMessage

/-! ### The client -/

namespace OllamaClient

def usageSchema : UsageSchema where
  prompt := ⟨"", "prompt_eval_count"⟩
  completion := ⟨"", "eval_count"⟩

/-- `sendMessage`. -/
def sendMessage (_ : ClientSettings) (payload : JsonObject) (endpoint : String)
    (mode : RequestMode) : JsonObject × String :=
  (payload.insert "stream" (.bool (mode = .streaming)), endpoint)

/-- The messages of a turn. -/
def turnMessages (codec : JsonCodec) (turn : Turn) : List JsonValue :=
  if turn.role = .tool then
    (toolResultsOf turn.content).map fun c =>
      .obj (OllamaMessage.toolMessage codec (toToolResult c))
  else [.obj (OllamaMessage.serializeTurn turn.role turn.content)]

/-- The array `messages` of a conversation. -/
def messages (codec : JsonCodec) (conversation : Conversation) : List JsonValue :=
  systemMessages conversation ++ conversation.turns.flatMap (turnMessages codec)

def buildConversationPayload (codec : JsonCodec) (settings : ClientSettings)
    (conversation : Conversation) : JsonObject :=
  (JsonObject.ofFields [("model", .str settings.model)]).insert "messages"
    (.arr (messages codec conversation))

def buildContinuationPayload (codec : JsonCodec) (originalPayload : JsonObject)
    (message : OllamaMessage) (toolResults : ToolResults) : JsonObject :=
  appendChatMessagesContinuation originalPayload message.toProviderFormat
    (message.createToolResultMessages codec toolResults)

/-- `ensureMessage<OllamaMessage>`. -/
def ensure (message : Option OllamaMessage) : OllamaMessage :=
  ensureMessage OllamaMessage.toBaseMessage {} OllamaMessage.startNewContinuation message

/-- `processJsonLine`, and `processBufferedBody`, whose body is one line. -/
def processJsonLine (codec : JsonCodec) (message : Option OllamaMessage) (json : JsonObject) :
    Reception OllamaMessage :=
  let r := (ensure message).applyEvent codec json
  .applied r.1 r.2

end OllamaClient

/-- `OllamaClient`. -/
def ollamaClient (codec : JsonCodec) (toolsDefinitions : ToolsManager → List JsonValue) :
    ProviderClient where
  Msg := OllamaMessage
  base := OllamaMessage.toBaseMessage
  withBase m base := { m with toBaseMessage := base }
  Derived := Unit
  noDerived := ()
  streamFraming := .jsonLines
  usageSchema := OllamaClient.usageSchema
  toolsDefinitions := toolsDefinitions
  sendMessage := OllamaClient.sendMessage
  buildConversationPayload := OllamaClient.buildConversationPayload codec
  buildContinuationPayload := OllamaClient.buildContinuationPayload codec
  processJsonLine := OllamaClient.processJsonLine codec
  processBufferedBody := OllamaClient.processJsonLine codec

end LLMQore
