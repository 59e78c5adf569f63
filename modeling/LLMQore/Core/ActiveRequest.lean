import LLMQore.Core.ProviderClient
import LLMQore.Rpc.LineFramer

/-!
# LLMQore.Core.ActiveRequest

What the client keeps of a request under way (`ActiveRequest`), and how it goes from one
turn of the request to the next.
-/

namespace LLMQore

open Network Tools

/-- The address of an `HttpStreamHandle`. -/
abbrev StreamRef := Nat

/-- `DataBuffers::framer`. -/
inductive Framer where
  | sse (parser : SSEParser)
  | lines (framer : Rpc.LineFramer)

namespace Framer

/-- `DataBuffers::reset`, for the framer. -/
def fresh : StreamFraming → Framer
  | .serverSentEvents => .sse {}
  | .jsonLines => .lines {}

/-- `DataBuffers::resetFramer`. -/
def clear : Framer → Framer
  | .sse parser => .sse parser.clear
  | .lines framer => .lines framer.clear

end Framer

structure ActiveRequest (P : ProviderClient) where
  stream : Option StreamRef := none
  errorMode : Bool := false
  errorBody : Bytes := []
  framer : Framer := .fresh P.streamFraming
  responseContent : String := ""
  url : String := ""
  originalPayload : JsonObject := []
  finalPayload : JsonObject := []
  mode : RequestMode := .streaming
  stopReason : String := ""
  usage : Option TokenUsage := none
  turnUsage : Option TokenUsage := none
  toolRounds : Nat := 0
  conversation : Conversation := {}
  tracksConversation : Bool := false
  finalBlocks : List TurnContent := []
  roundTextOffset : Nat := 0
  message : Option P.Msg := none

/-- `QString::left`. -/
def leftChars (s : String) (n : Nat) : String := String.ofList (s.toList.take n)

/-- `QString::mid`. -/
def midChars (s : String) (n : Nat) : String := String.ofList (s.toList.drop n)

namespace ActiveRequest

variable {P : ProviderClient} (r : ActiveRequest P)

def roundText : String := midChars r.responseContent r.roundTextOffset

/-- The text after `replaceRoundText`. -/
def replacedText (text : String) : String :=
  leftChars r.responseContent r.roundTextOffset ++ text

/-- `storeRequestContext`. -/
def storeContext (url : String) (payload : JsonObject) : ActiveRequest P :=
  { r with url, originalPayload := payload, framer := r.framer.clear }

/-- `finalizeTurn`. -/
def finalizeTurn : ActiveRequest P :=
  match r.turnUsage with
  | none => r
  | some turn =>
      { r with
        usage := some (match r.usage with
          | none => turn
          | some usage => usage.add turn)
        turnUsage := none }

@[simp] theorem responseContent_finalizeTurn : r.finalizeTurn.responseContent = r.responseContent := by
  unfold finalizeTurn
  split <;> rfl

@[simp] theorem toolRounds_finalizeTurn : r.finalizeTurn.toolRounds = r.toolRounds := by
  unfold finalizeTurn
  split <;> rfl

/-- The tool results of a round as blocks, in the order of the tool uses. -/
def resultBlocks (uses : List ToolUseContent) (toolResults : ToolResults) :
    List ToolResultContent :=
  uses.filterMap fun use =>
    (toolResults.lookup use.id).map fun result => makeToolResultContent use.id use.name result

/-- The part of `buildReplayContinuation` that tracks the conversation. -/
def trackRound (message : BaseMessage) (toolResults : ToolResults) : ActiveRequest P :=
  if r.tracksConversation then
    let conversation :=
      if message.currentBlocks.isEmpty then r.conversation
      else r.conversation.addAssistant message.currentBlocks
    { r with
      conversation :=
        conversation.addToolResults (resultBlocks message.currentToolUseContent toolResults) }
  else r

/-- `buildReplayContinuation`: the request with the round tracked, and the payload of the
continuation, empty where there is no message. -/
def buildReplayContinuation (toolResults : ToolResults) : ActiveRequest P × JsonObject :=
  match r.message with
  | none => (r, [])
  | some m =>
      (r.trackRound (P.base m) toolResults,
        P.buildContinuationPayload r.originalPayload m toolResults)

/-- A continuation is built of the text as it is. -/
theorem text_buildReplayContinuation (toolResults : ToolResults) :
    (r.buildReplayContinuation toolResults).1.responseContent = r.responseContent ∧
      (r.buildReplayContinuation toolResults).1.roundTextOffset = r.roundTextOffset ∧
      (r.buildReplayContinuation toolResults).1.toolRounds = r.toolRounds := by
  unfold buildReplayContinuation trackRound
  split
  · exact ⟨rfl, rfl, rfl⟩
  · dsimp only
    split <;> exact ⟨rfl, rfl, rfl⟩

/-- What `continueRequest` makes of the request before it sends the continuation. -/
def beginNextTurn : ActiveRequest P :=
  { r.finalizeTurn with
    roundTextOffset := r.responseContent.length
    finalBlocks := [] }

end ActiveRequest

/-- `attachToolDefinitions`. -/
def attachToolDefinitions (P : ProviderClient) (manager : ToolsManager) (payload : JsonObject) :
    JsonObject :=
  let definitions := P.toolsDefinitions manager
  if definitions.isEmpty then payload else payload.insert "tools" (.arr definitions)

/-- The payload `ask` hands to `sendMessage`. -/
def askPayload (P : ProviderClient) (settings : ClientSettings) (manager : ToolsManager)
    (conversation : Conversation) (extra : JsonObject) : JsonObject :=
  extra.foldl (fun payload field => payload.insert field.1 field.2)
    (attachToolDefinitions P manager (P.buildConversationPayload settings conversation))

end LLMQore
