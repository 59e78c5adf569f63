import LLMQore.Core.BaseMessage
import LLMQore.Core.Conversation
import LLMQore.Core.Usage
import LLMQore.Network.SSEParser
import LLMQore.Tools.ToolsManager

/-!
# LLMQore.Core.ProviderClient

What a provider's client adds to `BaseClient`: its virtual functions.

A provider reads an event of a response into the message of the request, which it
makes or restarts where it needs to, and says what the client is to do about it. So the
virtual functions that take an event are functions of the message and the event, and
their result is a `Reception`.
-/

namespace LLMQore

open Network Tools

inductive RequestMode where
  | buffered | streaming
  deriving DecidableEq

inductive StreamFraming where
  | serverSentEvents | jsonLines
  deriving DecidableEq

/-- `BaseClient::ErrorAnnotation`. -/
structure ErrorAnnotation where
  label : String
  field : String

/-- The settings of a client that its payloads depend on. -/
structure ClientSettings where
  url : String := ""
  model : String := ""
  /-- `profile().chatPath` -/
  chatPath : String := ""
  /-- `maxOutputTokens` of the model, if the model is cached and has a limit. -/
  maxOutputTokens : Option Int := none

/-- The results of a round, by tool use. -/
abbrev ToolResults := AList (fun _ : String => ToolResult)

/-- What a provider makes of an event of a response. -/
inductive Reception (Msg : Type) where
  /-- Nothing. -/
  | dropped
  /-- The message after the event, and its effects. -/
  | applied (message : Msg) (effects : MessageEffects)
  /-- A chunk of a native completion (`LlamaCppClient`): text, usage by a schema of its own,
  and whether it is the last one. -/
  | native (content : String) (usage : JsonObject) (schema : UsageSchema) (stop : Bool)

/-- `ensureMessage`: the message of the request, made if there is none and restarted if
it waits for tools. -/
def ensureMessage {Msg : Type} (base : Msg → BaseMessage) (fresh : Msg) (restart : Msg → Msg) :
    Option Msg → Msg
  | none => fresh
  | some m => if (base m).state = .requiresToolExecution then restart m else m

structure ProviderClient where
  /-- The messages of the provider. -/
  Msg : Type
  base : Msg → BaseMessage
  withBase : Msg → BaseMessage → Msg
  /-- What the provider keeps of its own for a request. -/
  Derived : Type
  noDerived : Derived
  streamFraming : StreamFraming := .serverSentEvents
  usageSchema : UsageSchema
  errorAnnotations : List ErrorAnnotation := []
  /-- `getToolsDefinitions` in the provider's dialect. -/
  toolsDefinitions : ToolsManager → List JsonValue
  /-- The payload `sendMessage` posts, and the endpoint it posts to. -/
  sendMessage : ClientSettings → JsonObject → String → RequestMode → JsonObject × String
  buildConversationPayload : ClientSettings → Conversation → JsonObject
  buildContinuationPayload : JsonObject → Msg → ToolResults → JsonObject
  processSseEvent : Option Msg → SSEEvent → JsonObject → Reception Msg := fun _ _ _ => .dropped
  processJsonLine : Option Msg → JsonObject → Reception Msg := fun _ _ => .dropped
  processBufferedBody : Option Msg → JsonObject → Reception Msg
  /-- Does `processData` go on to the base class? -/
  processData : Derived → Bytes → Derived × Bool := fun d _ => (d, true)
  takePendingStreamError : Derived → Option String × Derived := fun d => (none, d)
  /-- The effects `onStreamDrained` applies. -/
  onStreamDrained : Option MessageEffects := none

/-- `errorIn`: the error a body reports. -/
def errorIn (body : JsonObject) : Option JsonObject :=
  let error := body.value "error"
  if error.isObject then some error.toObject
  else if error.isString && !error.toString.isEmpty then
    some (.ofFields [("message", .str error.toString)])
  else if (body.value "object").toString = "error" then some body
  else none

/-- The text of an annotation of an error. -/
def annotationText (error : JsonObject) (entry : ErrorAnnotation) : String :=
  let value := error.value entry.field
  let text :=
    if value.isString then value.toString
    else if value.toInt ≠ 0 then toString value.toInt
    else ""
  if text.isEmpty then ""
  else if entry.label.isEmpty then " (" ++ text ++ ")"
  else " (" ++ entry.label ++ ": " ++ text ++ ")"

/-- `errorMessageFrom`. -/
def errorMessageFrom (annotations : List ErrorAnnotation) (body : JsonObject) : String :=
  match errorIn body with
  | none => ""
  | some error =>
      let message := (error.value "message").toString
      if message.isEmpty then ""
      else annotations.foldl (fun out entry => out ++ annotationText error entry) message

/-- `describeError`. -/
def describeError (codec : JsonCodec) (annotations : List ErrorAnnotation) (error : JsonObject) :
    String :=
  let message := errorMessageFrom annotations (.ofFields [("error", .obj error)])
  if message.isEmpty then "Provider error: " ++ codec.toJson error else message

end LLMQore
