import LLMQore.Json

/-!
# LLMQore.Core.ContentBlocks

The content alternatives of a turn and of a tool result (`ContentBlocks`), and
`ToolResult`, what a tool returns.

A `QUrl` is its string form, a `QByteArray` its bytes.
-/

namespace LLMQore

inductive MessageState where
  | building | complete | requiresToolExecution | final
  deriving DecidableEq

/-- `ImageContent::source`. -/
inductive ImageSource where
  | bytes (data : List UInt8)
  | url (link : String)
  deriving DecidableEq

/-- `ResourceContent::contents`. -/
inductive ResourceData where
  | text (value : String)
  | blob (data : List UInt8)
  deriving DecidableEq

structure TextContent where
  text : String
  deriving DecidableEq

structure ImageContent where
  source : ImageSource
  mimeType : String := ""
  deriving DecidableEq

structure AudioContent where
  data : List UInt8
  mimeType : String := ""
  deriving DecidableEq

structure ToolUseContent where
  id : String
  name : String
  input : JsonObject := []
  deriving DecidableEq

structure ThinkingContent where
  thinking : String := ""
  signature : String := ""
  itemId : String := ""
  encryptedContent : String := ""
  deriving DecidableEq

structure RedactedThinkingContent where
  signature : String := ""
  deriving DecidableEq

structure ResourceContent where
  uri : String
  contents : ResourceData
  mimeType : String := ""
  deriving DecidableEq

structure ResourceLinkContent where
  uri : String
  name : String := ""
  description : String := ""
  mimeType : String := ""
  deriving DecidableEq

inductive ToolContent where
  | text (c : TextContent)
  | image (c : ImageContent)
  | audio (c : AudioContent)
  | resource (c : ResourceContent)
  | resourceLink (c : ResourceLinkContent)
  deriving DecidableEq

structure ToolResultContent where
  toolUseId : String
  name : String
  content : List ToolContent := []
  isError : Bool := false
  structuredContent : JsonObject := []
  deriving DecidableEq

inductive TurnContent where
  | text (c : TextContent)
  | image (c : ImageContent)
  | audio (c : AudioContent)
  | toolUse (c : ToolUseContent)
  | toolResult (c : ToolResultContent)
  | thinking (c : ThinkingContent)
  | redactedThinking (c : RedactedThinkingContent)
  deriving DecidableEq

def ImageContent.isUrl (c : ImageContent) : Bool :=
  match c.source with
  | .url _ => true
  | .bytes _ => false

def ImageContent.url (c : ImageContent) : String :=
  match c.source with
  | .url link => link
  | .bytes _ => ""

def ImageContent.bytes (c : ImageContent) : Bytes :=
  match c.source with
  | .bytes data => data
  | .url _ => []

def ImageContent.base64 (c : ImageContent) : String := c.bytes.toBase64

def ResourceContent.isBlob (c : ResourceContent) : Bool :=
  match c.contents with
  | .blob _ => true
  | .text _ => false

def ResourceContent.text (c : ResourceContent) : String :=
  match c.contents with
  | .text value => value
  | .blob _ => ""

def ResourceContent.blob (c : ResourceContent) : Bytes :=
  match c.contents with
  | .blob data => data
  | .text _ => []

/-- `toolContentAsText`. -/
def toolContentAsText : ToolContent → String
  | .text c => c.text
  | .image c => "[image: " ++ (if c.mimeType.isEmpty then "unknown" else c.mimeType) ++ "]"
  | .audio c => "[audio: " ++ (if c.mimeType.isEmpty then "unknown" else c.mimeType) ++ "]"
  | .resource c =>
      if !c.isBlob && !c.text.isEmpty then c.text else "[resource: " ++ c.uri ++ "]"
  | .resourceLink c => "[resource link: " ++ c.uri ++ "]"

/-- What a tool returns. -/
structure ToolResult where
  content : List ToolContent := []
  isError : Bool := false
  structuredContent : JsonObject := []
  deriving DecidableEq, Inhabited

namespace ToolResult

def text (text : String) : ToolResult := { content := [.text ⟨text⟩] }

def error (message : String) : ToolResult := { content := [.text ⟨message⟩], isError := true }

def hasOnlyText (r : ToolResult) : Bool :=
  r.content.all fun block => match block with
    | .text _ => true
    | _ => false

def asText (r : ToolResult) : String := "\n".intercalate (r.content.map toolContentAsText)

@[simp] theorem error_isError (message : String) : (error message).isError = true := rfl

end ToolResult

/-- `toToolResult`. -/
def toToolResult (c : ToolResultContent) : ToolResult where
  content := c.content
  isError := c.isError
  structuredContent := c.structuredContent

/-- `makeToolResultContent`. -/
def makeToolResultContent (toolUseId name : String) (result : ToolResult) :
    ToolResultContent where
  toolUseId := toolUseId
  name := name
  content := result.content
  isError := result.isError
  structuredContent := result.structuredContent

/-- A result survives being made a block of a turn. -/
@[simp] theorem toToolResult_make (toolUseId name : String) (result : ToolResult) :
    toToolResult (makeToolResultContent toolUseId name result) = result := rfl

/-- `toolResultText`. -/
def toolResultText (codec : JsonCodec) (result : ToolResult) : String :=
  let text := result.asText
  if result.structuredContent.isEmpty then text
  else
    let json := codec.toJson result.structuredContent
    if text.isEmpty then json else text ++ "\n" ++ json

end LLMQore
