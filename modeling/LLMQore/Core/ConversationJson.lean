import LLMQore.Core.Conversation

/-!
# LLMQore.Core.ConversationJson

Conversations and tool results as JSON: `Conversation::toJson` and `fromJson`,
`ToolResult::toJson` and `fromJson`.

A field that is empty is not written, and what is not written reads as empty. A block is
read back by its type; an image under a URL in a tool result is written as a resource link
with a mark, and told from a resource link by the mark.
-/

namespace LLMQore

/-! ### Tool results -/

def kImageLinkMetaKey : String := "io.llmqore/image-link"

/-- `toolContentToJson`. -/
def toolContentToJson : ToolContent → JsonObject
  | .text c => JsonObject.ofFields [("type", .str "text"), ("text", .str c.text)]
  | .image c =>
      if c.isUrl then
        (JsonObject.ofFields [("type", .str "resource_link"), ("uri", .str c.url),
          ("_meta", .obj (JsonObject.ofFields [(kImageLinkMetaKey, .bool true)]))]).insertText
            "mimeType" c.mimeType
      else
        (JsonObject.ofFields [("type", .str "image"), ("data", .str c.base64)]).insertText
          "mimeType" c.mimeType
  | .audio c =>
      (JsonObject.ofFields [("type", .str "audio"), ("data", .str (Bytes.toBase64 c.data))]).insertText
        "mimeType" c.mimeType
  | .resource c =>
      let resource := JsonObject.ofFields [("uri", .str c.uri)]
      let resource :=
        if c.isBlob then resource.insert "blob" (.str c.blob.toBase64)
        else resource.insertText "text" c.text
      JsonObject.ofFields [("type", .str "resource"),
        ("resource", .obj (resource.insertText "mimeType" c.mimeType))]
  | .resourceLink c =>
      (((JsonObject.ofFields [("type", .str "resource_link"), ("uri", .str c.uri)]).insertText
        "name" c.name).insertText "description" c.description).insertText "mimeType" c.mimeType

/-- `toolContentFromJson`. -/
def toolContentFromJson (obj : JsonObject) : ToolContent :=
  let type := (obj.value "type").toString
  let mimeType := (obj.value "mimeType").toString
  if type = "text" then .text ⟨(obj.value "text").toString⟩
  else if type = "image" then
    .image ⟨.bytes (Bytes.fromBase64 (obj.value "data").toString), mimeType⟩
  else if type = "audio" then .audio ⟨Bytes.fromBase64 (obj.value "data").toString, mimeType⟩
  else if type = "resource" then
    let res := (obj.value "resource").toObject
    let uri := (res.value "uri").toString
    let mimeType := (res.value "mimeType").toString
    if res.contains "blob" then
      .resource ⟨uri, .blob (Bytes.fromBase64 (res.value "blob").toString), mimeType⟩
    else .resource ⟨uri, .text (res.value "text").toString, mimeType⟩
  else if type = "resource_link" then
    if ((obj.value "_meta").toObject.value kImageLinkMetaKey).toBool then
      .image ⟨.url (obj.value "uri").toString, mimeType⟩
    else
      .resourceLink ⟨(obj.value "uri").toString, (obj.value "name").toString,
        (obj.value "description").toString, mimeType⟩
  else .text ⟨"[unsupported content type: " ++ type ++ "]"⟩

theorem toolContentFromJson_toJson (content : ToolContent) :
    toolContentFromJson (toolContentToJson content) = content := by
  cases content with
  | text c =>
      simp [toolContentFromJson, toolContentToJson, JsonObject.ofFields, JsonObject.value_insert]
  | image c =>
      obtain ⟨source, mimeType⟩ := c
      cases source with
      | bytes data =>
          simp [toolContentFromJson, toolContentToJson, JsonObject.ofFields,
            JsonObject.value_insert, ImageContent.isUrl, ImageContent.base64,
            ImageContent.bytes]
      | url link =>
          simp [toolContentFromJson, toolContentToJson, JsonObject.ofFields,
            JsonObject.value_insert, ImageContent.isUrl, ImageContent.url]
  | audio c =>
      simp [toolContentFromJson, toolContentToJson, JsonObject.ofFields, JsonObject.value_insert]
  | resource c =>
      obtain ⟨uri, contents, mimeType⟩ := c
      cases contents with
      | text value =>
          simp [toolContentFromJson, toolContentToJson, JsonObject.ofFields,
            JsonObject.value_insert, JsonObject.contains_insert_str, ResourceContent.isBlob,
            ResourceContent.text]
      | blob data =>
          simp [toolContentFromJson, toolContentToJson, JsonObject.ofFields,
            JsonObject.value_insert, JsonObject.contains_insert_str, ResourceContent.isBlob,
            ResourceContent.blob]
  | resourceLink c =>
      simp [toolContentFromJson, toolContentToJson, JsonObject.ofFields, JsonObject.value_insert]

/-- `ToolResult::toJson`. -/
def ToolResult.toJson (r : ToolResult) : JsonObject :=
  let obj := JsonObject.ofFields
    [("content", .arr (r.content.map fun block => .obj (toolContentToJson block)))]
  let obj := if r.isError then obj.insert "isError" (.bool true) else obj
  if r.structuredContent.isEmpty then obj
  else obj.insert "structuredContent" (.obj r.structuredContent)

/-- `ToolResult::fromJson`. -/
def ToolResult.fromJson (obj : JsonObject) : ToolResult where
  content := (obj.value "content").toArray.map fun v => toolContentFromJson v.toObject
  isError := (obj.value "isError").toBool
  structuredContent := (obj.value "structuredContent").toObject

theorem ToolResult.fromJson_toJson (r : ToolResult) : ToolResult.fromJson r.toJson = r := by
  obtain ⟨content, isError, structuredContent⟩ := r
  cases isError <;> cases structuredContent <;>
    simp [ToolResult.fromJson, ToolResult.toJson, JsonObject.ofFields, JsonObject.value_insert,
      Function.comp_def, toolContentFromJson_toJson]

/-! ### Conversations -/

def roleToString : TurnRole → String
  | .user => "user"
  | .assistant => "assistant"
  | .tool => "tool"

def roleFromString (role : String) : TurnRole :=
  if role = "assistant" then .assistant else if role = "tool" then .tool else .user

theorem roleFromString_toString (role : TurnRole) : roleFromString (roleToString role) = role := by
  cases role <;> decide

/-- `turnContentToJson`. -/
def turnContentToJson : TurnContent → JsonObject
  | .text c => JsonObject.ofFields [("type", .str "text"), ("text", .str c.text)]
  | .image c =>
      let obj := (JsonObject.ofFields [("type", .str "image")]).insertText "mimeType" c.mimeType
      if c.isUrl then obj.insert "url" (.str c.url) else obj.insert "data" (.str c.base64)
  | .audio c =>
      (JsonObject.ofFields [("type", .str "audio"),
        ("data", .str (Bytes.toBase64 c.data))]).insertText "mimeType" c.mimeType
  | .toolUse c => JsonObject.ofFields [("type", .str "tool_use"), ("id", .str c.id),
      ("name", .str c.name), ("input", .obj c.input)]
  | .toolResult c =>
      let obj := JsonObject.ofFields [("type", .str "tool_result"),
        ("toolUseId", .str c.toolUseId), ("name", .str c.name),
        ("content", .arr (c.content.map fun part => .obj (toolContentToJson part)))]
      let obj := if c.isError then obj.insert "isError" (.bool true) else obj
      if c.structuredContent.isEmpty then obj
      else obj.insert "structuredContent" (.obj c.structuredContent)
  | .thinking c =>
      (((JsonObject.ofFields [("type", .str "thinking"), ("thinking", .str c.thinking)]).insertText
        "signature" c.signature).insertText "itemId" c.itemId).insertText
          "encryptedContent" c.encryptedContent
  | .redactedThinking c =>
      (JsonObject.ofFields [("type", .str "redacted_thinking")]).insertText "signature" c.signature

/-- `turnContentFromJson`. -/
def turnContentFromJson (obj : JsonObject) : TurnContent :=
  let type := (obj.value "type").toString
  if type = "image" then
    if obj.contains "url" then
      .image ⟨.url (obj.value "url").toString, (obj.value "mimeType").toString⟩
    else
      .image ⟨.bytes (Bytes.fromBase64 (obj.value "data").toString),
        (obj.value "mimeType").toString⟩
  else if type = "audio" then
    .audio ⟨Bytes.fromBase64 (obj.value "data").toString, (obj.value "mimeType").toString⟩
  else if type = "tool_use" then
    .toolUse ⟨(obj.value "id").toString, (obj.value "name").toString,
      (obj.value "input").toObject⟩
  else if type = "tool_result" then
    .toolResult
      { toolUseId := (obj.value "toolUseId").toString
        name := (obj.value "name").toString
        isError := (obj.value "isError").toBool
        structuredContent := (obj.value "structuredContent").toObject
        content := (obj.value "content").toArray.map fun v => toolContentFromJson v.toObject }
  else if type = "thinking" then
    .thinking
      { thinking := (obj.value "thinking").toString
        signature := (obj.value "signature").toString
        itemId := (obj.value "itemId").toString
        encryptedContent := (obj.value "encryptedContent").toString }
  else if type = "redacted_thinking" then .redactedThinking ⟨(obj.value "signature").toString⟩
  else .text ⟨(obj.value "text").toString⟩

theorem turnContentFromJson_toJson (block : TurnContent) :
    turnContentFromJson (turnContentToJson block) = block := by
  cases block with
  | text c =>
      simp [turnContentFromJson, turnContentToJson, JsonObject.ofFields, JsonObject.value_insert]
  | image c =>
      obtain ⟨source, mimeType⟩ := c
      cases source with
      | bytes data =>
          simp [turnContentFromJson, turnContentToJson, JsonObject.ofFields,
            JsonObject.value_insert, JsonObject.contains_insert_str, ImageContent.isUrl,
            ImageContent.base64, ImageContent.bytes]
      | url link =>
          simp [turnContentFromJson, turnContentToJson, JsonObject.ofFields,
            JsonObject.value_insert, JsonObject.contains_insert_str, ImageContent.isUrl,
            ImageContent.url]
  | audio c =>
      simp [turnContentFromJson, turnContentToJson, JsonObject.ofFields, JsonObject.value_insert]
  | toolUse c =>
      simp [turnContentFromJson, turnContentToJson, JsonObject.ofFields, JsonObject.value_insert]
  | toolResult c =>
      obtain ⟨toolUseId, name, content, isError, structuredContent⟩ := c
      cases isError <;> cases structuredContent <;>
        simp [turnContentFromJson, turnContentToJson, JsonObject.ofFields,
          JsonObject.value_insert, Function.comp_def, toolContentFromJson_toJson]
  | thinking c =>
      simp [turnContentFromJson, turnContentToJson, JsonObject.ofFields, JsonObject.value_insert]
  | redactedThinking c =>
      simp [turnContentFromJson, turnContentToJson, JsonObject.ofFields, JsonObject.value_insert]

namespace Conversation

/-- `Conversation::toJson`. -/
def toJson (c : Conversation) : JsonObject :=
  let turns := c.turns.map fun turn => JsonValue.obj (JsonObject.ofFields
    [("role", .str (roleToString turn.role)),
      ("content", .arr (turn.content.map fun block => .obj (turnContentToJson block)))])
  (JsonObject.ofFields [("turns", .arr turns)]).insertText "system" c.system

/-- `Conversation::fromJson`. -/
def fromJson (obj : JsonObject) : Conversation where
  system := (obj.value "system").toString
  turns := (obj.value "turns").toArray.map fun turnValue =>
    let turnObj := turnValue.toObject
    { role := roleFromString (turnObj.value "role").toString
      content := (turnObj.value "content").toArray.map fun v => turnContentFromJson v.toObject }

/-- A conversation is read back as it was written. -/
theorem fromJson_toJson (c : Conversation) : fromJson c.toJson = c := by
  simp [fromJson, toJson, JsonObject.ofFields, JsonObject.value_insert, Function.comp_def,
    turnContentFromJson_toJson, roleFromString_toString]

end Conversation

/-- A conversation, and a tool result, is read back as it was written. -/
theorem json_round_trip :
    (∀ c : Conversation, Conversation.fromJson c.toJson = c) ∧
      ∀ r : ToolResult, ToolResult.fromJson r.toJson = r :=
  ⟨Conversation.fromJson_toJson, ToolResult.fromJson_toJson⟩

end LLMQore
