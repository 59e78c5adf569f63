import LLMQore.JsonFields

/-!
# LLMQore.Acp.AcpTypes

The records of the Agent Client Protocol (`AcpTypes.hpp`) and the table of their schemas
(`AcpTypeSchema.hpp`).

Some of the records nested in others are written, or written and read, by hand.
-/

namespace LLMQore.AcpTypes

open Json

structure EnvVariable where
  name : String := ""
  value : String := ""

def EnvVariable.schema : Schema EnvVariable where
  blank := {}
  fields := [
    field "name" .string (·.name) fun m v => { v with name := m },
    field "value" .string (·.value) fun m v => { v with value := m }]

theorem EnvVariable.lawful : EnvVariable.schema.Lawful :=
  ⟨by decide, by simp [schema], by simp [schema]⟩

def EnvVariable.codec : WireJson EnvVariable := schema.codec lawful

structure Implementation where
  name : String := ""
  version : String := ""
  title : String := ""

def Implementation.schema : Schema Implementation where
  blank := {}
  fields := [
    field "name" .string (·.name) fun m v => { v with name := m },
    field "version" .string (·.version) fun m v => { v with version := m },
    omitEmpty "title" .string (·.title) fun m v => { v with title := m }]

theorem Implementation.lawful : Implementation.schema.Lawful :=
  ⟨by decide, by simp [schema], by simp [schema]⟩

def Implementation.codec : WireJson Implementation := schema.codec lawful

structure FileSystemCapability where
  readTextFile : Bool := false
  writeTextFile : Bool := false

def FileSystemCapability.schema : Schema FileSystemCapability where
  blank := {}
  fields := [
    field "readTextFile" .bool (·.readTextFile) fun m v => { v with readTextFile := m },
    field "writeTextFile" .bool (·.writeTextFile) fun m v => { v with writeTextFile := m }]

theorem FileSystemCapability.lawful : FileSystemCapability.schema.Lawful :=
  ⟨by decide, by simp [schema], by simp [schema]⟩

def FileSystemCapability.codec : WireJson FileSystemCapability := schema.codec lawful

structure BooleanConfigOptionCapabilities where

def BooleanConfigOptionCapabilities.schema : Schema BooleanConfigOptionCapabilities where
  blank := {}
  fields := []

theorem BooleanConfigOptionCapabilities.lawful : BooleanConfigOptionCapabilities.schema.Lawful :=
  ⟨by decide, by simp [schema], by simp [schema]⟩

def BooleanConfigOptionCapabilities.codec : WireJson BooleanConfigOptionCapabilities :=
  schema.codec lawful

structure SessionConfigOptionsCapabilities where
  boolean : Option BooleanConfigOptionCapabilities := none

def SessionConfigOptionsCapabilities.schema : Schema SessionConfigOptionsCapabilities where
  blank := {}
  fields := [
    field "boolean" (.optional (.record _ BooleanConfigOptionCapabilities.codec)) (·.boolean)
      fun m v => { v with boolean := m }]

theorem SessionConfigOptionsCapabilities.lawful : SessionConfigOptionsCapabilities.schema.Lawful :=
  ⟨by decide, by simp [schema], by simp [schema]⟩

def SessionConfigOptionsCapabilities.codec : WireJson SessionConfigOptionsCapabilities :=
  schema.codec lawful

structure ClientSessionCapabilities where
  configOptions : SessionConfigOptionsCapabilities := {}

def ClientSessionCapabilities.schema : Schema ClientSessionCapabilities where
  blank := {}
  fields := [
    field "configOptions" (.record _ SessionConfigOptionsCapabilities.codec) (·.configOptions)
      fun m v => { v with configOptions := m }]

theorem ClientSessionCapabilities.lawful : ClientSessionCapabilities.schema.Lawful :=
  ⟨by decide, by simp [schema], by simp [schema]⟩

def ClientSessionCapabilities.codec : WireJson ClientSessionCapabilities := schema.codec lawful

structure ClientCapabilities where
  fs : FileSystemCapability := {}
  terminal : Bool := false
  session : ClientSessionCapabilities := {}
  extras : JsonObject := []

def ClientCapabilities.schema : Schema ClientCapabilities where
  blank := {}
  fields := [
    field "fs" (.record _ FileSystemCapability.codec) (·.fs) fun m v => { v with fs := m },
    field "terminal" .bool (·.terminal) fun m v => { v with terminal := m },
    field "session" (.record _ ClientSessionCapabilities.codec) (·.session)
      fun m v => { v with session := m }]
  extras := some ⟨(·.extras), fun m v => { v with extras := m }⟩

theorem ClientCapabilities.lawful : ClientCapabilities.schema.Lawful :=
  ⟨by decide, by simp [schema], by simp [schema]⟩

def ClientCapabilities.codec : WireJson ClientCapabilities := schema.codec lawful

structure PromptCapabilities where
  image : Bool := false
  audio : Bool := false
  embeddedContext : Bool := false

def PromptCapabilities.schema : Schema PromptCapabilities where
  blank := {}
  fields := [
    field "image" .bool (·.image) fun m v => { v with image := m },
    field "audio" .bool (·.audio) fun m v => { v with audio := m },
    field "embeddedContext" .bool (·.embeddedContext) fun m v => { v with embeddedContext := m }]

theorem PromptCapabilities.lawful : PromptCapabilities.schema.Lawful :=
  ⟨by decide, by simp [schema], by simp [schema]⟩

def PromptCapabilities.codec : WireJson PromptCapabilities := schema.codec lawful

structure McpCapabilities where
  http : Bool := false
  sse : Bool := false

def McpCapabilities.schema : Schema McpCapabilities where
  blank := {}
  fields := [
    field "http" .bool (·.http) fun m v => { v with http := m },
    field "sse" .bool (·.sse) fun m v => { v with sse := m }]

theorem McpCapabilities.lawful : McpCapabilities.schema.Lawful :=
  ⟨by decide, by simp [schema], by simp [schema]⟩

def McpCapabilities.codec : WireJson McpCapabilities := schema.codec lawful

structure AgentCapabilities where
  loadSession : Bool := false
  promptCapabilities : PromptCapabilities := {}
  mcpCapabilities : McpCapabilities := {}
  extras : JsonObject := []

def AgentCapabilities.schema : Schema AgentCapabilities where
  blank := {}
  fields := [
    field "loadSession" .bool (·.loadSession) fun m v => { v with loadSession := m },
    field "promptCapabilities" (.record _ PromptCapabilities.codec) (·.promptCapabilities)
      fun m v => { v with promptCapabilities := m },
    field "mcpCapabilities" (.record _ McpCapabilities.codec) (·.mcpCapabilities)
      fun m v => { v with mcpCapabilities := m }]
  extras := some ⟨(·.extras), fun m v => { v with extras := m }⟩

theorem AgentCapabilities.lawful : AgentCapabilities.schema.Lawful :=
  ⟨by decide, by simp [schema], by simp [schema]⟩

def AgentCapabilities.codec : WireJson AgentCapabilities := schema.codec lawful

structure AuthMethod where
  id : String := ""
  name : String := ""
  description : String := ""

def AuthMethod.schema : Schema AuthMethod where
  blank := {}
  fields := [
    field "id" .string (·.id) fun m v => { v with id := m },
    field "name" .string (·.name) fun m v => { v with name := m },
    omitEmpty "description" .string (·.description) fun m v => { v with description := m }]

theorem AuthMethod.lawful : AuthMethod.schema.Lawful :=
  ⟨by decide, by simp [schema], by simp [schema]⟩

def AuthMethod.codec : WireJson AuthMethod := schema.codec lawful

structure InitializeParams where
  protocolVersion : Int32 := 1
  clientCapabilities : ClientCapabilities := {}
  clientInfo : Option Implementation := none
  extras : JsonObject := []

def InitializeParams.schema : Schema InitializeParams where
  blank := {}
  fields := [
    field "protocolVersion" .int (·.protocolVersion) fun m v => { v with protocolVersion := m },
    field "clientCapabilities" (.record _ ClientCapabilities.codec) (·.clientCapabilities)
      fun m v => { v with clientCapabilities := m },
    field "clientInfo" (.optional (.record _ Implementation.codec)) (·.clientInfo)
      fun m v => { v with clientInfo := m }]
  extras := some ⟨(·.extras), fun m v => { v with extras := m }⟩

theorem InitializeParams.lawful : InitializeParams.schema.Lawful :=
  ⟨by decide, by simp [schema], by simp [schema]⟩

structure InitializeResult where
  protocolVersion : Int32 := 1
  agentCapabilities : AgentCapabilities := {}
  authMethods : List AuthMethod := []
  agentInfo : Option Implementation := none
  extras : JsonObject := []

def InitializeResult.schema : Schema InitializeResult where
  blank := {}
  fields := [
    field "protocolVersion" .int (·.protocolVersion) fun m v => { v with protocolVersion := m },
    field "agentCapabilities" (.record _ AgentCapabilities.codec) (·.agentCapabilities)
      fun m v => { v with agentCapabilities := m },
    field "authMethods" (.list (.record _ AuthMethod.codec)) (·.authMethods)
      fun m v => { v with authMethods := m },
    field "agentInfo" (.optional (.record _ Implementation.codec)) (·.agentInfo)
      fun m v => { v with agentInfo := m }]
  extras := some ⟨(·.extras), fun m v => { v with extras := m }⟩

theorem InitializeResult.lawful : InitializeResult.schema.Lawful :=
  ⟨by decide, by simp [schema], by simp [schema]⟩

structure McpServer where
  type : String := ""
  name : String := ""
  command : String := ""
  args : List String := []
  env : List EnvVariable := []
  url : String := ""
  headers : List EnvVariable := []

namespace McpServer

def isStdio (s : McpServer) : Bool := s.type.isEmpty || s.type == "stdio"

/-- `envToJson`. -/
def envToJson (env : List EnvVariable) : JsonValue :=
  .arr (env.map fun e => .obj (EnvVariable.codec.toJson e))

/-- `envFromJson`. -/
def envFromJson (arr : List JsonValue) : List EnvVariable :=
  arr.map fun v => EnvVariable.codec.fromJson v.toObject

/-- `McpServer::toJson`. -/
def toJson (s : McpServer) : JsonObject :=
  if s.isStdio then
    JsonObject.ofFields [("name", .str s.name), ("command", .str s.command),
      ("args", .arr (s.args.map .str)), ("env", envToJson s.env)]
  else
    JsonObject.ofFields [("type", .str s.type), ("name", .str s.name), ("url", .str s.url),
      ("headers", envToJson s.headers)]

/-- `McpServer::fromJson`. -/
def fromJson (obj : JsonObject) : McpServer :=
  let s : McpServer := { type := (obj.value "type").toString, name := (obj.value "name").toString }
  if s.isStdio then
    { s with
      command := (obj.value "command").toString
      args := (obj.value "args").toArray.map JsonValue.toString
      env := envFromJson (obj.value "env").toArray }
  else
    { s with
      url := (obj.value "url").toString
      headers := envFromJson (obj.value "headers").toArray }

def codec : WireJson McpServer := .byHand {} toJson fromJson

end McpServer

structure SessionMode where
  id : String := ""
  name : String := ""
  description : String := ""

def SessionMode.schema : Schema SessionMode where
  blank := {}
  fields := [
    field "id" .string (·.id) fun m v => { v with id := m },
    field "name" .string (·.name) fun m v => { v with name := m },
    omitEmpty "description" .string (·.description) fun m v => { v with description := m }]

theorem SessionMode.lawful : SessionMode.schema.Lawful :=
  ⟨by decide, by simp [schema], by simp [schema]⟩

def SessionMode.codec : WireJson SessionMode := schema.codec lawful

structure SessionModeState where
  currentModeId : String := ""
  availableModes : List SessionMode := []

def SessionModeState.schema : Schema SessionModeState where
  blank := {}
  fields := [
    field "currentModeId" .string (·.currentModeId) fun m v => { v with currentModeId := m },
    field "availableModes" (.list (.record _ SessionMode.codec)) (·.availableModes)
      fun m v => { v with availableModes := m }]

theorem SessionModeState.lawful : SessionModeState.schema.Lawful :=
  ⟨by decide, by simp [schema], by simp [schema]⟩

def SessionModeState.codec : WireJson SessionModeState := schema.codec lawful

structure SessionConfigSelectOption where
  value : String := ""
  name : String := ""
  description : String := ""

def SessionConfigSelectOption.schema : Schema SessionConfigSelectOption where
  blank := {}
  fields := [
    field "value" .string (·.value) fun m v => { v with value := m },
    field "name" .string (·.name) fun m v => { v with name := m },
    omitEmpty "description" .string (·.description) fun m v => { v with description := m }]

theorem SessionConfigSelectOption.lawful : SessionConfigSelectOption.schema.Lawful :=
  ⟨by decide, by simp [schema], by simp [schema]⟩

def SessionConfigSelectOption.codec : WireJson SessionConfigSelectOption := schema.codec lawful

structure SessionConfigSelectGroup where
  group : String := ""
  name : String := ""
  options : List SessionConfigSelectOption := []

def SessionConfigSelectGroup.schema : Schema SessionConfigSelectGroup where
  blank := {}
  fields := [
    field "group" .string (·.group) fun m v => { v with group := m },
    field "name" .string (·.name) fun m v => { v with name := m },
    field "options" (.list (.record _ SessionConfigSelectOption.codec)) (·.options)
      fun m v => { v with options := m }]

theorem SessionConfigSelectGroup.lawful : SessionConfigSelectGroup.schema.Lawful :=
  ⟨by decide, by simp [schema], by simp [schema]⟩

def SessionConfigSelectGroup.codec : WireJson SessionConfigSelectGroup := schema.codec lawful

structure SessionConfigOption where
  id : String := ""
  name : String := ""
  description : String := ""
  category : String := ""
  type : String := ""
  value : String := ""
  enabled : Bool := false
  options : List SessionConfigSelectOption := []
  groups : List SessionConfigSelectGroup := []

namespace SessionConfigOption

/-- `SessionConfigOption::toJson`. -/
def toJson (o : SessionConfigOption) : JsonObject :=
  let json := JsonObject.ofFields [("id", .str o.id), ("name", .str o.name), ("type", .str o.type)]
  let json := json.insertText "description" o.description
  let json := json.insertText "category" o.category
  let json := json.insert "currentValue"
    (if o.type = "boolean" then .bool o.enabled else .str o.value)
  if !o.options.isEmpty then
    json.insert "options"
      (.arr (o.options.map fun v => .obj (SessionConfigSelectOption.codec.toJson v)))
  else if !o.groups.isEmpty then
    json.insert "options"
      (.arr (o.groups.map fun g => .obj (SessionConfigSelectGroup.codec.toJson g)))
  else json

/-- The body of the loop of `fromJson` over the options. -/
def readOption (o : SessionConfigOption) (v : JsonValue) : SessionConfigOption :=
  let entry := v.toObject
  if entry.contains "options" then
    { o with groups := o.groups ++ [SessionConfigSelectGroup.codec.fromJson entry] }
  else { o with options := o.options ++ [SessionConfigSelectOption.codec.fromJson entry] }

/-- `SessionConfigOption::fromJson`. -/
def fromJson (obj : JsonObject) : SessionConfigOption :=
  let o : SessionConfigOption :=
    { id := (obj.value "id").toString
      name := (obj.value "name").toString
      description := (obj.value "description").toString
      category := (obj.value "category").toString
      type := (obj.value "type").toString }
  let o :=
    if o.type = "boolean" then { o with enabled := (obj.value "currentValue").toBool }
    else { o with value := (obj.value "currentValue").toString }
  (obj.value "options").toArray.foldl readOption o

def codec : WireJson SessionConfigOption := .byHand {} toJson fromJson

end SessionConfigOption

structure NewSessionParams where
  cwd : String := ""
  mcpServers : List McpServer := []
  additionalDirectories : List String := []

def NewSessionParams.schema : Schema NewSessionParams where
  blank := {}
  fields := [
    field "cwd" .string (·.cwd) fun m v => { v with cwd := m },
    field "mcpServers" (.list (.record _ McpServer.codec)) (·.mcpServers)
      fun m v => { v with mcpServers := m },
    omitEmpty "additionalDirectories" .stringList (·.additionalDirectories)
      fun m v => { v with additionalDirectories := m }]

theorem NewSessionParams.lawful : NewSessionParams.schema.Lawful :=
  ⟨by decide, by simp [schema], by simp [schema]⟩

structure NewSessionResult where
  sessionId : String := ""
  modes : Option SessionModeState := none
  configOptions : List SessionConfigOption := []
  extras : JsonObject := []

def NewSessionResult.schema : Schema NewSessionResult where
  blank := {}
  fields := [
    field "sessionId" .string (·.sessionId) fun m v => { v with sessionId := m },
    field "modes" (.optional (.record _ SessionModeState.codec)) (·.modes)
      fun m v => { v with modes := m },
    omitEmpty "configOptions" (.list (.record _ SessionConfigOption.codec)) (·.configOptions)
      fun m v => { v with configOptions := m }]
  extras := some ⟨(·.extras), fun m v => { v with extras := m }⟩

theorem NewSessionResult.lawful : NewSessionResult.schema.Lawful :=
  ⟨by decide, by simp [schema], by simp [schema]⟩

structure LoadSessionParams where
  sessionId : String := ""
  cwd : String := ""
  mcpServers : List McpServer := []
  additionalDirectories : List String := []

def LoadSessionParams.schema : Schema LoadSessionParams where
  blank := {}
  fields := [
    field "sessionId" .string (·.sessionId) fun m v => { v with sessionId := m },
    field "cwd" .string (·.cwd) fun m v => { v with cwd := m },
    field "mcpServers" (.list (.record _ McpServer.codec)) (·.mcpServers)
      fun m v => { v with mcpServers := m },
    omitEmpty "additionalDirectories" .stringList (·.additionalDirectories)
      fun m v => { v with additionalDirectories := m }]

theorem LoadSessionParams.lawful : LoadSessionParams.schema.Lawful :=
  ⟨by decide, by simp [schema], by simp [schema]⟩

structure EmbeddedResource where
  uri : String := ""
  mimeType : String := ""
  text : String := ""
  blob : String := ""

namespace EmbeddedResource

/-- `EmbeddedResource::toJson`. -/
def toJson (r : EmbeddedResource) : JsonObject :=
  let o := (JsonObject.ofFields [("uri", .str r.uri)]).insertText "mimeType" r.mimeType
  if !r.blob.isEmpty then o.insert "blob" (.str r.blob) else o.insert "text" (.str r.text)

/-- `EmbeddedResource::fromJson`. -/
def fromJson (obj : JsonObject) : EmbeddedResource where
  uri := (obj.value "uri").toString
  mimeType := (obj.value "mimeType").toString
  text := (obj.value "text").toString
  blob := (obj.value "blob").toString

def codec : WireJson EmbeddedResource := .byHand {} toJson fromJson

end EmbeddedResource

structure ContentBlock where
  type : String := ""
  text : String := ""
  data : String := ""
  mimeType : String := ""
  uri : String := ""
  name : String := ""
  description : String := ""
  title : String := ""
  size : Option Int32 := none
  resource : Option EmbeddedResource := none
  annotations : JsonObject := []

def ContentBlock.schema : Schema ContentBlock where
  blank := {}
  fields := [
    field "type" .string (·.type) fun m v => { v with type := m },
    field "text" .string (·.text) fun m v => { v with text := m },
    field "data" .string (·.data) fun m v => { v with data := m },
    field "mimeType" .string (·.mimeType) fun m v => { v with mimeType := m },
    field "uri" .string (·.uri) fun m v => { v with uri := m },
    field "name" .string (·.name) fun m v => { v with name := m },
    field "description" .string (·.description) fun m v => { v with description := m },
    field "title" .string (·.title) fun m v => { v with title := m },
    field "size" (.optional .int) (·.size) fun m v => { v with size := m },
    field "resource" (.optional (.record _ EmbeddedResource.codec)) (·.resource)
      fun m v => { v with resource := m },
    field "annotations" .object (·.annotations) fun m v => { v with annotations := m }]

theorem ContentBlock.lawful : ContentBlock.schema.Lawful :=
  ⟨by decide, by simp [schema], by simp [schema]⟩

/-- `ContentBlock::toJson`, which writes the members its type has. -/
def ContentBlock.toJson (b : ContentBlock) : JsonObject :=
  let o := JsonObject.ofFields [("type", .str b.type)]
  let o :=
    if b.type = "text" then o.insert "text" (.str b.text)
    else if b.type = "image" then
      ((o.insert "data" (.str b.data)).insert "mimeType" (.str b.mimeType)).insertText "uri" b.uri
    else if b.type = "audio" then
      (o.insert "data" (.str b.data)).insert "mimeType" (.str b.mimeType)
    else if b.type = "resource_link" then
      let o := (o.insert "uri" (.str b.uri)).insert "name" (.str b.name)
      let o := o.insertText "description" b.description
      let o := o.insertText "mimeType" b.mimeType
      let o := o.insertText "title" b.title
      match b.size with
      | some size => o.insert "size" (.num (size.toInt : Rat))
      | none => o
    else if b.type = "resource" then
      match b.resource with
      | some resource => o.insert "resource" (.obj resource.toJson)
      | none => o
    else o
  if !b.annotations.isEmpty then o.insert "annotations" (.obj b.annotations) else o

def ContentBlock.codec : WireJson ContentBlock :=
  .byHand {} ContentBlock.toJson ContentBlock.schema.fromJson

structure PromptParams where
  sessionId : String := ""
  prompt : List ContentBlock := []

def PromptParams.schema : Schema PromptParams where
  blank := {}
  fields := [
    field "sessionId" .string (·.sessionId) fun m v => { v with sessionId := m },
    field "prompt" (.list (.record _ ContentBlock.codec)) (·.prompt)
      fun m v => { v with prompt := m }]

theorem PromptParams.lawful : PromptParams.schema.Lawful :=
  ⟨by decide, by simp [schema], by simp [schema]⟩

structure PromptResult where
  stopReason : String := "end_turn"
  usage : JsonObject := []
  extras : JsonObject := []

def PromptResult.schema : Schema PromptResult where
  blank := {}
  fields := [
    field "stopReason" .string (·.stopReason) fun m v => { v with stopReason := m },
    omitEmpty "usage" .object (·.usage) fun m v => { v with usage := m }]
  extras := some ⟨(·.extras), fun m v => { v with extras := m }⟩

theorem PromptResult.lawful : PromptResult.schema.Lawful :=
  ⟨by decide, by simp [schema], by simp [schema]⟩

structure ToolCallLocation where
  path : String := ""
  line : Option Int32 := none

def ToolCallLocation.schema : Schema ToolCallLocation where
  blank := {}
  fields := [
    field "path" .string (·.path) fun m v => { v with path := m },
    field "line" (.optional .int) (·.line) fun m v => { v with line := m }]

theorem ToolCallLocation.lawful : ToolCallLocation.schema.Lawful :=
  ⟨by decide, by simp [schema], by simp [schema]⟩

def ToolCallLocation.codec : WireJson ToolCallLocation := schema.codec lawful

structure ToolCallContent where
  type : String := "content"
  content : Option ContentBlock := none
  path : String := ""
  oldText : String := ""
  newText : String := ""
  terminalId : String := ""

def ToolCallContent.schema : Schema ToolCallContent where
  blank := {}
  fields := [
    field "type" .string (·.type) fun m v => { v with type := m },
    field "content" (.optional (.record _ ContentBlock.codec)) (·.content)
      fun m v => { v with content := m },
    field "path" .string (·.path) fun m v => { v with path := m },
    field "oldText" .string (·.oldText) fun m v => { v with oldText := m },
    field "newText" .string (·.newText) fun m v => { v with newText := m },
    field "terminalId" .string (·.terminalId) fun m v => { v with terminalId := m }]

theorem ToolCallContent.lawful : ToolCallContent.schema.Lawful :=
  ⟨by decide, by simp [schema], by simp [schema]⟩

/-- `ToolCallContent::toJson`. A null text is not told from an empty one. -/
def ToolCallContent.toJson (c : ToolCallContent) : JsonObject :=
  let o := JsonObject.ofFields [("type", .str c.type)]
  if c.type = "content" then
    match c.content with
    | some content => o.insert "content" (.obj content.toJson)
    | none => o
  else if c.type = "diff" then
    ((o.insert "path" (.str c.path)).insertText "oldText" c.oldText).insert "newText"
      (.str c.newText)
  else if c.type = "terminal" then o.insert "terminalId" (.str c.terminalId)
  else o

def ToolCallContent.codec : WireJson ToolCallContent :=
  .byHand {} ToolCallContent.toJson ToolCallContent.schema.fromJson

structure ToolCall where
  toolCallId : String := ""
  title : String := ""
  kind : String := ""
  status : String := ""
  content : List ToolCallContent := []
  locations : List ToolCallLocation := []
  rawInput : JsonObject := []
  rawOutput : JsonObject := []

def ToolCall.schema : Schema ToolCall where
  blank := {}
  fields := [
    field "toolCallId" .string (·.toolCallId) fun m v => { v with toolCallId := m },
    omitEmpty "title" .string (·.title) fun m v => { v with title := m },
    omitEmpty "kind" .string (·.kind) fun m v => { v with kind := m },
    omitEmpty "status" .string (·.status) fun m v => { v with status := m },
    omitEmpty "content" (.list (.record _ ToolCallContent.codec)) (·.content)
      fun m v => { v with content := m },
    omitEmpty "locations" (.list (.record _ ToolCallLocation.codec)) (·.locations)
      fun m v => { v with locations := m },
    omitEmpty "rawInput" .object (·.rawInput) fun m v => { v with rawInput := m },
    omitEmpty "rawOutput" .object (·.rawOutput) fun m v => { v with rawOutput := m }]

theorem ToolCall.lawful : ToolCall.schema.Lawful :=
  ⟨by decide, by simp [schema], by simp [schema]⟩

def ToolCall.codec : WireJson ToolCall := schema.codec lawful

structure PlanEntry where
  content : String := ""
  priority : String := ""
  status : String := ""

def PlanEntry.schema : Schema PlanEntry where
  blank := {}
  fields := [
    field "content" .string (·.content) fun m v => { v with content := m },
    field "priority" .string (·.priority) fun m v => { v with priority := m },
    field "status" .string (·.status) fun m v => { v with status := m }]

theorem PlanEntry.lawful : PlanEntry.schema.Lawful :=
  ⟨by decide, by simp [schema], by simp [schema]⟩

def PlanEntry.codec : WireJson PlanEntry := schema.codec lawful

structure Plan where
  entries : List PlanEntry := []

def Plan.schema : Schema Plan where
  blank := {}
  fields := [
    field "entries" (.list (.record _ PlanEntry.codec)) (·.entries)
      fun m v => { v with entries := m }]

theorem Plan.lawful : Plan.schema.Lawful :=
  ⟨by decide, by simp [schema], by simp [schema]⟩

def Plan.codec : WireJson Plan := schema.codec lawful

structure AvailableCommand where
  name : String := ""
  description : String := ""
  inputHint : String := ""

namespace AvailableCommand

/-- `AvailableCommand::toJson`. -/
def toJson (c : AvailableCommand) : JsonObject :=
  let o := JsonObject.ofFields [("name", .str c.name), ("description", .str c.description)]
  if !c.inputHint.isEmpty then
    o.insert "input" (.obj (JsonObject.ofFields [("hint", .str c.inputHint)]))
  else o

/-- `AvailableCommand::fromJson`. -/
def fromJson (obj : JsonObject) : AvailableCommand where
  name := (obj.value "name").toString
  description := (obj.value "description").toString
  inputHint := ((obj.value "input").toObject.value "hint").toString

end AvailableCommand

structure SessionUpdate where
  sessionUpdate : String := ""
  content : Option ContentBlock := none
  toolCall : Option ToolCall := none
  plan : Option Plan := none
  availableCommands : List AvailableCommand := []
  currentModeId : String := ""
  configOptions : List SessionConfigOption := []
  usage : JsonObject := []
  title : String := ""

namespace SessionUpdate

/-- `SessionUpdate::toJson`. -/
def toJson (u : SessionUpdate) : JsonObject :=
  let o := JsonObject.ofFields [("sessionUpdate", .str u.sessionUpdate)]
  if u.sessionUpdate = "user_message_chunk" ∨ u.sessionUpdate = "agent_message_chunk" ∨
      u.sessionUpdate = "agent_thought_chunk" then
    match u.content with
    | some content => o.insert "content" (.obj content.toJson)
    | none => o
  else if u.sessionUpdate = "tool_call" ∨ u.sessionUpdate = "tool_call_update" then
    match u.toolCall with
    | some toolCall => o.insert "toolCall" (.obj (ToolCall.codec.toJson toolCall))
    | none => o
  else if u.sessionUpdate = "plan" then
    match u.plan with
    | some plan => o.insert "plan" (.obj (Plan.codec.toJson plan))
    | none => o
  else if u.sessionUpdate = "available_commands_update" then
    o.insert "availableCommands" (.arr (u.availableCommands.map fun c => .obj c.toJson))
  else if u.sessionUpdate = "current_mode_update" then
    o.insert "currentModeId" (.str u.currentModeId)
  else if u.sessionUpdate = "config_option_update" then
    o.insert "configOptions" (.arr (u.configOptions.map fun c => .obj c.toJson))
  else if u.sessionUpdate = "usage_update" then
    u.usage.foldl (fun o e => o.insert e.1 e.2) o
  else if u.sessionUpdate = "session_info_update" then o.insert "title" (.str u.title)
  else o

/-- `SessionUpdate::fromJson`. -/
def fromJson (obj : JsonObject) : SessionUpdate :=
  let sessionUpdate := (obj.value "sessionUpdate").toString
  let content := obj.value "content"
  let toolCall := obj.value "toolCall"
  let plan := obj.value "plan"
  { sessionUpdate
    content :=
      if obj.contains "content" && content.isObject then
        some (ContentBlock.schema.fromJson content.toObject)
      else none
    toolCall :=
      if obj.contains "toolCall" && toolCall.isObject then
        some (ToolCall.codec.fromJson toolCall.toObject)
      else if sessionUpdate = "tool_call" ∨ sessionUpdate = "tool_call_update" then
        some (ToolCall.codec.fromJson obj)
      else none
    plan :=
      if obj.contains "plan" && plan.isObject then some (Plan.codec.fromJson plan.toObject)
      else if sessionUpdate = "plan" then some (Plan.codec.fromJson obj)
      else none
    availableCommands :=
      (obj.value "availableCommands").toArray.map fun v => AvailableCommand.fromJson v.toObject
    currentModeId := (obj.value "currentModeId").toString
    configOptions :=
      (obj.value "configOptions").toArray.map fun v => SessionConfigOption.fromJson v.toObject
    usage := if sessionUpdate = "usage_update" then obj.remove "sessionUpdate" else []
    title := (obj.value "title").toString }

def codec : WireJson SessionUpdate := .byHand {} toJson fromJson

end SessionUpdate

structure SessionNotification where
  sessionId : String := ""
  update : SessionUpdate := {}

def SessionNotification.schema : Schema SessionNotification where
  blank := {}
  fields := [
    field "sessionId" .string (·.sessionId) fun m v => { v with sessionId := m },
    field "update" (.record _ SessionUpdate.codec) (·.update) fun m v => { v with update := m }]

theorem SessionNotification.lawful : SessionNotification.schema.Lawful :=
  ⟨by decide, by simp [schema], by simp [schema]⟩

structure PermissionOption where
  optionId : String := ""
  name : String := ""
  kind : String := ""

def PermissionOption.schema : Schema PermissionOption where
  blank := {}
  fields := [
    field "optionId" .string (·.optionId) fun m v => { v with optionId := m },
    field "name" .string (·.name) fun m v => { v with name := m },
    field "kind" .string (·.kind) fun m v => { v with kind := m }]

theorem PermissionOption.lawful : PermissionOption.schema.Lawful :=
  ⟨by decide, by simp [schema], by simp [schema]⟩

def PermissionOption.codec : WireJson PermissionOption := schema.codec lawful

structure RequestPermissionParams where
  sessionId : String := ""
  toolCall : ToolCall := {}
  options : List PermissionOption := []

def RequestPermissionParams.schema : Schema RequestPermissionParams where
  blank := {}
  fields := [
    field "sessionId" .string (·.sessionId) fun m v => { v with sessionId := m },
    field "toolCall" (.record _ ToolCall.codec) (·.toolCall) fun m v => { v with toolCall := m },
    field "options" (.list (.record _ PermissionOption.codec)) (·.options)
      fun m v => { v with options := m }]

theorem RequestPermissionParams.lawful : RequestPermissionParams.schema.Lawful :=
  ⟨by decide, by simp [schema], by simp [schema]⟩

structure ReadTextFileParams where
  sessionId : String := ""
  path : String := ""
  line : Option Int32 := none
  limit : Option Int32 := none

def ReadTextFileParams.schema : Schema ReadTextFileParams where
  blank := {}
  fields := [
    field "sessionId" .string (·.sessionId) fun m v => { v with sessionId := m },
    field "path" .string (·.path) fun m v => { v with path := m },
    field "line" (.optional .int) (·.line) fun m v => { v with line := m },
    field "limit" (.optional .int) (·.limit) fun m v => { v with limit := m }]

theorem ReadTextFileParams.lawful : ReadTextFileParams.schema.Lawful :=
  ⟨by decide, by simp [schema], by simp [schema]⟩

structure ReadTextFileResult where
  content : String := ""

def ReadTextFileResult.schema : Schema ReadTextFileResult where
  blank := {}
  fields := [
    field "content" .string (·.content) fun m v => { v with content := m }]

theorem ReadTextFileResult.lawful : ReadTextFileResult.schema.Lawful :=
  ⟨by decide, by simp [schema], by simp [schema]⟩

structure WriteTextFileParams where
  sessionId : String := ""
  path : String := ""
  content : String := ""

def WriteTextFileParams.schema : Schema WriteTextFileParams where
  blank := {}
  fields := [
    field "sessionId" .string (·.sessionId) fun m v => { v with sessionId := m },
    field "path" .string (·.path) fun m v => { v with path := m },
    field "content" .string (·.content) fun m v => { v with content := m }]

theorem WriteTextFileParams.lawful : WriteTextFileParams.schema.Lawful :=
  ⟨by decide, by simp [schema], by simp [schema]⟩

structure CreateTerminalParams where
  sessionId : String := ""
  command : String := ""
  args : List String := []
  cwd : String := ""
  env : List EnvVariable := []
  outputByteLimit : Option Int32 := none

def CreateTerminalParams.schema : Schema CreateTerminalParams where
  blank := {}
  fields := [
    field "sessionId" .string (·.sessionId) fun m v => { v with sessionId := m },
    field "command" .string (·.command) fun m v => { v with command := m },
    field "args" .stringList (·.args) fun m v => { v with args := m },
    field "env" (.list (.record _ EnvVariable.codec)) (·.env) fun m v => { v with env := m },
    omitEmpty "cwd" .string (·.cwd) fun m v => { v with cwd := m },
    field "outputByteLimit" (.optional .int) (·.outputByteLimit)
      fun m v => { v with outputByteLimit := m }]

theorem CreateTerminalParams.lawful : CreateTerminalParams.schema.Lawful :=
  ⟨by decide, by simp [schema], by simp [schema]⟩

structure CreateTerminalResult where
  terminalId : String := ""

def CreateTerminalResult.schema : Schema CreateTerminalResult where
  blank := {}
  fields := [
    field "terminalId" .string (·.terminalId) fun m v => { v with terminalId := m }]

theorem CreateTerminalResult.lawful : CreateTerminalResult.schema.Lawful :=
  ⟨by decide, by simp [schema], by simp [schema]⟩

structure ExitStatus where
  exitCode : Option Int32 := none
  signal : String := ""

def ExitStatus.schema : Schema ExitStatus where
  blank := {}
  fields := [
    nullWhenEmpty "exitCode" (.optional .int) (·.exitCode) fun m v => { v with exitCode := m },
    nullWhenEmpty "signal" .string (·.signal) fun m v => { v with signal := m }]

theorem ExitStatus.lawful : ExitStatus.schema.Lawful :=
  ⟨by decide, by simp [schema], by simp [schema]⟩

def ExitStatus.codec : WireJson ExitStatus := schema.codec lawful

structure TerminalOutputParams where
  sessionId : String := ""
  terminalId : String := ""

def TerminalOutputParams.schema : Schema TerminalOutputParams where
  blank := {}
  fields := [
    field "sessionId" .string (·.sessionId) fun m v => { v with sessionId := m },
    field "terminalId" .string (·.terminalId) fun m v => { v with terminalId := m }]

theorem TerminalOutputParams.lawful : TerminalOutputParams.schema.Lawful :=
  ⟨by decide, by simp [schema], by simp [schema]⟩

structure TerminalOutputResult where
  output : String := ""
  truncated : Bool := false
  exitStatus : Option ExitStatus := none

def TerminalOutputResult.schema : Schema TerminalOutputResult where
  blank := {}
  fields := [
    field "output" .string (·.output) fun m v => { v with output := m },
    field "truncated" .bool (·.truncated) fun m v => { v with truncated := m },
    field "exitStatus" (.optional (.record _ ExitStatus.codec)) (·.exitStatus)
      fun m v => { v with exitStatus := m }]

theorem TerminalOutputResult.lawful : TerminalOutputResult.schema.Lawful :=
  ⟨by decide, by simp [schema], by simp [schema]⟩

structure TerminalRefParams where
  sessionId : String := ""
  terminalId : String := ""

def TerminalRefParams.schema : Schema TerminalRefParams where
  blank := {}
  fields := [
    field "sessionId" .string (·.sessionId) fun m v => { v with sessionId := m },
    field "terminalId" .string (·.terminalId) fun m v => { v with terminalId := m }]

theorem TerminalRefParams.lawful : TerminalRefParams.schema.Lawful :=
  ⟨by decide, by simp [schema], by simp [schema]⟩

structure WaitForTerminalExitResult where
  exitCode : Option Int32 := none
  signal : String := ""

def WaitForTerminalExitResult.schema : Schema WaitForTerminalExitResult where
  blank := {}
  fields := [
    nullWhenEmpty "exitCode" (.optional .int) (·.exitCode) fun m v => { v with exitCode := m },
    nullWhenEmpty "signal" .string (·.signal) fun m v => { v with signal := m }]

theorem WaitForTerminalExitResult.lawful : WaitForTerminalExitResult.schema.Lawful :=
  ⟨by decide, by simp [schema], by simp [schema]⟩

/-- The table of schemas. -/
def schemas : List SchemaEntry := [
  .whole EnvVariable.schema EnvVariable.lawful fun v => by cases v; rfl,
  .whole Implementation.schema Implementation.lawful fun v => by cases v; rfl,
  .whole FileSystemCapability.schema FileSystemCapability.lawful fun v => by cases v; rfl,
  .whole BooleanConfigOptionCapabilities.schema BooleanConfigOptionCapabilities.lawful
    fun v => by cases v; rfl,
  .whole SessionConfigOptionsCapabilities.schema SessionConfigOptionsCapabilities.lawful
    fun v => by cases v; rfl,
  .whole ClientSessionCapabilities.schema ClientSessionCapabilities.lawful fun v => by cases v; rfl,
  .whole ClientCapabilities.schema ClientCapabilities.lawful fun v => by cases v; rfl,
  .whole PromptCapabilities.schema PromptCapabilities.lawful fun v => by cases v; rfl,
  .whole McpCapabilities.schema McpCapabilities.lawful fun v => by cases v; rfl,
  .whole AgentCapabilities.schema AgentCapabilities.lawful fun v => by cases v; rfl,
  .whole AuthMethod.schema AuthMethod.lawful fun v => by cases v; rfl,
  .whole InitializeParams.schema InitializeParams.lawful fun v => by cases v; rfl,
  .whole InitializeResult.schema InitializeResult.lawful fun v => by cases v; rfl,
  .whole SessionMode.schema SessionMode.lawful fun v => by cases v; rfl,
  .whole SessionModeState.schema SessionModeState.lawful fun v => by cases v; rfl,
  .whole SessionConfigSelectOption.schema SessionConfigSelectOption.lawful fun v => by cases v; rfl,
  .whole SessionConfigSelectGroup.schema SessionConfigSelectGroup.lawful fun v => by cases v; rfl,
  .whole NewSessionParams.schema NewSessionParams.lawful fun v => by cases v; rfl,
  .whole NewSessionResult.schema NewSessionResult.lawful fun v => by cases v; rfl,
  .whole LoadSessionParams.schema LoadSessionParams.lawful fun v => by cases v; rfl,
  .whole ContentBlock.schema ContentBlock.lawful fun v => by cases v; rfl,
  .whole PromptParams.schema PromptParams.lawful fun v => by cases v; rfl,
  .whole PromptResult.schema PromptResult.lawful fun v => by cases v; rfl,
  .whole ToolCallLocation.schema ToolCallLocation.lawful fun v => by cases v; rfl,
  .whole ToolCallContent.schema ToolCallContent.lawful fun v => by cases v; rfl,
  .whole ToolCall.schema ToolCall.lawful fun v => by cases v; rfl,
  .whole PlanEntry.schema PlanEntry.lawful fun v => by cases v; rfl,
  .whole Plan.schema Plan.lawful fun v => by cases v; rfl,
  .whole SessionNotification.schema SessionNotification.lawful fun v => by cases v; rfl,
  .whole PermissionOption.schema PermissionOption.lawful fun v => by cases v; rfl,
  .whole RequestPermissionParams.schema RequestPermissionParams.lawful fun v => by cases v; rfl,
  .whole ReadTextFileParams.schema ReadTextFileParams.lawful fun v => by cases v; rfl,
  .whole ReadTextFileResult.schema ReadTextFileResult.lawful fun v => by cases v; rfl,
  .whole WriteTextFileParams.schema WriteTextFileParams.lawful fun v => by cases v; rfl,
  .whole CreateTerminalParams.schema CreateTerminalParams.lawful fun v => by cases v; rfl,
  .whole CreateTerminalResult.schema CreateTerminalResult.lawful fun v => by cases v; rfl,
  .whole ExitStatus.schema ExitStatus.lawful fun v => by cases v; rfl,
  .whole TerminalOutputParams.schema TerminalOutputParams.lawful fun v => by cases v; rfl,
  .whole TerminalOutputResult.schema TerminalOutputResult.lawful fun v => by cases v; rfl,
  .whole TerminalRefParams.schema TerminalRefParams.lawful fun v => by cases v; rfl,
  .whole WaitForTerminalExitResult.schema WaitForTerminalExitResult.lawful fun v => by cases v; rfl]

end LLMQore.AcpTypes
