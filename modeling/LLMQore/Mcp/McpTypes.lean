import LLMQore.JsonFields

/-!
# LLMQore.Mcp.McpTypes

The records of the Model Context Protocol (`McpTypes.hpp`) and the table of their schemas
(`McpTypeSchema.hpp`).

The capabilities that are only there or not there have a member `present`, which no schema
declares.
-/

namespace LLMQore.McpTypes

open Json

structure IconInfo where
  src : String := ""
  mimeType : String := ""
  sizes : String := ""

def IconInfo.schema : Schema IconInfo where
  blank := {}
  fields := [
    field "src" .string (·.src) fun m v => { v with src := m },
    omitEmpty "mimeType" .string (·.mimeType) fun m v => { v with mimeType := m },
    omitEmpty "sizes" .string (·.sizes) fun m v => { v with sizes := m }]

theorem IconInfo.lawful : IconInfo.schema.Lawful :=
  ⟨by decide, by simp [schema], by simp [schema]⟩

def IconInfo.codec : WireJson IconInfo := schema.codec lawful

structure Implementation where
  name : String := ""
  version : String := ""
  description : String := ""
  title : String := ""
  icons : List IconInfo := []

def Implementation.schema : Schema Implementation where
  blank := {}
  fields := [
    field "name" .string (·.name) fun m v => { v with name := m },
    field "version" .string (·.version) fun m v => { v with version := m },
    omitEmpty "description" .string (·.description) fun m v => { v with description := m },
    omitEmpty "title" .string (·.title) fun m v => { v with title := m },
    omitEmpty "icons" (.list (.record _ IconInfo.codec)) (·.icons)
      fun m v => { v with icons := m }]

theorem Implementation.lawful : Implementation.schema.Lawful :=
  ⟨by decide, by simp [schema], by simp [schema]⟩

def Implementation.codec : WireJson Implementation := schema.codec lawful

structure ToolsCapability where
  listChanged : Bool := false

def ToolsCapability.schema : Schema ToolsCapability where
  blank := {}
  fields := [
    omitEmpty "listChanged" .bool (·.listChanged) fun m v => { v with listChanged := m }]

theorem ToolsCapability.lawful : ToolsCapability.schema.Lawful :=
  ⟨by decide, by simp [schema], by simp [schema]⟩

def ToolsCapability.codec : WireJson ToolsCapability := schema.codec lawful

structure ResourcesCapability where
  subscribe : Bool := false
  listChanged : Bool := false

def ResourcesCapability.schema : Schema ResourcesCapability where
  blank := {}
  fields := [
    omitEmpty "subscribe" .bool (·.subscribe) fun m v => { v with subscribe := m },
    omitEmpty "listChanged" .bool (·.listChanged) fun m v => { v with listChanged := m }]

theorem ResourcesCapability.lawful : ResourcesCapability.schema.Lawful :=
  ⟨by decide, by simp [schema], by simp [schema]⟩

def ResourcesCapability.codec : WireJson ResourcesCapability := schema.codec lawful

structure PromptsCapability where
  listChanged : Bool := false

def PromptsCapability.schema : Schema PromptsCapability where
  blank := {}
  fields := [
    omitEmpty "listChanged" .bool (·.listChanged) fun m v => { v with listChanged := m }]

theorem PromptsCapability.lawful : PromptsCapability.schema.Lawful :=
  ⟨by decide, by simp [schema], by simp [schema]⟩

def PromptsCapability.codec : WireJson PromptsCapability := schema.codec lawful

structure LoggingCapability where
  present : Bool := true

def LoggingCapability.schema : Schema LoggingCapability where
  blank := {}
  fields := []

theorem LoggingCapability.lawful : LoggingCapability.schema.Lawful :=
  ⟨by decide, by simp [schema], by simp [schema]⟩

def LoggingCapability.codec : WireJson LoggingCapability := schema.codec lawful

def LoggingCapability.entry : SchemaEntry where
  Record := LoggingCapability
  schema := LoggingCapability.schema
  lawful := LoggingCapability.lawful
  Declared v := v.present = true
  restore_eq_iff v := by
    obtain ⟨present⟩ := v
    cases present <;> simp [schema, Schema.restore]

structure CompletionsCapability where
  present : Bool := true

def CompletionsCapability.schema : Schema CompletionsCapability where
  blank := {}
  fields := []

theorem CompletionsCapability.lawful : CompletionsCapability.schema.Lawful :=
  ⟨by decide, by simp [schema], by simp [schema]⟩

def CompletionsCapability.codec : WireJson CompletionsCapability := schema.codec lawful

def CompletionsCapability.entry : SchemaEntry where
  Record := CompletionsCapability
  schema := CompletionsCapability.schema
  lawful := CompletionsCapability.lawful
  Declared v := v.present = true
  restore_eq_iff v := by
    obtain ⟨present⟩ := v
    cases present <;> simp [schema, Schema.restore]

structure ServerCapabilities where
  tools : Option ToolsCapability := none
  resources : Option ResourcesCapability := none
  prompts : Option PromptsCapability := none
  logging : Option LoggingCapability := none
  completions : Option CompletionsCapability := none
  extras : JsonObject := []

def ServerCapabilities.schema : Schema ServerCapabilities where
  blank := {}
  fields := [
    field "tools" (.optional (.record _ ToolsCapability.codec)) (·.tools)
      fun m v => { v with tools := m },
    field "resources" (.optional (.record _ ResourcesCapability.codec)) (·.resources)
      fun m v => { v with resources := m },
    field "prompts" (.optional (.record _ PromptsCapability.codec)) (·.prompts)
      fun m v => { v with prompts := m },
    field "logging" (.optional (.record _ LoggingCapability.codec)) (·.logging)
      fun m v => { v with logging := m },
    field "completions" (.optional (.record _ CompletionsCapability.codec)) (·.completions)
      fun m v => { v with completions := m }]
  extras := some ⟨(·.extras), fun m v => { v with extras := m }⟩

theorem ServerCapabilities.lawful : ServerCapabilities.schema.Lawful :=
  ⟨by decide, by simp [schema], by simp [schema]⟩

def ServerCapabilities.codec : WireJson ServerCapabilities := schema.codec lawful

structure RootsCapability where
  listChanged : Bool := false

def RootsCapability.schema : Schema RootsCapability where
  blank := {}
  fields := [
    omitEmpty "listChanged" .bool (·.listChanged) fun m v => { v with listChanged := m }]

theorem RootsCapability.lawful : RootsCapability.schema.Lawful :=
  ⟨by decide, by simp [schema], by simp [schema]⟩

def RootsCapability.codec : WireJson RootsCapability := schema.codec lawful

structure SamplingCapability where
  present : Bool := true

def SamplingCapability.schema : Schema SamplingCapability where
  blank := {}
  fields := []

theorem SamplingCapability.lawful : SamplingCapability.schema.Lawful :=
  ⟨by decide, by simp [schema], by simp [schema]⟩

def SamplingCapability.codec : WireJson SamplingCapability := schema.codec lawful

def SamplingCapability.entry : SchemaEntry where
  Record := SamplingCapability
  schema := SamplingCapability.schema
  lawful := SamplingCapability.lawful
  Declared v := v.present = true
  restore_eq_iff v := by
    obtain ⟨present⟩ := v
    cases present <;> simp [schema, Schema.restore]

structure ElicitationCapability where
  present : Bool := true

def ElicitationCapability.schema : Schema ElicitationCapability where
  blank := {}
  fields := []

theorem ElicitationCapability.lawful : ElicitationCapability.schema.Lawful :=
  ⟨by decide, by simp [schema], by simp [schema]⟩

def ElicitationCapability.codec : WireJson ElicitationCapability := schema.codec lawful

def ElicitationCapability.entry : SchemaEntry where
  Record := ElicitationCapability
  schema := ElicitationCapability.schema
  lawful := ElicitationCapability.lawful
  Declared v := v.present = true
  restore_eq_iff v := by
    obtain ⟨present⟩ := v
    cases present <;> simp [schema, Schema.restore]

structure ClientCapabilities where
  roots : Option RootsCapability := none
  sampling : Option SamplingCapability := none
  elicitation : Option ElicitationCapability := none
  extras : JsonObject := []

def ClientCapabilities.schema : Schema ClientCapabilities where
  blank := {}
  fields := [
    field "roots" (.optional (.record _ RootsCapability.codec)) (·.roots)
      fun m v => { v with roots := m },
    field "sampling" (.optional (.record _ SamplingCapability.codec)) (·.sampling)
      fun m v => { v with sampling := m },
    field "elicitation" (.optional (.record _ ElicitationCapability.codec)) (·.elicitation)
      fun m v => { v with elicitation := m }]
  extras := some ⟨(·.extras), fun m v => { v with extras := m }⟩

theorem ClientCapabilities.lawful : ClientCapabilities.schema.Lawful :=
  ⟨by decide, by simp [schema], by simp [schema]⟩

structure InitializeResult where
  protocolVersion : String := ""
  capabilities : ServerCapabilities := {}
  serverInfo : Implementation := {}
  instructions : String := ""

def InitializeResult.schema : Schema InitializeResult where
  blank := {}
  fields := [
    field "protocolVersion" .string (·.protocolVersion) fun m v => { v with protocolVersion := m },
    field "capabilities" (.record _ ServerCapabilities.codec) (·.capabilities)
      fun m v => { v with capabilities := m },
    field "serverInfo" (.record _ Implementation.codec) (·.serverInfo)
      fun m v => { v with serverInfo := m },
    omitEmpty "instructions" .string (·.instructions) fun m v => { v with instructions := m }]

theorem InitializeResult.lawful : InitializeResult.schema.Lawful :=
  ⟨by decide, by simp [schema], by simp [schema]⟩

structure ToolInfo where
  name : String := ""
  title : String := ""
  description : String := ""
  inputSchema : JsonObject := []
  outputSchema : JsonObject := []
  annotations : JsonObject := []
  icons : List IconInfo := []
  metaObject : JsonObject := []

def ToolInfo.schema : Schema ToolInfo where
  blank := {}
  fields := [
    field "name" .string (·.name) fun m v => { v with name := m },
    omitEmpty "title" .string (·.title) fun m v => { v with title := m },
    omitEmpty "description" .string (·.description) fun m v => { v with description := m },
    field "inputSchema" .object (·.inputSchema) fun m v => { v with inputSchema := m },
    omitEmpty "outputSchema" .object (·.outputSchema) fun m v => { v with outputSchema := m },
    omitEmpty "annotations" .object (·.annotations) fun m v => { v with annotations := m },
    omitEmpty "icons" (.list (.record _ IconInfo.codec)) (·.icons)
      fun m v => { v with icons := m },
    omitEmpty "_meta" .object (·.metaObject) fun m v => { v with metaObject := m }]

theorem ToolInfo.lawful : ToolInfo.schema.Lawful :=
  ⟨by decide, by simp [schema], by simp [schema]⟩

structure ResourceInfo where
  uri : String := ""
  name : String := ""
  title : String := ""
  description : String := ""
  mimeType : String := ""
  icons : List IconInfo := []
  metaObject : JsonObject := []

def ResourceInfo.schema : Schema ResourceInfo where
  blank := {}
  fields := [
    field "uri" .string (·.uri) fun m v => { v with uri := m },
    omitEmpty "name" .string (·.name) fun m v => { v with name := m },
    omitEmpty "title" .string (·.title) fun m v => { v with title := m },
    omitEmpty "description" .string (·.description) fun m v => { v with description := m },
    omitEmpty "mimeType" .string (·.mimeType) fun m v => { v with mimeType := m },
    omitEmpty "icons" (.list (.record _ IconInfo.codec)) (·.icons)
      fun m v => { v with icons := m },
    omitEmpty "_meta" .object (·.metaObject) fun m v => { v with metaObject := m }]

theorem ResourceInfo.lawful : ResourceInfo.schema.Lawful :=
  ⟨by decide, by simp [schema], by simp [schema]⟩

structure ResourceTemplate where
  uriTemplate : String := ""
  name : String := ""
  title : String := ""
  description : String := ""
  mimeType : String := ""
  icons : List IconInfo := []
  metaObject : JsonObject := []

def ResourceTemplate.schema : Schema ResourceTemplate where
  blank := {}
  fields := [
    field "uriTemplate" .string (·.uriTemplate) fun m v => { v with uriTemplate := m },
    omitEmpty "name" .string (·.name) fun m v => { v with name := m },
    omitEmpty "title" .string (·.title) fun m v => { v with title := m },
    omitEmpty "description" .string (·.description) fun m v => { v with description := m },
    omitEmpty "mimeType" .string (·.mimeType) fun m v => { v with mimeType := m },
    omitEmpty "icons" (.list (.record _ IconInfo.codec)) (·.icons)
      fun m v => { v with icons := m },
    omitEmpty "_meta" .object (·.metaObject) fun m v => { v with metaObject := m }]

theorem ResourceTemplate.lawful : ResourceTemplate.schema.Lawful :=
  ⟨by decide, by simp [schema], by simp [schema]⟩

structure PromptArgument where
  name : String := ""
  description : String := ""
  required : Bool := false

def PromptArgument.schema : Schema PromptArgument where
  blank := {}
  fields := [
    field "name" .string (·.name) fun m v => { v with name := m },
    omitEmpty "description" .string (·.description) fun m v => { v with description := m },
    omitEmpty "required" .bool (·.required) fun m v => { v with required := m }]

theorem PromptArgument.lawful : PromptArgument.schema.Lawful :=
  ⟨by decide, by simp [schema], by simp [schema]⟩

def PromptArgument.codec : WireJson PromptArgument := schema.codec lawful

structure PromptInfo where
  name : String := ""
  title : String := ""
  description : String := ""
  arguments : List PromptArgument := []
  icons : List IconInfo := []
  metaObject : JsonObject := []

def PromptInfo.schema : Schema PromptInfo where
  blank := {}
  fields := [
    field "name" .string (·.name) fun m v => { v with name := m },
    omitEmpty "title" .string (·.title) fun m v => { v with title := m },
    omitEmpty "description" .string (·.description) fun m v => { v with description := m },
    omitEmpty "arguments" (.list (.record _ PromptArgument.codec)) (·.arguments)
      fun m v => { v with arguments := m },
    omitEmpty "icons" (.list (.record _ IconInfo.codec)) (·.icons)
      fun m v => { v with icons := m },
    omitEmpty "_meta" .object (·.metaObject) fun m v => { v with metaObject := m }]

theorem PromptInfo.lawful : PromptInfo.schema.Lawful :=
  ⟨by decide, by simp [schema], by simp [schema]⟩

structure PromptMessage where
  role : String := ""
  content : JsonObject := []

def PromptMessage.schema : Schema PromptMessage where
  blank := {}
  fields := [
    field "role" .string (·.role) fun m v => { v with role := m },
    field "content" .object (·.content) fun m v => { v with content := m }]

theorem PromptMessage.lawful : PromptMessage.schema.Lawful :=
  ⟨by decide, by simp [schema], by simp [schema]⟩

def PromptMessage.codec : WireJson PromptMessage := schema.codec lawful

structure PromptGetResult where
  description : String := ""
  messages : List PromptMessage := []

def PromptGetResult.schema : Schema PromptGetResult where
  blank := {}
  fields := [
    omitEmpty "description" .string (·.description) fun m v => { v with description := m },
    field "messages" (.list (.record _ PromptMessage.codec)) (·.messages)
      fun m v => { v with messages := m }]

theorem PromptGetResult.lawful : PromptGetResult.schema.Lawful :=
  ⟨by decide, by simp [schema], by simp [schema]⟩

structure CompletionReference where
  type : String := ""
  name : String := ""
  uri : String := ""

def CompletionReference.schema : Schema CompletionReference where
  blank := {}
  fields := [
    field "type" .string (·.type) fun m v => { v with type := m },
    omitEmpty "name" .string (·.name) fun m v => { v with name := m },
    omitEmpty "uri" .string (·.uri) fun m v => { v with uri := m }]

theorem CompletionReference.lawful : CompletionReference.schema.Lawful :=
  ⟨by decide, by simp [schema], by simp [schema]⟩

structure CompletionArgument where
  name : String := ""
  value : String := ""

def CompletionArgument.schema : Schema CompletionArgument where
  blank := {}
  fields := [
    field "name" .string (·.name) fun m v => { v with name := m },
    field "value" .string (·.value) fun m v => { v with value := m }]

theorem CompletionArgument.lawful : CompletionArgument.schema.Lawful :=
  ⟨by decide, by simp [schema], by simp [schema]⟩

structure Root where
  uri : String := ""
  name : String := ""

def Root.schema : Schema Root where
  blank := {}
  fields := [
    field "uri" .string (·.uri) fun m v => { v with uri := m },
    omitEmpty "name" .string (·.name) fun m v => { v with name := m }]

theorem Root.lawful : Root.schema.Lawful :=
  ⟨by decide, by simp [schema], by simp [schema]⟩

structure SamplingMessage where
  role : String := ""
  content : JsonObject := []

def SamplingMessage.schema : Schema SamplingMessage where
  blank := {}
  fields := [
    field "role" .string (·.role) fun m v => { v with role := m },
    field "content" .object (·.content) fun m v => { v with content := m }]

theorem SamplingMessage.lawful : SamplingMessage.schema.Lawful :=
  ⟨by decide, by simp [schema], by simp [schema]⟩

def SamplingMessage.codec : WireJson SamplingMessage := schema.codec lawful

structure ModelHint where
  name : String := ""

def ModelHint.schema : Schema ModelHint where
  blank := {}
  fields := [
    omitEmpty "name" .string (·.name) fun m v => { v with name := m }]

theorem ModelHint.lawful : ModelHint.schema.Lawful :=
  ⟨by decide, by simp [schema], by simp [schema]⟩

def ModelHint.codec : WireJson ModelHint := schema.codec lawful

structure ModelPreferences where
  hints : List ModelHint := []
  costPriority : Option Rat := none
  speedPriority : Option Rat := none
  intelligencePriority : Option Rat := none

def ModelPreferences.schema : Schema ModelPreferences where
  blank := {}
  fields := [
    omitEmpty "hints" (.list (.record _ ModelHint.codec)) (·.hints)
      fun m v => { v with hints := m },
    field "costPriority" (.optional .float) (·.costPriority)
      fun m v => { v with costPriority := m },
    field "speedPriority" (.optional .float) (·.speedPriority)
      fun m v => { v with speedPriority := m },
    field "intelligencePriority" (.optional .float) (·.intelligencePriority)
      fun m v => { v with intelligencePriority := m }]

theorem ModelPreferences.lawful : ModelPreferences.schema.Lawful :=
  ⟨by decide, by simp [schema], by simp [schema]⟩

def ModelPreferences.codec : WireJson ModelPreferences := schema.codec lawful

structure CreateMessageParams where
  messages : List SamplingMessage := []
  modelPreferences : Option ModelPreferences := none
  systemPrompt : String := ""
  includeContext : String := ""
  temperature : Option Rat := none
  maxTokens : Int32 := 0
  stopSequences : List String := []
  metadata : JsonObject := []

def CreateMessageParams.schema : Schema CreateMessageParams where
  blank := {}
  fields := [
    field "messages" (.list (.record _ SamplingMessage.codec)) (·.messages)
      fun m v => { v with messages := m },
    field "modelPreferences" (.optional (.record _ ModelPreferences.codec)) (·.modelPreferences)
      fun m v => { v with modelPreferences := m },
    omitEmpty "systemPrompt" .string (·.systemPrompt) fun m v => { v with systemPrompt := m },
    omitEmpty "includeContext" .string (·.includeContext)
      fun m v => { v with includeContext := m },
    field "temperature" (.optional .float) (·.temperature) fun m v => { v with temperature := m },
    field "maxTokens" .int (·.maxTokens) fun m v => { v with maxTokens := m },
    omitEmpty "stopSequences" .stringList (·.stopSequences)
      fun m v => { v with stopSequences := m },
    omitEmpty "metadata" .object (·.metadata) fun m v => { v with metadata := m }]

theorem CreateMessageParams.lawful : CreateMessageParams.schema.Lawful :=
  ⟨by decide, by simp [schema], by simp [schema]⟩

structure CreateMessageResult where
  role : String := ""
  content : JsonObject := []
  model : String := ""
  stopReason : String := ""

def CreateMessageResult.schema : Schema CreateMessageResult where
  blank := {}
  fields := [
    field "role" .string (·.role) fun m v => { v with role := m },
    field "content" .object (·.content) fun m v => { v with content := m },
    omitEmpty "model" .string (·.model) fun m v => { v with model := m },
    omitEmpty "stopReason" .string (·.stopReason) fun m v => { v with stopReason := m }]

theorem CreateMessageResult.lawful : CreateMessageResult.schema.Lawful :=
  ⟨by decide, by simp [schema], by simp [schema]⟩

structure ElicitRequestParams where
  message : String := ""
  requestedSchema : JsonObject := []
  mode : String := ""
  url : String := ""

def ElicitRequestParams.schema : Schema ElicitRequestParams where
  blank := {}
  fields := [
    field "message" .string (·.message) fun m v => { v with message := m },
    omitEmpty "requestedSchema" .object (·.requestedSchema)
      fun m v => { v with requestedSchema := m },
    omitEmpty "mode" .string (·.mode) fun m v => { v with mode := m },
    omitEmpty "url" .string (·.url) fun m v => { v with url := m }]

theorem ElicitRequestParams.lawful : ElicitRequestParams.schema.Lawful :=
  ⟨by decide, by simp [schema], by simp [schema]⟩

structure ElicitResult where
  action : String := ""
  content : JsonObject := []

def ElicitResult.schema : Schema ElicitResult where
  blank := {}
  fields := [
    field "action" .string (·.action) fun m v => { v with action := m },
    field "content" .object (·.content) fun m v => { v with content := m }]

theorem ElicitResult.lawful : ElicitResult.schema.Lawful :=
  ⟨by decide, by simp [schema], by simp [schema]⟩

/-- The table of schemas. -/
def schemas : List SchemaEntry := [
  .whole IconInfo.schema IconInfo.lawful fun v => by cases v; rfl,
  .whole Implementation.schema Implementation.lawful fun v => by cases v; rfl,
  .whole ToolsCapability.schema ToolsCapability.lawful fun v => by cases v; rfl,
  .whole ResourcesCapability.schema ResourcesCapability.lawful fun v => by cases v; rfl,
  .whole PromptsCapability.schema PromptsCapability.lawful fun v => by cases v; rfl,
  LoggingCapability.entry,
  CompletionsCapability.entry,
  .whole ServerCapabilities.schema ServerCapabilities.lawful fun v => by cases v; rfl,
  .whole RootsCapability.schema RootsCapability.lawful fun v => by cases v; rfl,
  SamplingCapability.entry,
  ElicitationCapability.entry,
  .whole ClientCapabilities.schema ClientCapabilities.lawful fun v => by cases v; rfl,
  .whole InitializeResult.schema InitializeResult.lawful fun v => by cases v; rfl,
  .whole ToolInfo.schema ToolInfo.lawful fun v => by cases v; rfl,
  .whole ResourceInfo.schema ResourceInfo.lawful fun v => by cases v; rfl,
  .whole ResourceTemplate.schema ResourceTemplate.lawful fun v => by cases v; rfl,
  .whole PromptArgument.schema PromptArgument.lawful fun v => by cases v; rfl,
  .whole PromptInfo.schema PromptInfo.lawful fun v => by cases v; rfl,
  .whole PromptMessage.schema PromptMessage.lawful fun v => by cases v; rfl,
  .whole PromptGetResult.schema PromptGetResult.lawful fun v => by cases v; rfl,
  .whole CompletionReference.schema CompletionReference.lawful fun v => by cases v; rfl,
  .whole CompletionArgument.schema CompletionArgument.lawful fun v => by cases v; rfl,
  .whole Root.schema Root.lawful fun v => by cases v; rfl,
  .whole SamplingMessage.schema SamplingMessage.lawful fun v => by cases v; rfl,
  .whole ModelHint.schema ModelHint.lawful fun v => by cases v; rfl,
  .whole ModelPreferences.schema ModelPreferences.lawful fun v => by cases v; rfl,
  .whole CreateMessageParams.schema CreateMessageParams.lawful fun v => by cases v; rfl,
  .whole CreateMessageResult.schema CreateMessageResult.lawful fun v => by cases v; rfl,
  .whole ElicitRequestParams.schema ElicitRequestParams.lawful fun v => by cases v; rfl,
  .whole ElicitResult.schema ElicitResult.lawful fun v => by cases v; rfl]

end LLMQore.McpTypes
