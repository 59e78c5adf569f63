import LLMQore.Json

/-!
# LLMQore.Core.Usage

Token usage as providers report it (`UsageSchema`, `UsageDelta`, `TokenUsage`).
-/

namespace LLMQore

structure TokenUsage where
  promptTokens : Int := 0
  completionTokens : Int := 0
  cachedPromptTokens : Int := 0
  reasoningTokens : Int := 0
  deriving DecidableEq

structure UsageField where
  object : String := ""
  name : String := ""

structure UsageSchema where
  container : String := ""
  prompt : UsageField := {}
  completion : UsageField := {}
  cached : UsageField := {}
  reasoning : UsageField := {}

structure UsageDelta where
  promptTokens : Option Int := none
  completionTokens : Option Int := none
  cachedPromptTokens : Option Int := none
  reasoningTokens : Option Int := none
  deriving DecidableEq

/-- `readField`. -/
def readField (container : JsonObject) (field : UsageField) : Option Int :=
  if field.name.isEmpty then none
  else if !field.object.isEmpty && !container.contains field.object then none
  else
    let scope :=
      if field.object.isEmpty then container else (container.value field.object).toObject
    if scope.contains field.name then some (scope.value field.name).toInt else none

/-- `parseUsage`. -/
def parseUsage (root : JsonObject) (schema : UsageSchema) : UsageDelta :=
  if !schema.container.isEmpty && !root.contains schema.container then {}
  else
    let container :=
      if schema.container.isEmpty then root else (root.value schema.container).toObject
    { promptTokens := readField container schema.prompt
      completionTokens := readField container schema.completion
      cachedPromptTokens := readField container schema.cached
      reasoningTokens := readField container schema.reasoning }

def UsageDelta.isEmpty (d : UsageDelta) : Bool := d = {}

/-- `applyTo`. -/
def UsageDelta.applyTo (d : UsageDelta) (base : TokenUsage) : TokenUsage where
  promptTokens := d.promptTokens.getD base.promptTokens
  completionTokens := d.completionTokens.getD base.completionTokens
  cachedPromptTokens := d.cachedPromptTokens.getD base.cachedPromptTokens
  reasoningTokens := d.reasoningTokens.getD base.reasoningTokens

/-- The addition of `finalizeTurn`. -/
def TokenUsage.add (a b : TokenUsage) : TokenUsage where
  promptTokens := a.promptTokens + b.promptTokens
  completionTokens := a.completionTokens + b.completionTokens
  cachedPromptTokens := a.cachedPromptTokens + b.cachedPromptTokens
  reasoningTokens := a.reasoningTokens + b.reasoningTokens

end LLMQore
