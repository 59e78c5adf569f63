import LLMQore.Core.ContentBlocks

/-!
# LLMQore.Core.Conversation

A conversation as the library tracks it (`Conversation`): typed turns under a system
prompt.
-/

namespace LLMQore

inductive TurnRole where
  | user | assistant | tool
  deriving DecidableEq

structure Turn where
  role : TurnRole := .user
  content : List TurnContent := []
  deriving DecidableEq

structure Conversation where
  system : String := ""
  turns : List Turn := []
  deriving DecidableEq

namespace Conversation

/-- `addAssistant` of a text. -/
def addAssistantText (c : Conversation) (text : String) : Conversation :=
  { c with turns := c.turns ++ [⟨.assistant, [.text ⟨text⟩]⟩] }

def addAssistant (c : Conversation) (content : List TurnContent) : Conversation :=
  { c with turns := c.turns ++ [⟨.assistant, content⟩] }

def addToolResults (c : Conversation) (results : List ToolResultContent) : Conversation :=
  if results.isEmpty then c
  else { c with turns := c.turns ++ [⟨.tool, results.map .toolResult⟩] }

@[simp] theorem addAssistant_turns (c : Conversation) (content : List TurnContent) :
    (c.addAssistant content).turns = c.turns ++ [⟨.assistant, content⟩] := rfl

@[simp] theorem addAssistant_system (c : Conversation) (content : List TurnContent) :
    (c.addAssistant content).system = c.system := rfl

@[simp] theorem addToolResults_nil (c : Conversation) : c.addToolResults [] = c := rfl

theorem addToolResults_turns (c : Conversation) {results : List ToolResultContent}
    (h : results ≠ []) :
    (c.addToolResults results).turns = c.turns ++ [⟨.tool, results.map .toolResult⟩] := by
  rw [addToolResults, if_neg (by simpa using h)]

@[simp] theorem addToolResults_system (c : Conversation) (results : List ToolResultContent) :
    (c.addToolResults results).system = c.system := by
  unfold addToolResults
  split <;> rfl

end Conversation

end LLMQore
