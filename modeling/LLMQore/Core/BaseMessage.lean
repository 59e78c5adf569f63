import Mathlib.Data.List.AList
import LLMQore.Core.ContentBlocks

/-!
# LLMQore.Core.BaseMessage

The message a turn of the model is collected in (`BaseMessage`), and what applying an
event to it asks of the client (`MessageEffects`).

A pointer `blockAt<T>(index)` through which a block is changed is a change of the block
at that index that leaves the other alternatives as they are (`TurnContent.onText` and
its siblings).
-/

namespace LLMQore

structure PendingThinkingNotification where
  thinking : String
  signature : String
  deriving DecidableEq

structure MessageEffects where
  chunk : String := ""
  fullText : String := ""
  fallbackText : String := ""
  usage : JsonObject := []
  error : Option JsonObject := none
  thinkingCompleted : Bool := false
  toolsReady : Bool := false

section Events

variable {M : Type} (apply : M → JsonObject → M × MessageEffects)

/-- Apply events to a message one after the other, and collect their chunks. -/
def applyEvents (m : M) : List JsonObject → M × String
  | [] => (m, "")
  | event :: rest =>
      let r := applyEvents (apply m event).1 rest
      (r.1, (apply m event).2.chunk ++ r.2)

theorem applyEvents_append (events events' : List JsonObject) : ∀ m : M,
    applyEvents apply m (events ++ events') =
      ((applyEvents apply (applyEvents apply m events).1 events').1,
        (applyEvents apply m events).2 ++
          (applyEvents apply (applyEvents apply m events).1 events').2) := by
  induction events with
  | nil =>
      intro m
      rw [List.nil_append, applyEvents, String.empty_append]
  | cons event rest ih =>
      intro m
      rw [List.cons_append, applyEvents, ih, applyEvents, String.append_assoc]

end Events

structure StopReasonMap where
  toolReasons : List String
  completeReasons : List String
  finalReasons : List String
  openReasons : List String
  fallback : MessageState := .complete
  toolsOverrideReason : Bool := false

namespace TurnContent

def onText (f : TextContent → TextContent) : TurnContent → TurnContent
  | .text c => .text (f c)
  | block => block

def onToolUse (f : ToolUseContent → ToolUseContent) : TurnContent → TurnContent
  | .toolUse c => .toolUse (f c)
  | block => block

def onThinking (f : ThinkingContent → ThinkingContent) : TurnContent → TurnContent
  | .thinking c => .thinking (f c)
  | block => block

def onRedactedThinking (f : RedactedThinkingContent → RedactedThinkingContent) :
    TurnContent → TurnContent
  | .redactedThinking c => .redactedThinking (f c)
  | block => block

def isText : TurnContent → Bool
  | .text _ => true
  | _ => false

def isThinking : TurnContent → Bool
  | .thinking _ => true
  | _ => false

def toolUse? : TurnContent → Option ToolUseContent
  | .toolUse c => some c
  | _ => none

theorem toolUse?_onText (f : TextContent → TextContent) (b : TurnContent) :
    (b.onText f).toolUse? = b.toolUse? := by cases b <;> rfl

theorem toolUse?_onThinking (f : ThinkingContent → ThinkingContent) (b : TurnContent) :
    (b.onThinking f).toolUse? = b.toolUse? := by cases b <;> rfl

/-- A change of a block that keeps a tool use a tool use. -/
def KeepsToolUse (f : TurnContent → TurnContent) : Prop :=
  ∀ block, (f block).toolUse?.isSome = block.toolUse?.isSome

theorem keepsToolUse_onText (f : TextContent → TextContent) : KeepsToolUse (onText f) :=
  fun block => by cases block <;> rfl

theorem keepsToolUse_onToolUse (f : ToolUseContent → ToolUseContent) :
    KeepsToolUse (onToolUse f) :=
  fun block => by cases block <;> rfl

theorem keepsToolUse_onThinking (f : ThinkingContent → ThinkingContent) :
    KeepsToolUse (onThinking f) :=
  fun block => by cases block <;> rfl

end TurnContent

/-- The state of a `BaseMessage`. -/
structure BaseMessage where
  state : MessageState := .building
  currentBlocks : List TurnContent := []
  stopReason : String := ""
  notifiedThinking : List Nat := []
  currentThinkingIndex : Option Nat := none

namespace BaseMessage

/-- The tool uses among some blocks. -/
def toolUses (blocks : List TurnContent) : List ToolUseContent :=
  blocks.filterMap TurnContent.toolUse?

def currentToolUseContent (m : BaseMessage) : List ToolUseContent := toolUses m.currentBlocks

/-- `addCurrentContent`: the index of the new block. -/
def addCurrentContent (m : BaseMessage) (content : TurnContent) : Nat × BaseMessage :=
  (m.currentBlocks.length, { m with currentBlocks := m.currentBlocks ++ [content] })

/-- Change the block at an index, if there is one. -/
def changeBlock (m : BaseMessage) (index : Nat) (f : TurnContent → TurnContent) : BaseMessage :=
  { m with currentBlocks := m.currentBlocks.modify index f }

/-- `lastIndexOfBlock<ThinkingContent>`. -/
def lastThinkingIndex (m : BaseMessage) : Option Nat :=
  ((List.range m.currentBlocks.length).filter fun i =>
    (m.currentBlocks[i]?.map TurnContent.isThinking).getD false).getLast?

/-- What `takePendingThinkingNotifications` announces of a block. -/
def pendingOf : TurnContent → Option PendingThinkingNotification
  | .thinking c =>
      if (Text.trimmed c.thinking).isEmpty then none else some ⟨c.thinking, c.signature⟩
  | .redactedThinking c => some ⟨"", c.signature⟩
  | _ => none

/-- The loop of `takePendingThinkingNotifications`, from block `i`. -/
def takePending (notified : List Nat) (i : Nat) :
    List TurnContent → List PendingThinkingNotification × List Nat
  | [] => ([], notified)
  | block :: rest =>
      match if i ∈ notified then none else pendingOf block with
      | none => takePending notified (i + 1) rest
      | some pending =>
          let r := takePending (i :: notified) (i + 1) rest
          (pending :: r.1, r.2)

def takePendingThinkingNotifications (m : BaseMessage) :
    List PendingThinkingNotification × BaseMessage :=
  let r := takePending m.notifiedThinking 0 m.currentBlocks
  (r.1, { m with notifiedThinking := r.2 })

/-- The loop of `removeBlocksIf`, from block `i` with `kept` blocks kept: the blocks that
stay, and for each its old index. -/
def keepBlocks (predicate : TurnContent → Bool) (i : Nat) :
    List TurnContent → List (Nat × TurnContent)
  | [] => []
  | block :: rest =>
      if predicate block then keepBlocks predicate (i + 1) rest
      else (i, block) :: keepBlocks predicate (i + 1) rest

def removeBlocksIf (m : BaseMessage) (predicate : TurnContent → Bool) : BaseMessage :=
  let kept := keepBlocks predicate 0 m.currentBlocks
  let olds := kept.map Prod.fst
  { m with
    currentBlocks := kept.map Prod.snd
    notifiedThinking :=
      (List.range olds.length).filter fun k => olds[k]?.any (· ∈ m.notifiedThinking)
    currentThinkingIndex := m.currentThinkingIndex.bind (olds.idxOf? ·) }

def clearBlocks (m : BaseMessage) : BaseMessage :=
  { m with currentBlocks := [], notifiedThinking := [], currentThinkingIndex := none }

/-- The part of `startNewContinuation` that concerns the base class. -/
def startNewContinuation (m : BaseMessage) : BaseMessage :=
  { m.clearBlocks with stopReason := "", state := .building }

def resolveState (m : BaseMessage) (reason : String) (map : StopReasonMap) : MessageState :=
  let hasToolCalls := !m.currentToolUseContent.isEmpty
  if hasToolCalls && (map.toolsOverrideReason || map.toolReasons.contains reason) then
    .requiresToolExecution
  else if map.completeReasons.contains reason then .complete
  else if map.finalReasons.contains reason then .final
  else if map.openReasons.contains reason then .building
  else map.fallback

def recordStopReason (m : BaseMessage) (reason : String) (map : StopReasonMap) : BaseMessage :=
  { m with stopReason := reason, state := m.resolveState reason map }

/-- The index of the first block of a kind. -/
def indexOfBlock (m : BaseMessage) (kind : TurnContent → Bool) : Option Nat :=
  m.currentBlocks.findIdx? kind

/-- `ensureThinkingContentIndex`. -/
def ensureThinkingContentIndex (m : BaseMessage) : Nat × BaseMessage :=
  match m.currentThinkingIndex.filter fun i => m.currentBlocks[i]?.any TurnContent.isThinking with
  | some index => (index, m)
  | none =>
      match m.indexOfBlock TurnContent.isThinking with
      | some index => (index, { m with currentThinkingIndex := some index })
      | none =>
          let (index, m) := m.addCurrentContent (.thinking {})
          (index, { m with currentThinkingIndex := some index })

/-- `ensureTextContentIndex`. -/
def ensureTextContentIndex (m : BaseMessage) : Nat × BaseMessage :=
  match m.indexOfBlock TurnContent.isText with
  | some index => (index, m)
  | none => m.addCurrentContent (.text ⟨""⟩)

/-- Put `text` in place of what the text block holds. -/
def setText (m : BaseMessage) (f : String → String) : BaseMessage :=
  let (index, m) := m.ensureTextContentIndex
  m.changeBlock index (.onText fun c => ⟨f c.text⟩)

def appendTextDelta (m : BaseMessage) (delta : String) : BaseMessage :=
  m.setText (· ++ delta)

/-- Append to the thinking block `ensureThinkingContentIndex` finds or makes. -/
def appendThinkingDelta (m : BaseMessage) (delta : String) : BaseMessage :=
  let (index, m) := m.ensureThinkingContentIndex
  m.changeBlock index (.onThinking fun c => { c with thinking := c.thinking ++ delta })

end BaseMessage

/-- `BaseMessage::parseToolArguments`. -/
def parseToolArguments (codec : JsonCodec) (json : String) : JsonObject :=
  if json.isEmpty then [] else (codec.fromJson (Bytes.ofString json)).toObject

/-- `BaseMessage::ToolCallAccumulator`. -/
structure ToolCallAccumulator (Key : Type) [DecidableEq Key] where
  blockIndex : AList (fun _ : Key => Nat) := ∅
  pending : AList (fun _ : Key => String) := ∅

namespace ToolCallAccumulator

variable {Key : Type} [DecidableEq Key]

def start (a : ToolCallAccumulator Key) (key : Key) (index : Nat) : ToolCallAccumulator Key where
  blockIndex := a.blockIndex.insert key index
  pending := a.pending.insert key ""

def delta (a : ToolCallAccumulator Key) (key : Key) (fragment : String) :
    ToolCallAccumulator Key :=
  match a.pending.lookup key with
  | some json => { a with pending := a.pending.insert key (json ++ fragment) }
  | none => a

@[simp] theorem blockIndex_delta (a : ToolCallAccumulator Key) (key : Key) (fragment : String) :
    (a.delta key fragment).blockIndex = a.blockIndex := by
  unfold delta
  split <;> rfl

theorem lookup_pending_delta (a : ToolCallAccumulator Key) (key k : Key) (fragment : String) :
    (a.delta key fragment).pending.lookup k =
      if k = key then (a.pending.lookup k).map (· ++ fragment) else a.pending.lookup k := by
  unfold delta
  split
  · rename_i json hjson
    by_cases hk : k = key
    · subst hk
      simp [hjson]
    · rw [if_neg hk, AList.lookup_insert_ne hk]
  · rename_i hnone
    by_cases hk : k = key
    · subst hk
      simp [hnone]
    · rw [if_neg hk]

/-- `BaseMessage::completeToolCall`. -/
def complete (codec : JsonCodec) (a : ToolCallAccumulator Key) (m : BaseMessage) (key : Key)
    (finalArguments : String) : ToolCallAccumulator Key × BaseMessage :=
  match a.pending.lookup key with
  | none => (a, m)
  | some collected =>
      let json := if finalArguments.isEmpty then collected else finalArguments
      let closed : ToolCallAccumulator Key :=
        { blockIndex := a.blockIndex.erase key, pending := a.pending.erase key }
      if json.isEmpty then (closed, m)
      else
        match a.blockIndex.lookup key with
        | none => (closed, m)
        | some index =>
            (closed, m.changeBlock index
              (.onToolUse fun c => { c with input := parseToolArguments codec json }))

/-- `BaseMessage::completeAllToolCalls`. -/
def completeAll (codec : JsonCodec) (a : ToolCallAccumulator Key) (m : BaseMessage) :
    ToolCallAccumulator Key × BaseMessage :=
  a.pending.keys.foldl (fun r key => r.1.complete codec r.2 key "") (a, m)

end ToolCallAccumulator

/-! ### Rendering tool results -/

/-- `BaseMessage::mapToolResults`: what is emitted for each tool use that has a result. -/
def mapToolResults (blocks : List TurnContent) (toolResults : AList (fun _ : String => ToolResult))
    (emitFor : ToolUseContent → ToolResult → JsonObject) : List JsonValue :=
  (BaseMessage.toolUses blocks).filterMap fun use =>
    (toolResults.lookup use.id).map fun result => .obj (emitFor use result)

/-- The mime type a note about a block names. -/
def mimeTypeOr (mimeType default : String) : String :=
  if mimeType.isEmpty then default else mimeType

/-- `renderToolContent` with an image renderer. -/
def renderToolContent (textType : String) (renderImage : ImageContent → JsonObject) :
    ToolContent → JsonObject
  | .text c => asText c.text
  | .image c => renderImage c
  | .audio c => asText ("[audio: " ++ mimeTypeOr c.mimeType "unknown" ++ "]")
  | .resource c =>
      if !c.isBlob && !c.text.isEmpty then asText c.text
      else asText ("[resource: " ++ c.uri ++ "]")
  | .resourceLink c => asText ("[resource link: " ++ c.uri ++ "]")
where
  asText (text : String) : JsonObject := .ofFields [("type", .str textType), ("text", .str text)]

/-! ### The tool uses of a message

A message that waits for tools has a tool use, whatever stop reason it was given. -/

namespace BaseMessage

theorem toolUses_append (xs ys : List TurnContent) :
    toolUses (xs ++ ys) = toolUses xs ++ toolUses ys := List.filterMap_append

/-- A change that leaves every tool use as it is. -/
theorem toolUses_modify {f : TurnContent → TurnContent} (hf : ∀ b, (f b).toolUse? = b.toolUse?)
    (blocks : List TurnContent) (index : Nat) :
    toolUses (blocks.modify index f) = toolUses blocks := by
  induction blocks generalizing index with
  | nil => simp
  | cons b rest ih =>
      cases index with
      | zero => simp [toolUses, List.filterMap_cons, hf]
      | succ index =>
          have hrest := ih index
          simp only [toolUses] at hrest
          simp [toolUses, List.filterMap_cons, hrest]

theorem currentToolUseContent_addCurrentContent (m : BaseMessage) {content : TurnContent}
    (h : content.toolUse? = none) :
    (m.addCurrentContent content).2.currentToolUseContent = m.currentToolUseContent := by
  simp [addCurrentContent, currentToolUseContent, toolUses, List.filterMap_append, h]

theorem currentToolUseContent_setText (m : BaseMessage) (f : String → String) :
    (m.setText f).currentToolUseContent = m.currentToolUseContent := by
  have hensure : m.ensureTextContentIndex.2.currentToolUseContent = m.currentToolUseContent := by
    unfold ensureTextContentIndex
    split
    · rfl
    · exact currentToolUseContent_addCurrentContent m rfl
  exact (toolUses_modify (TurnContent.toolUse?_onText _) _ _).trans hensure

theorem currentToolUseContent_appendThinkingDelta (m : BaseMessage) (delta : String) :
    (m.appendThinkingDelta delta).currentToolUseContent = m.currentToolUseContent := by
  have hensure : m.ensureThinkingContentIndex.2.currentToolUseContent =
      m.currentToolUseContent := by
    unfold ensureThinkingContentIndex
    split
    · rfl
    · split
      · rfl
      · exact currentToolUseContent_addCurrentContent m rfl
  exact (toolUses_modify (TurnContent.toolUse?_onThinking _) _ _).trans hensure

theorem toolUses_keepBlocks {predicate : TurnContent → Bool}
    (h : ∀ b, predicate b = true → b.toolUse? = none) (blocks : List TurnContent) (i : Nat) :
    toolUses ((keepBlocks predicate i blocks).map Prod.snd) = toolUses blocks := by
  induction blocks generalizing i with
  | nil => rfl
  | cons b rest ih =>
      have hrest := ih (i + 1)
      simp only [toolUses] at hrest
      unfold keepBlocks
      split
      · rename_i hb
        simp [toolUses, h b hb, hrest]
      · simp [toolUses, List.filterMap_cons, hrest]

theorem toolUses_ne_nil_iff {blocks : List TurnContent} :
    toolUses blocks ≠ [] ↔ ∃ block ∈ blocks, block.toolUse?.isSome := by
  unfold toolUses
  rw [Ne, List.filterMap_eq_nil_iff]
  push Not
  exact exists_congr fun block => and_congr_right fun _ => by
    rw [Option.isSome_iff_ne_none]

/-- A stop reason leads to tools only where there is a tool use. -/
theorem uses_of_recordStopReason (m : BaseMessage) (reason : String) {map : StopReasonMap}
    (hc : map.fallback ≠ .requiresToolExecution)
    (hs : (m.recordStopReason reason map).state = .requiresToolExecution) :
    m.currentToolUseContent ≠ [] := by
  unfold recordStopReason resolveState at hs
  simp only at hs
  split at hs
  · rename_i h
    have hne : m.currentToolUseContent ≠ [] := by
      simp only [Bool.and_eq_true, Bool.not_eq_true', List.isEmpty_eq_false_iff] at h
      exact h.1
    exact hne
  · split at hs
    · cases hs
    · split at hs
      · cases hs
      · split at hs
        · cases hs
        · exact absurd hs hc

end BaseMessage

end LLMQore
