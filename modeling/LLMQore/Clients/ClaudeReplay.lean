import LLMQore.Clients.Claude
import LLMQore.Core.ConversationJson

/-!
# LLMQore.Clients.ClaudeReplay

What the Messages API is sent of a turn it answered with.

A block of the answer becomes a block of the message and, when the turn is replayed, a block
of the request. The opaque payload of a block of redacted thinking is looked for under the name
a signature has, and a thinking block is written without a signature that is empty.
-/

namespace LLMQore

/-- A content block of an answer, in the shapes of the Messages API; the opaque payload of one of
redacted thinking is `data`. -/
inductive ReceivedBlock where
  | text (text : String)
  | thinking (thinking signature : String)
  | redactedThinking (data : String)
  | toolUse (id name : String) (input : JsonObject)

namespace ReceivedBlock

/-- The block as it is received. -/
def toJson : ReceivedBlock → JsonObject
  | .text t => .ofFields [("type", .str "text"), ("text", .str t)]
  | .thinking t s =>
      .ofFields [("type", .str "thinking"), ("thinking", .str t), ("signature", .str s)]
  | .redactedThinking data => .ofFields [("type", .str "redacted_thinking"), ("data", .str data)]
  | .toolUse id name input =>
      .ofFields [("type", .str "tool_use"), ("id", .str id), ("name", .str name),
        ("input", .obj input)]

/-- The block of the message it becomes. -/
def content : ReceivedBlock → TurnContent
  | .text t => .text ⟨t⟩
  | .thinking t s => .thinking { thinking := t, signature := s }
  | .redactedThinking _ => .redactedThinking {}
  | .toolUse id name input => .toolUse ⟨id, name, input⟩

/-- Is the block written as it is received? -/
def Verbatim : ReceivedBlock → Prop
  | .text _ => True
  | .thinking _ s => s ≠ ""
  | .redactedThinking _ => False
  | .toolUse _ _ _ => True

theorem serialize_content (block : ReceivedBlock) :
    ClaudeMessage.serializeTurnContent block.content = block.toJson ↔ block.Verbatim := by
  cases block with
  | text t => exact iff_of_true rfl trivial
  | thinking t s =>
      by_cases h : s = ""
      · subst h
        refine iff_of_false (fun heq => ?_) fun hne => hne rfl
        have hsignature := congrArg (·.value "signature") heq
        simp [ClaudeMessage.serializeTurnContent, content, ClaudeMessage.signed, toJson,
          JsonObject.ofFields, JsonObject.value_insert] at hsignature
      · refine iff_of_true ?_ h
        simp only [ClaudeMessage.serializeTurnContent, content, ClaudeMessage.signed,
          String.isEmpty_iff, h]
        rfl
  | redactedThinking data =>
      refine iff_of_false (fun heq => ?_) id
      have hdata := congrArg (·.value "data") heq
      simp [ClaudeMessage.serializeTurnContent, content, ClaudeMessage.signed, toJson,
        JsonObject.ofFields, JsonObject.value_insert] at hdata
  | toolUse id name input => exact iff_of_true rfl trivial

end ReceivedBlock

namespace ClaudeMessage

variable (codec : JsonCodec)

/-- No arguments were collected for the tool uses that are open. -/
def NoArguments (m : ClaudeMessage) : Prop :=
  ∀ index json, m.toolCalls.pending.lookup index = some json → json = ""

theorem noArguments_empty : ({} : ClaudeMessage).NoArguments := fun _ _ h => absurd h nofun

/-- What a block is taken for. -/
theorem beginBlock_eq (m : ClaudeMessage) (index : Int) (block : ReceivedBlock) :
    m.beginBlock index block.toJson =
      match block with
      | .toolUse _ _ _ =>
          { m.placeBlock index block.content with
            toolCalls := m.toolCalls.start index m.currentBlocks.length }
      | _ => m.placeBlock index block.content := by
  cases block <;>
    simp [beginBlock, ReceivedBlock.toJson, ReceivedBlock.content, JsonObject.ofFields,
      JsonObject.value_insert, placeBlock]

/-- A block begins: it is the last of the message. -/
theorem beginBlock_received {m : ClaudeMessage} (hm : m.NoArguments) (index : Int)
    (block : ReceivedBlock) :
    (m.beginBlock index block.toJson).currentBlocks = m.currentBlocks ++ [block.content] ∧
      (m.beginBlock index block.toJson).NoArguments := by
  rw [beginBlock_eq]
  cases block with
  | toolUse id name input =>
      refine ⟨rfl, fun k json h => ?_⟩
      have h : (m.toolCalls.pending.insert index "").lookup k = some json := h
      by_cases hk : k = index
      · subst hk
        rw [AList.lookup_insert] at h
        exact (Option.some.inj h).symm
      · rw [AList.lookup_insert_ne hk] at h
        exact hm k json h
  | _ => exact ⟨rfl, hm⟩

/-- A block ends: its arguments are those it came with. -/
theorem endBlock_noArguments {m : ClaudeMessage} (hm : m.NoArguments) (index : Int) :
    (m.endBlock codec index).currentBlocks = m.currentBlocks ∧
      (m.endBlock codec index).NoArguments := by
  cases hjson : m.toolCalls.pending.lookup index with
  | none =>
      have hend : m.endBlock codec index = m := by
        simp [endBlock, ToolCallAccumulator.complete, hjson]
      rw [hend]
      exact ⟨rfl, hm⟩
  | some json =>
      obtain rfl := hm index json hjson
      have hend : m.endBlock codec index =
          { m with toolCalls := ⟨m.toolCalls.blockIndex.erase index,
              m.toolCalls.pending.erase index⟩ } := by
        simp [endBlock, ToolCallAccumulator.complete, hjson]
      rw [hend]
      refine ⟨rfl, fun k json h => ?_⟩
      have h : (m.toolCalls.pending.erase index).lookup k = some json := h
      by_cases hk : k = index
      · subst hk
        rw [AList.lookup_erase] at h
        cases h
      · rw [AList.lookup_erase_ne hk] at h
        exact hm k json h

/-- The loop of `applyResponse` makes a block of each it receives. -/
theorem applyBlocks_received (blocks : List ReceivedBlock) :
    ∀ (r : ClaudeMessage × MessageEffects) (index : Nat), r.1.NoArguments →
      (applyBlocks codec r index (blocks.map fun block => .obj block.toJson)).1.currentBlocks =
        r.1.currentBlocks ++ blocks.map ReceivedBlock.content := by
  induction blocks with
  | nil =>
      intro r index _
      exact (List.append_nil _).symm
  | cons block rest ih =>
      intro r index hr
      obtain ⟨hbegun, hopen⟩ := beginBlock_received hr index block
      obtain ⟨hended, hclosed⟩ := endBlock_noArguments codec hopen index
      have hrest := ih (applyBlock codec r index block.toJson) (index + 1) hclosed
      refine hrest.trans ?_
      show ((r.1.beginBlock index block.toJson).endBlock codec index).currentBlocks ++ _ = _
      rw [hended, hbegun, List.append_assoc]
      rfl

theorem applyResponse_received (m : ClaudeMessage) {response : JsonObject}
    {blocks : List ReceivedBlock}
    (hcontent : response.value "content" = .arr (blocks.map fun block => .obj block.toJson)) :
    (m.applyResponse codec response).1.currentBlocks = blocks.map ReceivedBlock.content := by
  have hloop := applyBlocks_received codec blocks (m.startNewContinuation, {}) 0 noArguments_empty
  unfold applyResponse
  rw [hcontent]
  dsimp only [JsonValue.toArray]
  split
  · exact hloop
  · exact hloop

/-- The content the message is sent back with. -/
theorem toProviderFormat_received (m : ClaudeMessage) {response : JsonObject}
    {blocks : List ReceivedBlock}
    (hcontent : response.value "content" = .arr (blocks.map fun block => .obj block.toJson)) :
    (m.applyResponse codec response).1.toProviderFormat.value "content" =
      .arr (serializeBlocks (blocks.map ReceivedBlock.content)) := by
  rw [toProviderFormat, applyResponse_received codec m hcontent, JsonObject.ofFields,
    List.foldl_cons, List.foldl_cons, List.foldl_nil, JsonObject.value_insert_arr]

/-- Blocks are written as they are received where each of them is. -/
theorem serializeBlocks_received (blocks : List ReceivedBlock) :
    serializeBlocks (blocks.map ReceivedBlock.content) =
      (blocks.map fun block => .obj block.toJson) ↔ ∀ block ∈ blocks, block.Verbatim := by
  unfold serializeBlocks
  rw [List.map_map, List.map_inj_left]
  refine forall₂_congr fun block _ => ?_
  rw [← ReceivedBlock.serialize_content]
  exact ⟨JsonValue.obj.inj, congrArg _⟩

end ClaudeMessage

/-- A turn the Messages API answered with is sent back verbatim, and still is after it went through
a conversation and its JSON form, if and only if it has no block of redacted thinking and no
thinking block without a signature. -/
theorem claude_replayed_verbatim (codec : JsonCodec) (m : ClaudeMessage) {response : JsonObject}
    {blocks : List ReceivedBlock}
    (hcontent : response.value "content" = .arr (blocks.map fun block => .obj block.toJson)) :
    ((m.applyResponse codec response).1.toProviderFormat.value "content" =
        response.value "content" ∧
      ∀ conversation : Conversation,
        ClaudeClient.messages (Conversation.fromJson (conversation.addAssistant
          (m.applyResponse codec response).1.currentBlocks).toJson) =
        ClaudeClient.messages conversation ++
          [.obj (JsonObject.ofFields
            [("role", .str "assistant"), ("content", response.value "content")])]) ↔
      ∀ block ∈ blocks, block.Verbatim := by
  have hblocks := ClaudeMessage.applyResponse_received codec m hcontent
  rw [ClaudeMessage.toProviderFormat_received codec m hcontent, hcontent,
    ← ClaudeMessage.serializeBlocks_received]
  refine ⟨fun h => JsonValue.arr.inj h.1, fun h => ⟨congrArg _ h, fun conversation => ?_⟩⟩
  rw [Conversation.fromJson_toJson, hblocks, ClaudeClient.messages, Conversation.addAssistant_turns,
    List.map_append]
  simp only [List.map_cons, List.map_nil, ClaudeClient.turnMessage, h]
  rfl

/-- An answer with these blocks. -/
def answerOf (blocks : List ReceivedBlock) : JsonObject :=
  JsonObject.ofFields [("content", .arr (blocks.map fun block => .obj block.toJson))]

theorem content_answerOf (blocks : List ReceivedBlock) :
    (answerOf blocks).value "content" = .arr (blocks.map fun block => .obj block.toJson) :=
  JsonObject.value_insert_arr _ _ _

/-- A codec that reads nothing. -/
def readsNothing : JsonCodec := ⟨fun _ => .null, fun _ => ""⟩

/-- Thinking, a text and a tool use. -/
def signedTurn : List ReceivedBlock :=
  [.thinking "It rains." "EqQB", .text "Let me look.", .toolUse "toolu_1" "weather" []]

theorem claude_replayed_verbatim_signed :
    (ClaudeMessage.applyResponse readsNothing {} (answerOf signedTurn)).1.toProviderFormat.value
      "content" = (answerOf signedTurn).value "content" := by
  have hverbatim : ∀ block ∈ signedTurn, block.Verbatim := by
    intro block hblock
    simp only [signedTurn, List.mem_cons, List.not_mem_nil, or_false] at hblock
    rcases hblock with rfl | rfl | rfl
    · exact nofun
    · trivial
    · trivial
  exact ((claude_replayed_verbatim readsNothing {} (content_answerOf signedTurn)).mpr hverbatim).1

/-- The payload of a block of redacted thinking is lost. -/
theorem claude_replayed_verbatim_redacted :
    (ClaudeMessage.applyResponse readsNothing {}
      (answerOf [.redactedThinking "EmwKAhgB"])).1.toProviderFormat.value "content" ≠
        (answerOf [.redactedThinking "EmwKAhgB"]).value "content" := by
  rw [ClaudeMessage.toProviderFormat_received readsNothing {} (content_answerOf _),
    content_answerOf]
  intro h
  have hverbatim := (ClaudeMessage.serializeBlocks_received _).mp (JsonValue.arr.inj h)
  exact hverbatim _ List.mem_cons_self

end LLMQore
