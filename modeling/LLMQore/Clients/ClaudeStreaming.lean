import LLMQore.Clients.Claude
import LLMQore.Streaming.Lanes

/-!
# LLMQore.Clients.ClaudeStreaming

Streaming and buffered answers of Claude agree.

A streamed answer opens its blocks in order; the deltas of the blocks come in any order.
What an event does is local to its block: it reads and changes the block, its position and
the tool call that is open under its index. So a block is what its own events make of it
(`lane_view`), and that is the block the buffered answer has.

Only the text the client emits meanwhile depends on the order between blocks.
-/

namespace LLMQore

open Network Tools Streaming

/-! ### Answers -/

/-- A block of an answer. -/
inductive ClaudeBlock where
  | text (text : String)
  | thinking (thinking signature : String)
  | redactedThinking (signature : String)
  | toolUse (id name : String) (input : JsonObject)

namespace ClaudeBlock

/-- The block as the message holds it. -/
def content : ClaudeBlock → TurnContent
  | .text t => .text ⟨t⟩
  | .thinking t s => .thinking { thinking := t, signature := s }
  | .redactedThinking s => .redactedThinking ⟨s⟩
  | .toolUse id name input => .toolUse ⟨id, name, input⟩

/-- The block in a buffered answer. -/
def toJson : ClaudeBlock → JsonObject
  | .text t => JsonObject.ofFields [("type", .str "text"), ("text", .str t)]
  | .thinking t s => JsonObject.ofFields
      [("type", .str "thinking"), ("thinking", .str t), ("signature", .str s)]
  | .redactedThinking s => JsonObject.ofFields
      [("type", .str "redacted_thinking"), ("signature", .str s)]
  | .toolUse id name input => JsonObject.ofFields
      [("type", .str "tool_use"), ("id", .str id), ("name", .str name), ("input", .obj input)]

/-- The block as it is when it is opened in a streamed answer. -/
def opened : ClaudeBlock → ClaudeBlock
  | .text _ => .text ""
  | .thinking _ _ => .thinking "" ""
  | .redactedThinking _ => .redactedThinking ""
  | .toolUse id name _ => .toolUse id name []

/-- The text of a block. -/
def textOf : ClaudeBlock → String
  | .text t => t
  | _ => ""

def isToolUse : ClaudeBlock → Bool
  | .toolUse .. => true
  | _ => false

end ClaudeBlock

/-- A delta of a block. -/
inductive BlockDelta where
  | text (fragment : String)
  | thinking (fragment : String)
  | inputJson (fragment : String)
  | signature (signature : String)
  deriving DecidableEq

namespace BlockDelta

def type : BlockDelta → String
  | .text _ => "text_delta"
  | .thinking _ => "thinking_delta"
  | .inputJson _ => "input_json_delta"
  | .signature _ => "signature_delta"

def toJson : BlockDelta → JsonObject
  | .text fragment => JsonObject.ofFields [("type", .str "text_delta"), ("text", .str fragment)]
  | .thinking fragment => JsonObject.ofFields
      [("type", .str "thinking_delta"), ("thinking", .str fragment)]
  | .inputJson fragment => JsonObject.ofFields
      [("type", .str "input_json_delta"), ("partial_json", .str fragment)]
  | .signature s => JsonObject.ofFields
      [("type", .str "signature_delta"), ("signature", .str s)]

end BlockDelta

/-- The deltas of a block: each text of it is cut into fragments, and its signature comes in
one delta, or in none if it is empty. -/
inductive ClaudeBlock.Streams (codec : JsonCodec) : ClaudeBlock → List BlockDelta → Prop
  | text (fragments : List String) :
      Streams codec (.text (String.join fragments)) (fragments.map .text)
  | thinking (before after : List String) (signature : String) :
      Streams codec (.thinking (String.join (before ++ after)) signature)
        (before.map .thinking ++ .signature signature :: after.map .thinking)
  | unsigned (fragments : List String) :
      Streams codec (.thinking (String.join fragments) "") (fragments.map .thinking)
  | redacted (signature : String) :
      Streams codec (.redactedThinking signature) [.signature signature]
  | redactedUnsigned : Streams codec (.redactedThinking "") []
  | toolUse (id name : String) (fragments : List String) :
      Streams codec (.toolUse id name (parseToolArguments codec (String.join fragments)))
        (fragments.map .inputJson)

/-- An input that reads back from its text streams in fragments of the text. -/
theorem ClaudeBlock.streams_printed {codec : JsonCodec} {input : JsonObject}
    (hread : codec.fromJson (Bytes.ofString (codec.toJson input)) = .object input)
    (hne : codec.toJson input ≠ "") (id name : String) {fragments : List String}
    (h : String.join fragments = codec.toJson input) :
    (ClaudeBlock.toolUse id name input).Streams codec (fragments.map .inputJson) := by
  have hparse : parseToolArguments codec (String.join fragments) = input := by
    rw [h, parseToolArguments, if_neg (by simpa using hne), hread]
    rfl
  have hstreams := @Streams.toolUse codec id name fragments
  rwa [hparse] at hstreams

/-- An event of a block. -/
inductive BlockStep where
  | start
  | delta (d : BlockDelta)
  | stop
  deriving DecidableEq

/-- The events of a streamed answer but the first and the last, each with the index of its
block. -/
structure ClaudeStream (codec : JsonCodec) (blocks : List ClaudeBlock)
    (steps : List (Nat × BlockStep)) : Prop where
  /-- The blocks are opened in order. -/
  starts : (steps.filter fun s => s.2 = .start).map Prod.fst = List.range blocks.length
  /-- The events of each block. -/
  lanes : ∀ i block, blocks[i]? = some block → ∃ deltas, block.Streams codec deltas ∧
    lane i steps = .start :: (deltas.map .delta ++ [.stop])
  /-- There are no others. -/
  known : ∀ s ∈ steps, s.1 < blocks.length
  /-- An index is an `int`. -/
  fits : blocks.length < 2 ^ 31

/-- The event of a step. -/
def stepEvent (blocks : List ClaudeBlock) : Nat × BlockStep → JsonObject
  | (i, .start) => JsonObject.ofFields [("type", .str "content_block_start"), ("index", .num i),
      ("content_block", .obj ((blocks[i]?.map fun block => block.opened.toJson).getD []))]
  | (i, .delta d) => JsonObject.ofFields
      [("type", .str "content_block_delta"), ("index", .num i), ("delta", .obj d.toJson)]
  | (i, .stop) => JsonObject.ofFields [("type", .str "content_block_stop"), ("index", .num i)]

def messageStart (message : JsonObject) : JsonObject :=
  JsonObject.ofFields [("type", .str "message_start"), ("message", .obj message)]

def messageDelta (stopReason : String) (usage : JsonObject) : JsonObject :=
  JsonObject.ofFields [("type", .str "message_delta"),
    ("delta", .obj (JsonObject.ofFields [("stop_reason", .str stopReason)])),
    ("usage", .obj usage)]

/-- The events of a streamed answer. -/
def streamedAnswer (blocks : List ClaudeBlock) (steps : List (Nat × BlockStep))
    (message : JsonObject) (stopReason : String) (usage : JsonObject) : List JsonObject :=
  messageStart message :: (steps.map (stepEvent blocks) ++ [messageDelta stopReason usage])

/-- The body of a buffered answer. -/
def bufferedAnswer (blocks : List ClaudeBlock) (stopReason : String) (usage : JsonObject) :
    JsonObject :=
  JsonObject.ofFields [("type", .str "message"),
    ("content", .arr (blocks.map fun block => .obj block.toJson)),
    ("stop_reason", .str stopReason), ("usage", .obj usage)]

/-! ### Reading the events -/

/-- What an event of a block does. -/
def ClaudeMessage.takeStep (codec : JsonCodec) (blocks : List ClaudeBlock) (m : ClaudeMessage)
    (s : Nat × BlockStep) : ClaudeMessage :=
  match s.2 with
  | .start => m.beginBlock s.1 ((blocks[s.1]?.map fun block => block.opened.toJson).getD [])
  | .delta d => m.applyDelta s.1 d.type d.toJson
  | .stop => m.endBlock codec s.1

/-- The chunk of an event of a block. -/
def stepChunk : BlockStep → String
  | .delta (.text fragment) => fragment
  | _ => ""

theorem toInt_index {i : Nat} (h : i < 2 ^ 31) : (JsonValue.num (i : Rat)).toInt = i := by
  have hfits : ((i : Rat)).den = 1 ∧ -2 ^ 31 ≤ ((i : Rat)).num ∧ ((i : Rat)).num < 2 ^ 31 := by
    rw [Rat.den_natCast, Rat.num_natCast]
    omega
  rw [JsonValue.toInt, if_pos hfits, Rat.num_natCast]

theorem applyEvent_step (codec : JsonCodec) (blocks : List ClaudeBlock) (m : ClaudeMessage)
    {s : Nat × BlockStep} (h : s.1 < 2 ^ 31) :
    (m.applyEvent codec (stepEvent blocks s)).1 = m.takeStep codec blocks s ∧
      (m.applyEvent codec (stepEvent blocks s)).2.chunk = stepChunk s.2 := by
  have hint := toInt_index h
  obtain ⟨i, step⟩ := s
  cases step with
  | start =>
      simp [ClaudeMessage.applyEvent, stepEvent, JsonObject.ofFields, JsonObject.value_insert,
        ClaudeMessage.takeStep, stepChunk, hint]
  | delta d =>
      cases d <;> simp [ClaudeMessage.applyEvent, stepEvent, JsonObject.ofFields,
        JsonObject.value_insert, ClaudeMessage.takeStep, stepChunk, hint, BlockDelta.toJson,
        BlockDelta.type]
  | stop =>
      simp [ClaudeMessage.applyEvent, stepEvent, JsonObject.ofFields, JsonObject.value_insert,
        ClaudeMessage.takeStep, stepChunk, hint]

/-- A block is opened at the end of the message, with a tool call if it is a tool use. -/
theorem beginBlock_toJson (m : ClaudeMessage) (index : Int) (block : ClaudeBlock) :
    m.beginBlock index block.toJson =
      if block.isToolUse then
        { m.placeBlock index block.content with
          toolCalls := m.toolCalls.start index m.currentBlocks.length }
      else m.placeBlock index block.content := by
  cases block <;>
    simp [ClaudeMessage.beginBlock, ClaudeBlock.toJson, ClaudeBlock.content, JsonObject.ofFields,
      JsonObject.value_insert, ClaudeBlock.isToolUse, ClaudeMessage.placeBlock]

/-! ### The message, seen at a block -/

/-- What a message holds of a block: the block, its position, and what is collected of the
input of its tool call. -/
structure BlockView where
  block : Option TurnContent := none
  position : Option Nat := none
  pending : Option String := none
  toolCall : Option Nat := none

def ClaudeMessage.blockView (m : ClaudeMessage) (i : Nat) : BlockView where
  block := m.currentBlocks[i]?
  position := m.blockPositions.lookup (i : Int)
  pending := m.toolCalls.pending.lookup (i : Int)
  toolCall := m.toolCalls.blockIndex.lookup (i : Int)

/-- What a delta makes of a block. -/
def BlockDelta.change : BlockDelta → TurnContent → TurnContent
  | .text fragment => .onText fun c => ⟨c.text ++ fragment⟩
  | .thinking fragment => .onThinking fun c => { c with thinking := c.thinking ++ fragment }
  | .signature s => fun block =>
      (block.onThinking fun c => { c with signature := s }).onRedactedThinking fun _ => ⟨s⟩
  | .inputJson _ => id

/-- What a delta adds to the input of a tool call. -/
def BlockDelta.inputFragment : BlockDelta → String
  | .inputJson fragment => fragment
  | _ => ""

/-- What the events of a block make of what is seen of it. -/
def BlockView.take (codec : JsonCodec) (blocks : List ClaudeBlock) (i : Nat) (v : BlockView) :
    BlockStep → BlockView
  | .start =>
      match blocks[i]? with
      | none => v
      | some block =>
          { block := some block.opened.content
            position := some i
            pending := if block.isToolUse then some "" else v.pending
            toolCall := if block.isToolUse then some i else v.toolCall }
  | .delta d =>
      if v.position.isSome then
        { v with
          block := v.block.map d.change
          pending := v.pending.map (· ++ d.inputFragment) }
      else v
  | .stop =>
      match v.pending with
      | none => v
      | some json =>
          { v with
            pending := none
            toolCall := none
            block :=
              if !json.isEmpty && v.toolCall.isSome then
                v.block.map (.onToolUse fun c => { c with input := parseToolArguments codec json })
              else v.block }

/-- What is kept under an index is the index itself. -/
def AtIndex (positions : AList (fun _ : Int => Nat)) : Prop :=
  ∀ key p, positions.lookup key = some p → (p : Int) = key

theorem AtIndex.insert {positions : AList (fun _ : Int => Nat)} (h : AtIndex positions) (i : Nat) :
    AtIndex (positions.insert (i : Int) i) := by
  intro key p hp
  by_cases hk : key = i
  · subst hk
    rw [AList.lookup_insert] at hp
    rw [Option.some.inj hp]
  · rw [AList.lookup_insert_ne hk] at hp
    exact h key p hp

theorem AtIndex.erase {positions : AList (fun _ : Int => Nat)} (h : AtIndex positions) (key : Int) :
    AtIndex (positions.erase key) := by
  intro key' p hp
  by_cases hk : key' = key
  · subst hk
    rw [AList.lookup_erase] at hp
    cases hp
  · rw [AList.lookup_erase_ne hk] at hp
    exact h key' p hp

/-- The blocks that are open, and those still to be opened, are all blocks in order; what is
kept under an index is kept for the block at it. -/
structure ClaudeMessage.Opening (n : Nat) (m : ClaudeMessage) (rest : List (Nat × BlockStep)) :
    Prop where
  starts : List.range m.currentBlocks.length ++
    (rest.filter fun s => s.2 = .start).map Prod.fst = List.range n
  known : ∀ s ∈ rest, s.1 < n
  positions : AtIndex m.blockPositions
  toolCalls : AtIndex m.toolCalls.blockIndex

namespace ClaudeMessage

variable {codec : JsonCodec} {blocks : List ClaudeBlock} {m : ClaudeMessage}
  {rest : List (Nat × BlockStep)}

theorem blockView_ext {m m' : ClaudeMessage} {i : Nat}
    (h : m'.currentBlocks[i]? = m.currentBlocks[i]?)
    (hp : m'.blockPositions.lookup (i : Int) = m.blockPositions.lookup (i : Int))
    (hj : m'.toolCalls.pending.lookup (i : Int) = m.toolCalls.pending.lookup (i : Int))
    (ht : m'.toolCalls.blockIndex.lookup (i : Int) = m.toolCalls.blockIndex.lookup (i : Int)) :
    m'.blockView i = m.blockView i := by
  rw [blockView, blockView, h, hp, hj, ht]

/-- A block is opened at its index. -/
theorem Opening.start {i : Nat} (h : m.Opening blocks.length ((i, .start) :: rest)) :
    i = m.currentBlocks.length ∧ i < blocks.length := by
  have hstarts := h.starts
  have hi := h.known _ List.mem_cons_self
  have hget := congrArg (fun xs => xs[m.currentBlocks.length]?) hstarts
  simp only [List.filter_cons, decide_true, if_true, List.map_cons] at hget
  rw [List.getElem?_append_right (by simp), List.length_range, Nat.sub_self] at hget
  simp only [List.getElem?_cons_zero] at hget
  have := List.getElem?_eq_some_iff.mp hget.symm
  obtain ⟨hlt, hval⟩ := this
  rw [List.getElem_range] at hval
  exact ⟨hval.symm, hi⟩

theorem isToolUse_opened (block : ClaudeBlock) : block.opened.isToolUse = block.isToolUse := by
  cases block <;> rfl

/-- The message after a block was opened, field by field. -/
theorem takeStep_start (codec : JsonCodec) (m : ClaudeMessage) {i : Nat} {block : ClaudeBlock}
    (hb : blocks[i]? = some block) :
    (m.takeStep codec blocks (i, .start)).currentBlocks =
        m.currentBlocks ++ [block.opened.content] ∧
      (m.takeStep codec blocks (i, .start)).blockPositions =
        m.blockPositions.insert (i : Int) m.currentBlocks.length ∧
      (m.takeStep codec blocks (i, .start)).toolCalls =
        if block.isToolUse then m.toolCalls.start (i : Int) m.currentBlocks.length
        else m.toolCalls := by
  have hstep : m.takeStep codec blocks (i, .start) = m.beginBlock i block.opened.toJson := by
    simp [takeStep, hb]
  rw [hstep, beginBlock_toJson, isToolUse_opened]
  split
  · exact ⟨rfl, rfl, rfl⟩
  · exact ⟨rfl, rfl, rfl⟩

theorem opening_start {i : Nat} (h : m.Opening blocks.length ((i, .start) :: rest)) :
    (m.takeStep codec blocks (i, .start)).Opening blocks.length rest ∧
      (m.takeStep codec blocks (i, .start)).blockView i =
        (m.blockView i).take codec blocks i .start ∧
      ∀ j, j ≠ i → (m.takeStep codec blocks (i, .start)).blockView j = m.blockView j := by
  obtain ⟨hi, hlt⟩ := h.start
  obtain ⟨block, hb⟩ : ∃ block, blocks[i]? = some block := ⟨_, List.getElem?_eq_getElem hlt⟩
  obtain ⟨hblocks, hpositions, hcalls⟩ := takeStep_start codec m hb
  generalize m.takeStep codec blocks (i, .start) = m' at hblocks hpositions hcalls
  rw [← hi] at hpositions hcalls
  refine ⟨⟨?_, fun s hs => h.known s (List.mem_cons_of_mem _ hs), ?_, ?_⟩, ?_, fun j hj => ?_⟩
  · have hstarts := h.starts
    rw [List.filter_cons, if_pos (by simp), List.map_cons] at hstarts
    rw [hblocks, List.length_append, List.length_singleton, List.range_succ, ← hstarts, ← hi,
      List.append_assoc, List.singleton_append]
  · rw [hpositions]
    exact h.positions.insert i
  · rw [hcalls]
    split
    · exact h.toolCalls.insert i
    · exact h.toolCalls
  · have hlast : (m.currentBlocks ++ [block.opened.content])[i]? = some block.opened.content := by
      rw [hi, List.getElem?_concat_length]
    simp only [blockView, BlockView.take, hb, hblocks, hpositions, hcalls, AList.lookup_insert,
      hlast]
    split <;> simp [ToolCallAccumulator.start]
  · have hj' : (j : Int) ≠ (i : Int) := by omega
    refine blockView_ext ?_ ?_ ?_ ?_
    · rw [hblocks, List.getElem?_append]
      split
      · rfl
      · rw [List.getElem?_eq_none (by simp; omega), List.getElem?_eq_none (by omega)]
    · rw [hpositions, AList.lookup_insert_ne hj']
    · rw [hcalls]
      split
      · exact AList.lookup_insert_ne hj'
      · rfl
    · rw [hcalls]
      split
      · exact AList.lookup_insert_ne hj'
      · rfl

/-- Deltas and ends of blocks leave the order of the blocks alone. -/
theorem Opening.of_length {m' : ClaudeMessage} {i : Nat} {a : BlockStep} {n : Nat}
    (h : m.Opening n ((i, a) :: rest)) (ha : a ≠ .start)
    (hlen : m'.currentBlocks.length = m.currentBlocks.length)
    (hp : m'.blockPositions = m.blockPositions) (ht : AtIndex m'.toolCalls.blockIndex) :
    m'.Opening n rest := by
  refine ⟨?_, fun s hs => h.known s (List.mem_cons_of_mem _ hs), hp ▸ h.positions, ht⟩
  have hstarts := h.starts
  rw [List.filter_cons, if_neg (by simpa using ha)] at hstarts
  rw [hlen, hstarts]

/-- A change of a block is seen at that block alone. -/
theorem blockView_change (m : ClaudeMessage) (i j : Nat) (f : TurnContent → TurnContent) :
    (m.change i f).blockView j =
      if j = i then { m.blockView j with block := (m.blockView j).block.map f }
      else m.blockView j := by
  simp only [blockView, change, BaseMessage.changeBlock, List.getElem?_modify]
  by_cases hj : j = i
  · subst hj
    simp
  · simp [hj, Ne.symm hj]

/-- A fragment of an input is seen at its block alone. -/
theorem blockView_inputDelta (m : ClaudeMessage) (i j : Nat) (fragment : String) :
    { m with toolCalls := m.toolCalls.delta (i : Int) fragment }.blockView j =
      if j = i then
        { m.blockView j with pending := (m.blockView j).pending.map (· ++ fragment) }
      else m.blockView j := by
  simp only [blockView, ToolCallAccumulator.blockIndex_delta,
    ToolCallAccumulator.lookup_pending_delta, Nat.cast_inj]
  split <;> rfl

/-- What a delta does to a message that knows its block. -/
theorem applyDelta_toJson {index : Int} {position : Nat} (d : BlockDelta)
    (hp : m.blockPositions.lookup index = some position) :
    m.applyDelta index d.type d.toJson =
      match d with
      | .inputJson fragment => { m with toolCalls := m.toolCalls.delta index fragment }
      | d => m.change position d.change := by
  cases d with
  | signature s =>
      simp only [applyDelta, hp, BlockDelta.type, BlockDelta.toJson, change,
        BaseMessage.changeBlock, List.modify_modify_eq]
      simp [JsonObject.ofFields, JsonObject.value_insert, BlockDelta.change, Function.comp_def]
  | _ =>
      simp [applyDelta, hp, BlockDelta.type, BlockDelta.toJson, JsonObject.ofFields,
        JsonObject.value_insert, BlockDelta.change]

theorem opening_delta {i : Nat} {d : BlockDelta}
    (h : m.Opening blocks.length ((i, .delta d) :: rest)) :
    (m.takeStep codec blocks (i, .delta d)).Opening blocks.length rest ∧
      (m.takeStep codec blocks (i, .delta d)).blockView i =
        (m.blockView i).take codec blocks i (.delta d) ∧
      ∀ j, j ≠ i → (m.takeStep codec blocks (i, .delta d)).blockView j = m.blockView j := by
  cases hp : m.blockPositions.lookup (i : Int) with
  | none =>
      have hpos : (m.blockView i).position = none := hp
      have hstep : m.takeStep codec blocks (i, .delta d) = m := by
        simp [takeStep, applyDelta, hp]
      rw [hstep]
      exact ⟨h.of_length (by simp) rfl rfl h.toolCalls, by simp [BlockView.take, hpos],
        fun _ _ => rfl⟩
  | some position =>
      have hpos : (m.blockView i).position = some position := hp
      obtain rfl : position = i := by exact_mod_cast h.positions _ _ hp
      have hstep : m.takeStep codec blocks (position, .delta d) = _ := applyDelta_toJson d hp
      have hchange : ∀ f, (m.change position f).Opening blocks.length rest := fun f =>
        h.of_length (by simp) (by simp [change, BaseMessage.changeBlock]) rfl h.toolCalls
      rw [hstep]
      cases d with
      | inputJson fragment =>
          refine ⟨h.of_length (by simp) rfl rfl (by simpa using h.toolCalls), ?_, fun j hj => ?_⟩
          · rw [blockView_inputDelta, if_pos rfl]
            simp [BlockView.take, hpos, BlockDelta.change, BlockDelta.inputFragment]
          · rw [blockView_inputDelta, if_neg hj]
      | _ =>
          refine ⟨hchange _, ?_, fun j hj => ?_⟩
          · rw [blockView_change, if_pos rfl]
            simp [BlockView.take, hpos, BlockDelta.inputFragment]
          · rw [blockView_change, if_neg hj]

theorem opening_stop {i : Nat} (h : m.Opening blocks.length ((i, .stop) :: rest)) :
    (m.takeStep codec blocks (i, .stop)).Opening blocks.length rest ∧
      (m.takeStep codec blocks (i, .stop)).blockView i =
        (m.blockView i).take codec blocks i .stop ∧
      ∀ j, j ≠ i → (m.takeStep codec blocks (i, .stop)).blockView j = m.blockView j := by
  have hstep : m.takeStep codec blocks (i, .stop) = m.endBlock codec i := rfl
  rw [hstep]
  cases hjson : m.toolCalls.pending.lookup (i : Int) with
  | none =>
      have hpending : (m.blockView i).pending = none := hjson
      have hend : m.endBlock codec i = m := by
        simp [endBlock, ToolCallAccumulator.complete, hjson]
      rw [hend]
      exact ⟨h.of_length (by simp) rfl rfl h.toolCalls, by simp [BlockView.take, hpending],
        fun _ _ => rfl⟩
  | some json =>
      have hpending : (m.blockView i).pending = some json := hjson
      let closed : ClaudeMessage := { m with
        toolCalls :=
          { blockIndex := m.toolCalls.blockIndex.erase i, pending := m.toolCalls.pending.erase i } }
      have hclosed : closed.blockView i =
          { m.blockView i with pending := none, toolCall := none } := by
        simp [closed, blockView]
      have hothers : ∀ j, j ≠ i → closed.blockView j = m.blockView j := by
        intro j hj
        have hj' : (j : Int) ≠ (i : Int) := by omega
        simp [closed, blockView, AList.lookup_erase_ne hj']
      cases hindex : m.toolCalls.blockIndex.lookup (i : Int) with
      | none =>
          have hcall : (m.blockView i).toolCall = none := hindex
          have hend : m.endBlock codec i = closed := by
            simp [endBlock, ToolCallAccumulator.complete, hjson, hindex, closed]
          rw [hend]
          refine ⟨h.of_length (by simp) rfl rfl (h.toolCalls.erase i), ?_, hothers⟩
          simp [hclosed, BlockView.take, hpending, hcall]
      | some p =>
          have hcall : (m.blockView i).toolCall = some p := hindex
          obtain rfl : p = i := by exact_mod_cast h.toolCalls _ _ hindex
          by_cases he : json.isEmpty
          · have hend : m.endBlock codec p = closed := by
              simp [endBlock, ToolCallAccumulator.complete, hjson, he, closed]
            rw [hend]
            refine ⟨h.of_length (by simp) rfl rfl (h.toolCalls.erase p), ?_, hothers⟩
            simp [hclosed, BlockView.take, hpending, he]
          · have hend : m.endBlock codec p = closed.change p
                (.onToolUse fun c => { c with input := parseToolArguments codec json }) := by
              simp [endBlock, ToolCallAccumulator.complete, hjson, hindex, he, closed, change]
            rw [hend]
            refine ⟨h.of_length (by simp) (by simp [change, BaseMessage.changeBlock, closed]) rfl
              (h.toolCalls.erase p), ?_, fun j hj => ?_⟩
            · rw [blockView_change, if_pos rfl, hclosed]
              simp [BlockView.take, hpending, hcall, he]
            · rw [blockView_change, if_neg hj, hothers j hj]

/-- Seen at a block, a streamed answer is the events of that block. -/
theorem blockView_takeSteps (codec : JsonCodec) {steps : List (Nat × BlockStep)}
    (h : m.Opening blocks.length steps) :
    (steps.foldl (takeStep codec blocks) m).Opening blocks.length [] ∧
      ∀ i, (steps.foldl (takeStep codec blocks) m).blockView i =
        (lane i steps).foldl (BlockView.take codec blocks i) (m.blockView i) := by
  refine view_foldl (fun m i a rest h => ?_) steps m h
  cases a with
  | start => exact opening_start h
  | delta d => exact opening_delta h
  | stop => exact opening_stop h

end ClaudeMessage

/-! ### A block, from its own events -/

namespace BlockDelta

theorem foldl_change_text (fragments : List String) : ∀ t : String,
    (fragments.map text).foldl (fun block d => change d block) (.text ⟨t⟩) =
      .text ⟨t ++ String.join fragments⟩ := by
  induction fragments with
  | nil => simp
  | cons fragment rest ih =>
      intro t
      rw [List.map_cons, List.foldl_cons, String.join_cons, ← String.append_assoc]
      exact ih _

theorem foldl_change_thinking (fragments : List String) : ∀ c : ThinkingContent,
    (fragments.map thinking).foldl (fun block d => change d block) (.thinking c) =
      .thinking { c with thinking := c.thinking ++ String.join fragments } := by
  induction fragments with
  | nil => simp
  | cons fragment rest ih =>
      intro c
      rw [List.map_cons, List.foldl_cons, String.join_cons, ← String.append_assoc]
      exact ih _

theorem change_signature_thinking (s : String) (c : ThinkingContent) :
    (signature s).change (.thinking c) = .thinking { c with signature := s } := rfl

theorem change_signature_redactedThinking (s : String) (c : RedactedThinkingContent) :
    (signature s).change (.redactedThinking c) = .redactedThinking ⟨s⟩ := rfl

theorem foldl_change_inputJson (fragments : List String) (block : TurnContent) :
    (fragments.map inputJson).foldl (fun block d => change d block) block = block := by
  induction fragments with
  | nil => rfl
  | cons fragment rest ih => exact ih

end BlockDelta

/-- The fragments of the input a block streams. -/
def inputFragments (deltas : List BlockDelta) : String :=
  String.join (deltas.map BlockDelta.inputFragment)

namespace BlockView

variable {codec : JsonCodec} {blocks : List ClaudeBlock} {i : Nat}

theorem foldl_take_deltas (deltas : List BlockDelta) : ∀ v : BlockView, v.position.isSome →
    (deltas.map BlockStep.delta).foldl (take codec blocks i) v =
      { v with
        block := v.block.map fun block => deltas.foldl (fun block d => d.change block) block
        pending := v.pending.map (· ++ inputFragments deltas) } := by
  induction deltas with
  | nil =>
      intro v _
      simp [inputFragments]
  | cons d rest ih =>
      intro v hv
      have htake : v.take codec blocks i (.delta d) =
          { v with
            block := v.block.map d.change
            pending := v.pending.map (· ++ d.inputFragment) } := by
        simp [take, hv]
      rw [List.map_cons, List.foldl_cons, htake, ih _ (by exact hv)]
      simp [inputFragments, String.join_cons, Function.comp_def, String.append_assoc]

/-- The events of a block make the block. -/
theorem foldl_take_lane {block : ClaudeBlock} {deltas : List BlockDelta}
    (h : block.Streams codec deltas) (hb : blocks[i]? = some block) :
    ((BlockStep.start :: (deltas.map .delta ++ [.stop])).foldl (take codec blocks i) {}).block =
      some block.content := by
  have hstart : take codec blocks i {} .start =
      { block := some block.opened.content
        position := some i
        pending := if block.isToolUse then some "" else none
        toolCall := if block.isToolUse then some i else none } := by
    simp [take, hb]
  rw [List.foldl_cons, hstart, List.foldl_append, foldl_take_deltas deltas _ rfl]
  cases h with
  | text fragments =>
      simp [take, ClaudeBlock.isToolUse, ClaudeBlock.opened, ClaudeBlock.content,
        BlockDelta.foldl_change_text]
  | thinking before after signature =>
      simp [take, ClaudeBlock.isToolUse, ClaudeBlock.opened, ClaudeBlock.content,
        List.foldl_append, BlockDelta.foldl_change_thinking, BlockDelta.change_signature_thinking,
        String.join_append]
  | unsigned fragments =>
      simp [take, ClaudeBlock.isToolUse, ClaudeBlock.opened, ClaudeBlock.content,
        BlockDelta.foldl_change_thinking]
  | redacted signature =>
      simp [take, ClaudeBlock.isToolUse, ClaudeBlock.opened, ClaudeBlock.content,
        BlockDelta.change_signature_redactedThinking]
  | redactedUnsigned => simp [take, ClaudeBlock.isToolUse, ClaudeBlock.opened, ClaudeBlock.content]
  | toolUse id name fragments =>
      have hinput : inputFragments (fragments.map .inputJson) = String.join fragments := by
        simp [inputFragments, Function.comp_def, BlockDelta.inputFragment]
      simp only [ClaudeBlock.isToolUse, ClaudeBlock.opened, ClaudeBlock.content,
        BlockDelta.foldl_change_inputJson, hinput, Option.map_some, if_true, List.foldl_cons,
        List.foldl_nil, take, String.empty_append, Option.isSome_some, Bool.and_true]
      by_cases he : (String.join fragments).isEmpty
      · simp [he, parseToolArguments]
      · simp [he, TurnContent.onToolUse]

end BlockView

/-! ### The streamed answer -/

namespace ClaudeMessage

variable (codec : JsonCodec)

/-- The steps of the blocks, as events. -/
theorem applyEvents_steps (blocks : List ClaudeBlock) (steps : List (Nat × BlockStep))
    (h : ∀ s ∈ steps, s.1 < 2 ^ 31) : ∀ m : ClaudeMessage,
      applyEvents (applyEvent codec) m (steps.map (stepEvent blocks)) =
        (steps.foldl (takeStep codec blocks) m,
          String.join (steps.map fun s => stepChunk s.2)) := by
  induction steps with
  | nil => exact fun m => rfl
  | cons s rest ih =>
      intro m
      obtain ⟨hs, hrest⟩ := List.forall_mem_cons.mp h
      obtain ⟨hmessage, hchunk⟩ := applyEvent_step codec blocks m hs
      rw [List.map_cons, applyEvents, hmessage, hchunk, ih hrest, List.foldl_cons, List.map_cons,
        String.join_cons]

theorem applyEvents_streamedAnswer {blocks : List ClaudeBlock} {steps : List (Nat × BlockStep)}
    (h : ∀ s ∈ steps, s.1 < 2 ^ 31) (message : JsonObject) (stopReason : String)
    (usage : JsonObject) (m : ClaudeMessage) :
    applyEvents (applyEvent codec) m (streamedAnswer blocks steps message stopReason usage) =
      ((steps.foldl (takeStep codec blocks) m.startNewContinuation).handleStopReason stopReason,
        String.join (steps.map fun s => stepChunk s.2)) := by
  have hstart : m.applyEvent codec (messageStart message) =
      (m.startNewContinuation, { usage := message }) := by
    simp [applyEvent, messageStart, JsonObject.ofFields, JsonObject.value_insert]
  have hdelta : ∀ m : ClaudeMessage, m.applyEvent codec (messageDelta stopReason usage) =
      (m.handleStopReason stopReason,
        { usage := messageDelta stopReason usage, toolsReady := true }) := by
    intro m
    simp [applyEvent, messageDelta, JsonObject.ofFields, JsonObject.value_insert,
      JsonObject.contains_insert_str]
  rw [streamedAnswer, applyEvents, hstart, applyEvents_append,
    applyEvents_steps codec blocks steps h, applyEvents, applyEvents, hdelta]
  simp

theorem opening_startNewContinuation {blocks : List ClaudeBlock} {steps : List (Nat × BlockStep)}
    (h : ClaudeStream codec blocks steps) (m : ClaudeMessage) :
    m.startNewContinuation.Opening blocks.length steps where
  starts := h.starts
  known := h.known
  positions := nofun
  toolCalls := nofun

/-- A streamed answer leaves its blocks. -/
theorem streamed_blocks {blocks : List ClaudeBlock} {steps : List (Nat × BlockStep)}
    (h : ClaudeStream codec blocks steps) (m : ClaudeMessage) :
    (steps.foldl (takeStep codec blocks) m.startNewContinuation).currentBlocks =
      blocks.map ClaudeBlock.content := by
  obtain ⟨-, hview⟩ := blockView_takeSteps codec (opening_startNewContinuation codec h m)
  refine List.ext_getElem? fun i => ?_
  have hi : (steps.foldl (takeStep codec blocks) m.startNewContinuation).currentBlocks[i]? =
      ((lane i steps).foldl (BlockView.take codec blocks i) {}).block :=
    congrArg BlockView.block (hview i)
  rw [hi, List.getElem?_map]
  cases hb : blocks[i]? with
  | none =>
      have hlen := List.getElem?_eq_none_iff.mp hb
      rw [lane_eq_nil fun s hs => by have := h.known s hs; omega]
      rfl
  | some block =>
      obtain ⟨deltas, hdeltas, hlane⟩ := h.lanes i block hb
      rw [hlane, BlockView.foldl_take_lane hdeltas hb]
      rfl

/-! ### The buffered answer -/

/-- A block of a buffered answer is opened and ended at once. -/
theorem endBlock_beginBlock (m : ClaudeMessage) (h : ∀ key, m.toolCalls.pending.lookup key = none)
    (index : Int) (block : ClaudeBlock) :
    ((m.beginBlock index block.toJson).endBlock codec index).currentBlocks =
        m.currentBlocks ++ [block.content] ∧
      ∀ key, ((m.beginBlock index block.toJson).endBlock codec index).toolCalls.pending.lookup key =
        none := by
  rw [beginBlock_toJson]
  split
  · -- nothing was collected for the tool call, so its input stays
    refine ⟨by simp [endBlock, ToolCallAccumulator.complete, ToolCallAccumulator.start,
      placeBlock, BaseMessage.addCurrentContent], fun key => ?_⟩
    by_cases hk : key = index
    · subst hk
      simp [endBlock, ToolCallAccumulator.complete, ToolCallAccumulator.start]
    · simp [endBlock, ToolCallAccumulator.complete, ToolCallAccumulator.start,
        AList.lookup_erase_ne hk, AList.lookup_insert_ne hk, h]
  · have hend : (m.placeBlock index block.content).endBlock codec index =
        m.placeBlock index block.content := by
      simp [endBlock, ToolCallAccumulator.complete, placeBlock, h]
    rw [hend]
    exact ⟨rfl, h⟩

theorem applyBlocks_toJson (blocks : List ClaudeBlock) :
    ∀ (r : ClaudeMessage × MessageEffects) (index : Nat),
      (∀ key, r.1.toolCalls.pending.lookup key = none) →
      (applyBlocks codec r index (blocks.map fun block => .obj block.toJson)).1.currentBlocks =
          r.1.currentBlocks ++ blocks.map ClaudeBlock.content ∧
        (applyBlocks codec r index (blocks.map fun block => .obj block.toJson)).2.chunk =
          r.2.chunk ++ String.join (blocks.map ClaudeBlock.textOf) := by
  induction blocks with
  | nil => simp [applyBlocks]
  | cons block rest ih =>
      intro r index h
      obtain ⟨hblocks, hpending⟩ := endBlock_beginBlock codec r.1 h index block
      obtain ⟨hrest, hchunk⟩ := ih (applyBlock codec r index block.toJson) (index + 1) hpending
      rw [List.map_cons, applyBlocks, JsonValue.toObject_obj, hrest, hchunk]
      refine ⟨?_, ?_⟩
      · rw [applyBlock, hblocks, List.map_cons, List.append_assoc, List.singleton_append]
      · rw [List.map_cons, String.join_cons, ← String.append_assoc]
        congr 1
        cases block <;>
          simp [applyBlock, ClaudeBlock.toJson, ClaudeBlock.textOf, JsonObject.ofFields,
            JsonObject.value_insert]

theorem handleStopReason_eq (m : ClaudeMessage) (stopReason : String) :
    (m.handleStopReason stopReason).currentBlocks = m.currentBlocks ∧
      (m.handleStopReason stopReason).stopReason = stopReason ∧
      (m.handleStopReason stopReason).state =
        BaseMessage.resolveState { currentBlocks := m.currentBlocks } stopReason stopReasonMap :=
  ⟨rfl, rfl, rfl⟩

theorem applyResponse_bufferedAnswer (m : ClaudeMessage) (blocks : List ClaudeBlock)
    {stopReason : String} (hne : stopReason ≠ "") (usage : JsonObject) :
    ∃ m' : ClaudeMessage, m'.currentBlocks = blocks.map ClaudeBlock.content ∧
      (m.applyResponse codec (bufferedAnswer blocks stopReason usage)).1 =
        m'.handleStopReason stopReason ∧
      (m.applyResponse codec (bufferedAnswer blocks stopReason usage)).2.chunk =
        String.join (blocks.map ClaudeBlock.textOf) := by
  obtain ⟨hblocks, hchunk⟩ := applyBlocks_toJson codec blocks (m.startNewContinuation, {}) 0
    (fun _ => rfl)
  have hcontent : (bufferedAnswer blocks stopReason usage).value "content" =
      .arr (blocks.map fun block => .obj block.toJson) := by
    simp [bufferedAnswer, JsonObject.ofFields, JsonObject.value_insert]
  have hreason : (bufferedAnswer blocks stopReason usage).value "stop_reason" =
      .str stopReason := by
    simp [bufferedAnswer, JsonObject.ofFields, JsonObject.value_insert]
  refine ⟨_, hblocks, ?_, ?_⟩
  · simp [applyResponse, hcontent, hreason, hne]
  · rw [← String.empty_append (s := String.join _)]
    simpa [applyResponse, hcontent, hreason, hne] using hchunk

end ClaudeMessage

/-! ### The text that is emitted -/

/-- The texts of a streamed answer as they come, each with the index of its block. -/
def textDeltas (steps : List (Nat × BlockStep)) : List (Nat × String) :=
  steps.filterMap fun s =>
    match s.2 with
    | .delta (.text fragment) => some (s.1, fragment)
    | _ => none

theorem join_stepChunk (steps : List (Nat × BlockStep)) :
    String.join (steps.map fun s => stepChunk s.2) =
      String.join ((textDeltas steps).map Prod.snd) := by
  induction steps with
  | nil => rfl
  | cons s rest ih =>
      obtain ⟨i, step⟩ := s
      rw [List.map_cons, String.join_cons, ih]
      match step with
      | .delta (.text fragment) => simp [textDeltas, stepChunk, String.join_cons]
      | .delta (.thinking _) | .delta (.inputJson _) | .delta (.signature _) | .start | .stop =>
          simp [textDeltas, stepChunk]

/-- The texts among the events of a block. -/
def laneTexts (steps : List BlockStep) : List String :=
  steps.filterMap fun
    | .delta (.text fragment) => some fragment
    | _ => none

theorem lane_textDeltas (i : Nat) (steps : List (Nat × BlockStep)) :
    lane i (textDeltas steps) = laneTexts (lane i steps) := by
  induction steps with
  | nil => rfl
  | cons s rest ih =>
      obtain ⟨j, step⟩ := s
      rw [lane_cons]
      match step with
      | .delta (.text fragment) =>
          simp only [textDeltas, List.filterMap_cons, lane_cons]
          split <;> simp_all [laneTexts, textDeltas]
      | .delta (.thinking _) | .delta (.inputJson _) | .delta (.signature _) | .start | .stop =>
          simp only [textDeltas, List.filterMap_cons]
          split <;> simp_all [laneTexts, textDeltas]

theorem join_laneTexts {codec : JsonCodec} {block : ClaudeBlock} {deltas : List BlockDelta}
    (h : block.Streams codec deltas) :
    String.join (laneTexts (.start :: (deltas.map .delta ++ [.stop]))) = block.textOf := by
  cases h with
  | text fragments =>
      simp [laneTexts, List.filterMap_append, List.filterMap_map, Function.comp_def,
        ClaudeBlock.textOf]
  | _ =>
      simp [laneTexts, List.filterMap_append, List.filterMap_map, Function.comp_def,
        ClaudeBlock.textOf]

/-- Texts that come block by block are the texts of the blocks. -/
theorem join_textDeltas {codec : JsonCodec} {blocks : List ClaudeBlock}
    {steps : List (Nat × BlockStep)} (h : ClaudeStream codec blocks steps)
    (hsorted : (textDeltas steps).Pairwise fun s t => s.1 ≤ t.1) :
    String.join ((textDeltas steps).map Prod.snd) =
      String.join (blocks.map ClaudeBlock.textOf) := by
  have hknown : ∀ s ∈ textDeltas steps, s.1 < blocks.length := by
    intro s hs
    obtain ⟨⟨i, step⟩, hmem, hsome⟩ := List.mem_filterMap.mp hs
    have hi := h.known _ hmem
    split at hsome
    · cases hsome
      exact hi
    · cases hsome
  rw [map_snd_eq_lanes blocks.length (textDeltas steps) hknown hsorted]
  -- lane by lane
  have hlanes : ∀ n, n ≤ blocks.length →
      String.join ((List.range n).flatMap fun i => lane i (textDeltas steps)) =
        String.join ((blocks.take n).map ClaudeBlock.textOf) := by
    intro n
    induction n with
    | zero => intro _; rfl
    | succ n ih =>
        intro hn
        obtain ⟨deltas, hdeltas, hlane⟩ := h.lanes n blocks[n] (List.getElem?_eq_getElem hn)
        rw [List.range_succ, List.flatMap_append, List.flatMap_singleton, String.join_append,
          ih (by omega), lane_textDeltas, hlane, join_laneTexts hdeltas,
          List.take_succ_eq_append_getElem hn, List.map_append, String.join_append]
        simp
  have := hlanes blocks.length (Nat.le_refl _)
  rwa [List.take_length] at this

/-- A streamed answer leaves the blocks, the stop reason and the state the buffered answer
leaves. It emits the texts as they come, which is the text of the buffered answer if they
come block by block. -/
theorem claude_streamed_eq_buffered (codec : JsonCodec) {blocks : List ClaudeBlock}
    {steps : List (Nat × BlockStep)} (h : ClaudeStream codec blocks steps) {stopReason : String}
    (hne : stopReason ≠ "") (message usage usage' : JsonObject) (m m' : ClaudeMessage) :
    let streamed := applyEvents (ClaudeMessage.applyEvent codec) m
      (streamedAnswer blocks steps message stopReason usage)
    let buffered := m'.applyResponse codec (bufferedAnswer blocks stopReason usage')
    streamed.1.currentBlocks = buffered.1.currentBlocks ∧
      streamed.1.stopReason = buffered.1.stopReason ∧
      streamed.1.state = buffered.1.state ∧
      streamed.2 = String.join ((textDeltas steps).map Prod.snd) ∧
      ((textDeltas steps).Pairwise (fun s t => s.1 ≤ t.1) → streamed.2 = buffered.2.chunk) := by
  intro streamed buffered
  have hfits : ∀ s ∈ steps, s.1 < 2 ^ 31 := fun s hs => (h.known s hs).trans h.fits
  have hstreamed : streamed = _ :=
    ClaudeMessage.applyEvents_streamedAnswer codec hfits message stopReason usage m
  obtain ⟨m₁, hblocks, hbuffered, hchunk⟩ :=
    ClaudeMessage.applyResponse_bufferedAnswer codec m' blocks hne usage'
  have hsame := ClaudeMessage.streamed_blocks codec h m
  obtain ⟨hs₁, hs₂, hs₃⟩ := ClaudeMessage.handleStopReason_eq
    (steps.foldl (ClaudeMessage.takeStep codec blocks) m.startNewContinuation) stopReason
  obtain ⟨hb₁, hb₂, hb₃⟩ := ClaudeMessage.handleStopReason_eq m₁ stopReason
  have hbuffered : buffered.1 = m₁.handleStopReason stopReason := hbuffered
  have hchunk : buffered.2.chunk = String.join (blocks.map ClaudeBlock.textOf) := hchunk
  rw [hstreamed, hbuffered, hchunk]
  refine ⟨?_, ?_, ?_, join_stepChunk steps, fun hsorted => ?_⟩
  · rw [hs₁, hb₁, hsame, hblocks]
  · rw [hs₂, hb₂]
  · rw [hs₃, hb₃, hsame, hblocks]
  · rw [join_stepChunk, join_textDeltas h hsorted]

/-- The input of a tool call of an answer, and the codec as far as it is used on it. -/
def cityInput : JsonObject := JsonObject.ofFields [("city", .str "Rome")]

def cityText : String := "\x7b\"city\":\"Rome\"\x7d"

def cityCodec : JsonCodec where
  fromJson bytes := if bytes = Bytes.ofString cityText then .object cityInput else .null
  toJson input := if input = cityInput then cityText else ""

/-- An answer with a text and a tool call, whose deltas alternate. -/
def cityBlocks : List ClaudeBlock := [.text "Let me look", .toolUse "toolu_1" "weather" cityInput]

def citySteps : List (Nat × BlockStep) :=
  [(0, .start), (0, .delta (.text "Let me")), (1, .start),
    (1, .delta (.inputJson "\x7b\"city\":")), (0, .delta (.text " look")), (0, .stop),
    (1, .delta (.inputJson "\"Rome\"\x7d")), (1, .stop)]

theorem claudeStream_city : ClaudeStream cityCodec cityBlocks citySteps where
  starts := by decide
  known := by decide
  fits := by decide
  lanes := by
    intro i block hblock
    match i, hblock with
    | 0, h =>
        obtain rfl : ClaudeBlock.text "Let me look" = block := by simpa [cityBlocks] using h
        exact ⟨_, .text ["Let me", " look"], rfl⟩
    | 1, h =>
        obtain rfl : ClaudeBlock.toolUse "toolu_1" "weather" cityInput = block := by
          simpa [cityBlocks] using h
        have hread : cityCodec.fromJson (Bytes.ofString (cityCodec.toJson cityInput)) =
            .object cityInput := by simp [cityCodec]
        have hfragments : String.join ["\x7b\"city\":", "\"Rome\"\x7d"] =
            cityCodec.toJson cityInput := by decide
        exact ⟨_, ClaudeBlock.streams_printed hread (by decide) _ _ hfragments, rfl⟩

theorem claude_streamed_eq_buffered_city :
    ClaudeStream cityCodec cityBlocks citySteps ∧
      let streamed := applyEvents (ClaudeMessage.applyEvent cityCodec) {}
        (streamedAnswer cityBlocks citySteps [] "tool_use" [])
      let buffered := ClaudeMessage.applyResponse cityCodec {}
        (bufferedAnswer cityBlocks "tool_use" [])
      streamed.1.currentBlocks = buffered.1.currentBlocks ∧
        streamed.1.stopReason = buffered.1.stopReason ∧
        streamed.1.state = buffered.1.state ∧
        streamed.2 = buffered.2.chunk := by
  obtain ⟨hblocks, hreason, hstate, -, hchunk⟩ :=
    claude_streamed_eq_buffered cityCodec claudeStream_city (by decide : "tool_use" ≠ "") [] [] []
      {} {}
  exact ⟨claudeStream_city, hblocks, hreason, hstate, hchunk (by decide)⟩

/-- Two texts whose deltas alternate. -/
def alternatingSteps : List (Nat × BlockStep) :=
  [(0, .start), (1, .start), (0, .delta (.text "a")), (1, .delta (.text "x")),
    (0, .delta (.text "b")), (0, .stop), (1, .stop)]

theorem claude_alternating_texts :
    ClaudeStream cityCodec [.text "ab", .text "x"] alternatingSteps ∧
      (applyEvents (ClaudeMessage.applyEvent cityCodec) {}
        (streamedAnswer [.text "ab", .text "x"] alternatingSteps [] "end_turn" [])).2 = "axb" ∧
      (ClaudeMessage.applyResponse cityCodec {}
        (bufferedAnswer [.text "ab", .text "x"] "end_turn" [])).2.chunk = "abx" := by
  refine ⟨⟨by decide, ?_, by decide, by decide⟩, ?_, ?_⟩
  · intro i block hblock
    match i, hblock with
    | 0, h =>
        obtain rfl : ClaudeBlock.text "ab" = block := by simpa using h
        exact ⟨_, .text ["a", "b"], rfl⟩
    | 1, h =>
        obtain rfl : ClaudeBlock.text "x" = block := by simpa using h
        exact ⟨_, .text ["x"], rfl⟩
  · rw [ClaudeMessage.applyEvents_streamedAnswer _ (by decide)]
    decide
  · obtain ⟨_, _, _, hchunk⟩ := ClaudeMessage.applyResponse_bufferedAnswer cityCodec {}
      [.text "ab", .text "x"] (by decide : "end_turn" ≠ "") []
    rw [hchunk]
    decide

end LLMQore
