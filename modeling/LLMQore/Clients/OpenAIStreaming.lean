import LLMQore.Clients.OpenAI
import LLMQore.Streaming.Lanes

/-!
# LLMQore.Clients.OpenAIStreaming

Streamed and buffered chat completions agree.

A chunk is read item by item: reasoning, then content, then fragments of tool calls. The
items of a whole stream make the reasoning block, the text block and the tool uses in this
order; the arguments of a tool call are what is collected under its index, however the
fragments of the calls interleave, and they are parsed when the finish reason comes.

A buffered completion is read as the stream that has everything in one chunk, with the
calls at their positions. So both are what the completion says (`ChatCompletion.blocks`).
-/

namespace LLMQore

open Network Tools Streaming

/-! ### Completions and their streams -/

structure ChatCall where
  index : Int
  id : String
  name : String
  arguments : String

/-- A chat completion. An index is an `int`, and so is a position. -/
structure ChatCompletion where
  reasoning : Option String
  content : Option String
  calls : List ChatCall
  finishReason : String
  reasoning_ne : reasoning ≠ some ""
  content_ne : content ≠ some ""
  indices : (calls.map ChatCall.index).Nodup
  fits : ∀ call ∈ calls, -2 ^ 31 ≤ call.index ∧ call.index < 2 ^ 31
  ids : ∀ call ∈ calls, call.id ≠ ""
  few : calls.length < 2 ^ 31

/-- The calls from a position on, with their positions as indices. -/
def atPositions (position : Nat) : List ChatCall → List ChatCall
  | [] => []
  | call :: rest => { call with index := position } :: atPositions (position + 1) rest

theorem mem_atPositions {call : ChatCall} : ∀ {calls : List ChatCall} {position : Nat},
    call ∈ atPositions position calls →
      (position : Int) ≤ call.index ∧ call.index < position + calls.length ∧
        ∃ original ∈ calls, call = { original with index := call.index } := by
  intro calls
  induction calls with
  | nil => exact nofun
  | cons head rest ih =>
      intro position h
      rw [List.length_cons]
      rcases List.mem_cons.mp h with rfl | h
      · exact ⟨Int.le_refl _, by simp only []; omega, head, List.mem_cons_self, rfl⟩
      · obtain ⟨hle, hlt, original, hmem, he⟩ := ih h
        exact ⟨by omega, by omega, original, List.mem_cons_of_mem _ hmem, he⟩

theorem length_atPositions (calls : List ChatCall) : ∀ position : Nat,
    (atPositions position calls).length = calls.length := by
  induction calls with
  | nil => exact fun _ => rfl
  | cons call rest ih => intro position; rw [atPositions, List.length_cons, ih, List.length_cons]

theorem nodup_atPositions (calls : List ChatCall) : ∀ position : Nat,
    ((atPositions position calls).map ChatCall.index).Nodup := by
  induction calls with
  | nil => exact fun _ => List.nodup_nil
  | cons call rest ih =>
      intro position
      rw [atPositions, List.map_cons, List.nodup_cons]
      refine ⟨fun h => ?_, ih (position + 1)⟩
      obtain ⟨other, hmem, he⟩ := List.mem_map.mp h
      have := (mem_atPositions hmem).1
      simp only at he
      omega

/-- What does not depend on the index of a call is the same at positions. -/
theorem map_atPositions {β : Type} {f : ChatCall → β}
    (hf : ∀ (call : ChatCall) (index : Int), f { call with index } = f call)
    (calls : List ChatCall) :
    ∀ position : Nat, (atPositions position calls).map f = calls.map f := by
  induction calls with
  | nil => exact fun _ => rfl
  | cons call rest ih => intro position; rw [atPositions, List.map_cons, hf, ih, List.map_cons]

/-- A completion whose calls have their positions as indices. -/
def ChatCompletion.atPositions (c : ChatCompletion) : ChatCompletion where
  reasoning := c.reasoning
  content := c.content
  calls := LLMQore.atPositions 0 c.calls
  finishReason := c.finishReason
  reasoning_ne := c.reasoning_ne
  content_ne := c.content_ne
  indices := nodup_atPositions c.calls 0
  fits call h := by
    obtain ⟨hle, hlt, -⟩ := mem_atPositions h
    have := c.few
    omega
  ids call h := by
    obtain ⟨-, -, original, hmem, he⟩ := mem_atPositions h
    rw [he]
    exact c.ids original hmem
  few := by rw [length_atPositions]; exact c.few

/-- What a fragment says of the tool call at its index: its id and name if it is the first,
and a piece of its arguments. -/
structure CallFragment where
  start : Option (String × String) := none
  arguments : Option String := none

/-- A call in one fragment. -/
def ChatCall.fragment (call : ChatCall) : Int × CallFragment :=
  (call.index, ⟨some (call.id, call.name), some call.arguments⟩)

/-- The delta of a chunk. -/
structure ChatDelta where
  reasoning : Option String := none
  content : Option String := none
  calls : List (Int × CallFragment) := []

inductive ChatItem where
  | reasoning (fragment : String)
  | content (fragment : String)
  | call (fragment : Int × CallFragment)

namespace ChatItem

def call? : ChatItem → Option (Int × CallFragment)
  | .call f => some f
  | _ => none

def content? : ChatItem → Option String
  | .content fragment => some fragment
  | _ => none

end ChatItem

/-- The items of a delta, in the order they are read. -/
def ChatDelta.items (d : ChatDelta) : List ChatItem :=
  d.reasoning.toList.map .reasoning ++ (d.content.toList.map .content ++ d.calls.map .call)

theorem ChatDelta.items_call? (d : ChatDelta) : d.items.filterMap ChatItem.call? = d.calls := by
  simp [ChatDelta.items, List.filterMap_append, List.filterMap_map, Function.comp_def,
    ChatItem.call?]

theorem ChatDelta.items_content? (d : ChatDelta) :
    d.items.filterMap ChatItem.content? = d.content.toList := by
  simp [ChatDelta.items, List.filterMap_append, List.filterMap_map, Function.comp_def,
    ChatItem.content?]

/-- A field that is left out where there is nothing to say. -/
def optionalField (key : String) (value : Option JsonValue) : List (String × JsonValue) :=
  value.toList.map fun v => (key, v)

def CallFragment.toJson (f : Int × CallFragment) : JsonObject :=
  JsonObject.ofFields (("index", .num f.1) ::
    (optionalField "id" (f.2.start.map fun s => .str s.1) ++
      [("function", .obj (JsonObject.ofFields
        (optionalField "name" (f.2.start.map fun s => .str s.2) ++
          optionalField "arguments" (f.2.arguments.map .str))))]))

def ChatDelta.toJson (d : ChatDelta) : JsonObject :=
  JsonObject.ofFields
    (optionalField "reasoning_content" (d.reasoning.map .str) ++
      (optionalField "content" (d.content.map .str) ++
        optionalField "tool_calls"
          (if d.calls.isEmpty then none
            else some (.arr (d.calls.map fun f => .obj (CallFragment.toJson f))))))

/-- A chunk; the last one has the finish reason. -/
def ChatDelta.chunk (d : ChatDelta) (finishReason : Option String) : JsonObject :=
  JsonObject.ofFields [("object", .str "chat.completion.chunk"),
    ("choices", .arr [.obj (JsonObject.ofFields
      [("index", .num 0), ("delta", .obj d.toJson),
        ("finish_reason", (finishReason.map .str).getD .null)])])]

/-- The items of a stream: the reasoning, the content and the tool calls in fragments, in
this order; the tool calls start in order, and their fragments interleave. -/
structure ChatCompletion.Streams (c : ChatCompletion) (deltas : List ChatDelta)
    (reasonings contents : List String) (fragments : List (Int × CallFragment)) : Prop where
  items : deltas.flatMap ChatDelta.items =
    reasonings.map .reasoning ++ (contents.map .content ++ fragments.map .call)
  reasoning : String.join reasonings = c.reasoning.getD ""
  /-- Where there is no reasoning there is no fragment of it. -/
  silent : c.reasoning = none → reasonings = []
  content : String.join contents = c.content.getD ""
  starts : (fragments.filterMap fun f => f.2.start.map fun s => (f.1, s)) =
    c.calls.map fun call => (call.index, call.id, call.name)
  /-- The fragments of a call: the first one starts it. -/
  lanes : ∀ call ∈ c.calls, ∃ first rest, lane call.index fragments =
    ⟨some (call.id, call.name), first⟩ :: rest ∧ (∀ f ∈ rest, f.start = none) ∧
      String.join (first.toList ++ rest.filterMap CallFragment.arguments) = call.arguments
  /-- There are no others. -/
  known : ∀ f ∈ fragments, f.1 ∈ c.calls.map ChatCall.index

/-- The chunks of a stream. -/
def streamedChunks (c : ChatCompletion) (deltas : List ChatDelta) (last : ChatDelta) :
    List JsonObject :=
  deltas.map (fun d => d.chunk none) ++ [last.chunk (some c.finishReason)]

def ChatCall.toJson (call : ChatCall) : JsonObject :=
  JsonObject.ofFields [("id", .str call.id), ("type", .str "function"),
    ("function", .obj (JsonObject.ofFields
      [("name", .str call.name), ("arguments", .str call.arguments)]))]

/-- The message of a buffered completion. -/
def ChatCompletion.message (c : ChatCompletion) : JsonObject :=
  JsonObject.ofFields
    (("role", .str "assistant") :: (optionalField "reasoning_content" (c.reasoning.map .str) ++
      (("content", (c.content.map .str).getD .null) ::
        optionalField "tool_calls"
          (if c.calls.isEmpty then none
            else some (.arr (c.calls.map fun call => .obj call.toJson))))))

/-- The body of a buffered completion. -/
def bufferedCompletion (c : ChatCompletion) : JsonObject :=
  JsonObject.ofFields [("object", .str "chat.completion"),
    ("choices", .arr [.obj (JsonObject.ofFields
      [("index", .num 0), ("message", .obj c.message),
        ("finish_reason", .str c.finishReason)])])]

/-! ### Reading the chunks -/

namespace OpenAIMessage

/-- What the start of a tool call does. -/
def takeStart (m : OpenAIMessage) (f : Int × CallFragment) : OpenAIMessage :=
  match f.2.start with
  | none => m
  | some (id, name) => m.handleToolCallStart f.1 id name

/-- What a fragment of a tool call does. -/
def takeFragment (m : OpenAIMessage) (f : Int × CallFragment) : OpenAIMessage :=
  match f.2.arguments with
  | none => m.takeStart f
  | some arguments =>
      { m.takeStart f with toolCalls := (m.takeStart f).toolCalls.delta f.1 arguments }

/-- What an item does. -/
def takeItem (m : OpenAIMessage) : ChatItem → OpenAIMessage
  | .reasoning fragment => m.handleReasoningDelta fragment
  | .content fragment => if fragment.isEmpty then m else m.handleContentDelta fragment
  | .call f => m.takeFragment f

/-- What a finish reason does. -/
def takeReason (codec : JsonCodec) (m : OpenAIMessage) (finishReason : String) : OpenAIMessage :=
  if finishReason.isEmpty || finishReason = "null" then m else m.finish codec finishReason

theorem toInt_int {i : Int} (h : -2 ^ 31 ≤ i ∧ i < 2 ^ 31) :
    (JsonValue.num (i : Rat)).toInt = i := by
  rw [JsonValue.toInt, if_pos ⟨Rat.den_intCast i, by rwa [Rat.num_intCast]⟩, Rat.num_intCast]

theorem handleToolCall_toJson (m : OpenAIMessage) {f : Int × CallFragment}
    (hfits : -2 ^ 31 ≤ f.1 ∧ f.1 < 2 ^ 31) (hid : ∀ s, f.2.start = some s → s.1 ≠ "") :
    m.handleToolCall (CallFragment.toJson f) = m.takeFragment f := by
  have hint := toInt_int hfits
  obtain ⟨index, start, arguments⟩ := f
  cases start with
  | none =>
      cases arguments <;>
        simp [handleToolCall, takeFragment, takeStart, CallFragment.toJson, optionalField,
          JsonObject.ofFields, JsonObject.value_insert, JsonObject.contains_insert_str, hint]
  | some s =>
      obtain ⟨id, name⟩ := s
      have hne : id ≠ "" := hid _ rfl
      cases arguments <;>
        simp [handleToolCall, takeFragment, takeStart, CallFragment.toJson, optionalField,
          JsonObject.ofFields, JsonObject.value_insert, JsonObject.contains_insert_str, hint, hne]

theorem handleToolCalls_toJson : ∀ (calls : List (Int × CallFragment)) (m : OpenAIMessage),
    (∀ f ∈ calls, (-2 ^ 31 ≤ f.1 ∧ f.1 < 2 ^ 31) ∧ ∀ s, f.2.start = some s → s.1 ≠ "") →
    m.handleToolCalls (calls.map fun f => .obj (CallFragment.toJson f)) =
      calls.foldl takeFragment m := by
  intro calls
  induction calls with
  | nil => exact fun m _ => rfl
  | cons f rest ih =>
      intro m h
      obtain ⟨⟨hfits, hid⟩, hrest⟩ := List.forall_mem_cons.mp h
      have hcall := handleToolCall_toJson m hfits hid
      rw [List.foldl_cons, ← ih _ hrest, ← hcall]
      rfl

/-- The reasoning and the text of a delta. -/
theorem takeReasoningAndText_eq (m : OpenAIMessage) {source : JsonObject}
    (reasoning content : Option String)
    (hr : source.value "reasoning_content" = (reasoning.map JsonValue.str).getD .undefined)
    (hc : source.value "content" = (content.map JsonValue.str).getD .undefined ∨
      source.value "content" = (content.map JsonValue.str).getD .null) :
    m.takeReasoningAndText source =
      (reasoning.toList.foldl handleReasoningDelta m, content.getD "") := by
  have hreasoning : m.takeReasoning source = reasoning.toList.foldl handleReasoningDelta m := by
    unfold takeReasoning
    rw [hr]
    cases reasoning <;> rfl
  unfold takeReasoningAndText
  rw [hreasoning]
  cases content with
  | none =>
      rcases hc with hc | hc <;>
        simp only [hc, Option.map_none, Option.getD_none, isAbsent] <;> rfl
  | some content =>
      rcases hc with hc | hc <;>
        simp only [hc, Option.map_some, Option.getD_some, isAbsent] <;> rfl

/-- A choice whose delta has these items. -/
theorem applyChoice_eq (codec : JsonCodec) (m : OpenAIMessage) (usage : JsonObject)
    {choice : JsonObject} (d : ChatDelta) {calls : List JsonValue}
    (hr : (choice.value "delta").toObject.value "reasoning_content" =
      (d.reasoning.map JsonValue.str).getD .undefined)
    (hc : (choice.value "delta").toObject.value "content" =
        (d.content.map JsonValue.str).getD .undefined ∨
      (choice.value "delta").toObject.value "content" = (d.content.map JsonValue.str).getD .null)
    (hcalls : ((choice.value "delta").toObject.value "tool_calls").toArray = calls)
    (htake : ∀ m : OpenAIMessage, m.handleToolCalls calls = d.calls.foldl takeFragment m) :
    (m.applyChoice codec usage choice).1 =
        (d.items.foldl takeItem m).takeReason codec (choice.value "finish_reason").toString ∧
      (m.applyChoice codec usage choice).2.chunk = d.content.getD "" := by
  have hitems : d.items.foldl takeItem m = d.calls.foldl takeFragment
      (if (d.content.getD "").isEmpty then d.reasoning.toList.foldl handleReasoningDelta m
        else (d.reasoning.toList.foldl handleReasoningDelta m).handleContentDelta
          (d.content.getD "")) := by
    rw [ChatDelta.items, List.foldl_append, List.foldl_append, List.foldl_map, List.foldl_map,
      List.foldl_map]
    cases d.content <;> rfl
  simp only [applyChoice, takeReasoningAndText_eq m d.reasoning d.content hr hc, hcalls, htake,
    ← hitems, takeReason]
  split <;> exact ⟨rfl, rfl⟩

/-- The calls of a delta can be read: their indices are `int`s and the calls have ids. -/
def Readable (fragments : List (Int × CallFragment)) : Prop :=
  ∀ f ∈ fragments, (-2 ^ 31 ≤ f.1 ∧ f.1 < 2 ^ 31) ∧ ∀ s, f.2.start = some s → s.1 ≠ ""

theorem applyEvent_chunk (codec : JsonCodec) (m : OpenAIMessage) {d : ChatDelta}
    (h : Readable d.calls) (finishReason : Option String) :
    (m.applyEvent codec (d.chunk finishReason)).1 =
        (d.items.foldl takeItem m).takeReason codec (finishReason.getD "") ∧
      (m.applyEvent codec (d.chunk finishReason)).2.chunk = d.content.getD "" := by
  have hreads : d.toJson.value "reasoning_content" =
        (d.reasoning.map JsonValue.str).getD .undefined ∧
      d.toJson.value "content" = (d.content.map JsonValue.str).getD .undefined ∧
      (d.toJson.value "tool_calls").toArray =
        d.calls.map fun f => .obj (CallFragment.toJson f) := by
    obtain ⟨reasoning, content, calls⟩ := d
    cases reasoning <;> cases content <;> cases calls <;>
      simp [ChatDelta.toJson, optionalField, JsonObject.ofFields, JsonObject.value_insert,
        JsonValue.toArray]
  obtain ⟨hr, hc, hcalls⟩ := hreads
  let choice := JsonObject.ofFields
    [("index", .num 0), ("delta", .obj d.toJson),
      ("finish_reason", (finishReason.map JsonValue.str).getD .null)]
  have hdelta : (choice.value "delta").toObject = d.toJson := by
    cases finishReason <;> simp [choice, JsonObject.ofFields, JsonObject.value_insert]
  have hfinish : (choice.value "finish_reason").toString = finishReason.getD "" := by
    cases finishReason <;>
      simp [choice, JsonObject.ofFields, JsonObject.value_insert, JsonValue.toString]
  have hchunk : m.applyEvent codec (d.chunk finishReason) = m.applyChoice codec [] choice := by
    simp [applyEvent, ChatDelta.chunk, errorIn, JsonObject.ofFields, JsonObject.value_insert,
      JsonValue.isObject, JsonValue.isString, choice]
  rw [hchunk, ← hfinish]
  refine applyChoice_eq codec m [] d ?_ (.inl ?_) ?_ fun m' => handleToolCalls_toJson d.calls m' h
  · rw [hdelta, hr]
  · rw [hdelta, hc]
  · rw [hdelta, hcalls]

/-! ### The buffered completion -/

/-- A completion as one delta. -/
def whole (c : ChatCompletion) : ChatDelta where
  reasoning := c.reasoning
  content := c.content
  calls := c.atPositions.calls.map ChatCall.fragment

theorem handleToolCall_indexed (m : OpenAIMessage) (call : ChatCall) (hid : call.id ≠ "")
    (position : Nat) (h : position < 2 ^ 31) :
    m.handleToolCall (call.toJson.insert "index" (.num position)) =
      m.takeFragment (ChatCall.fragment { call with index := position }) := by
  have hint : (JsonValue.num (position : Rat)).toInt = position :=
    toInt_int (i := position) (by omega)
  simp [handleToolCall, takeFragment, takeStart, ChatCall.fragment, ChatCall.toJson,
    JsonObject.ofFields, JsonObject.value_insert, JsonObject.contains_insert_str, hint, hid]

theorem handleToolCalls_indexedCalls : ∀ (calls : List ChatCall) (position : Nat)
    (m : OpenAIMessage), (∀ call ∈ calls, call.id ≠ "") → position + calls.length ≤ 2 ^ 31 →
    m.handleToolCalls (indexedCalls position (calls.map fun call => .obj call.toJson)) =
      ((atPositions position calls).map ChatCall.fragment).foldl takeFragment m := by
  intro calls
  induction calls with
  | nil => exact fun _ _ _ _ => rfl
  | cons call rest ih =>
      intro position m hids hlen
      obtain ⟨hid, hids⟩ := List.forall_mem_cons.mp hids
      rw [List.length_cons] at hlen
      have hvalue :
          ((call.toJson.insert "index" (.num position)).value "id").toString = call.id := by
        simp [ChatCall.toJson, JsonObject.ofFields, JsonObject.value_insert]
      have hcall := handleToolCall_indexed m call hid position (by omega)
      rw [atPositions, List.map_cons, List.map_cons, List.foldl_cons, ← hcall,
        ← ih (position + 1) _ hids (by omega)]
      simp [indexedCalls, hvalue, hid, handleToolCalls]

/-- A buffered completion is read as one delta. -/
theorem applyResponse_bufferedCompletion (codec : JsonCodec) (m : OpenAIMessage)
    (c : ChatCompletion) :
    (m.applyResponse codec (bufferedCompletion c)).1 =
        ((whole c).items.foldl takeItem m).takeReason codec c.finishReason ∧
      (m.applyResponse codec (bufferedCompletion c)).2.chunk = c.content.getD "" := by
  have hmessage : c.message.value "reasoning_content" =
        (c.reasoning.map JsonValue.str).getD .undefined ∧
      c.message.value "content" = (c.content.map JsonValue.str).getD .null ∧
      (c.message.value "tool_calls").toArray = c.calls.map fun call => .obj call.toJson := by
    obtain ⟨reasoning, content, calls⟩ := c
    cases reasoning <;> cases content <;> cases calls <;>
      simp [ChatCompletion.message, optionalField, JsonObject.ofFields, JsonObject.value_insert,
        JsonValue.toArray]
  obtain ⟨hr, hc, hcalls⟩ := hmessage
  let choice := JsonObject.ofFields
    [("index", .num 0), ("message", .obj c.message), ("finish_reason", .str c.finishReason)]
  have hchoice : choice.value "message" = .obj c.message := by
    simp [choice, JsonObject.ofFields, JsonObject.value_insert]
  have hfinish : ((bufferedChoiceAsDelta choice).value "finish_reason").toString =
      c.finishReason := by
    rw [bufferedChoiceAsDelta, JsonObject.value_insert_ne _ _ (by decide), JsonObject.remove,
      JsonObject.value_filter_ne _ (by decide)]
    simp [choice, JsonObject.ofFields, JsonObject.value_insert]
  -- the delta is the message, with its calls at their positions
  have hdelta : ((bufferedChoiceAsDelta choice).value "delta").toObject =
      if c.calls.isEmpty then c.message
      else c.message.insert "tool_calls"
        (.arr (indexedCalls 0 (c.calls.map fun call => .obj call.toJson))) := by
    simp only [bufferedChoiceAsDelta, hchoice, JsonValue.toObject_obj, hcalls,
      JsonObject.value_insert_obj, List.isEmpty_map]
  have hother : ∀ key, key ≠ "tool_calls" →
      ((bufferedChoiceAsDelta choice).value "delta").toObject.value key = c.message.value key := by
    intro key hkey
    rw [hdelta]
    split
    · rfl
    · exact JsonObject.value_insert_ne _ _ hkey.symm
  have hindexed : (((bufferedChoiceAsDelta choice).value "delta").toObject.value
      "tool_calls").toArray = indexedCalls 0 (c.calls.map fun call => .obj call.toJson) := by
    rw [hdelta]
    split
    · rename_i hempty
      rw [hcalls, List.isEmpty_iff.mp hempty]
      rfl
    · rw [JsonObject.value_insert_arr]
      rfl
  have happly : m.applyResponse codec (bufferedCompletion c) =
      m.applyChoice codec [] (bufferedChoiceAsDelta choice) := by
    simp [applyResponse, applyEvent, bufferedCompletion, errorIn, JsonObject.ofFields,
      JsonObject.value_insert, JsonValue.isObject, JsonValue.isString, choice]
  rw [happly, ← hfinish]
  refine applyChoice_eq codec m [] (whole c) ?_ (.inr ?_) hindexed fun m' =>
    handleToolCalls_indexedCalls c.calls 0 m' c.ids (by have := c.few; omega)
  · rw [hother _ (by decide), hr]
    rfl
  · rw [hother _ (by decide), hc]
    rfl

end OpenAIMessage

/-! ### What a completion says -/

def ChatCall.block (codec : JsonCodec) (call : ChatCall) : TurnContent :=
  .toolUse ⟨call.id, call.name, parseToolArguments codec call.arguments⟩

/-- The tool use of a call that has only started. -/
def ChatCall.opened (call : ChatCall) : TurnContent := .toolUse ⟨call.id, call.name, []⟩

def reasoningBlocks (reasoning : Option String) : List TurnContent :=
  reasoning.toList.map fun t => .thinking { thinking := t }

def textBlocks (text : String) : List TurnContent := if text.isEmpty then [] else [.text ⟨text⟩]

/-- The blocks before the tool uses. -/
def ChatCompletion.heads (c : ChatCompletion) : List TurnContent :=
  reasoningBlocks c.reasoning ++ textBlocks (c.content.getD "")

/-- The blocks of a completion. -/
def ChatCompletion.blocks (codec : JsonCodec) (c : ChatCompletion) : List TurnContent :=
  c.heads ++ c.calls.map (ChatCall.block codec)

theorem getElem?_changeBlock (m : BaseMessage) (index p : Nat) (f : TurnContent → TurnContent) :
    (m.changeBlock index f).currentBlocks[p]? =
      m.currentBlocks[p]?.map fun block => if index = p then f block else block :=
  List.getElem?_modify f index m.currentBlocks p

namespace ToolCallAccumulator

variable {Key : Type} [DecidableEq Key] (codec : JsonCodec)

/-- What completing a call makes of its tool use, given what was collected. -/
def completed (json : String) : TurnContent → TurnContent :=
  if json.isEmpty then id
  else .onToolUse fun c => { c with input := parseToolArguments codec json }

theorem complete_of_lookup {a : ToolCallAccumulator Key} {m : BaseMessage} {key : Key}
    {json : String} {position : Nat} (hjson : a.pending.lookup key = some json)
    (hposition : a.blockIndex.lookup key = some position) :
    a.complete codec m key "" =
      ({ blockIndex := a.blockIndex.erase key, pending := a.pending.erase key },
        m.changeBlock position (completed codec json)) := by
  by_cases hempty : json.isEmpty
  · simp [complete, completed, hjson, hempty, BaseMessage.changeBlock]
  · simp [complete, completed, hjson, hposition, hempty]

/-- Calls that are collected for different blocks are completed each in its own block. -/
theorem foldl_complete (json : Key → String) (position : Key → Nat) (keys : List Key) :
    ∀ (a : ToolCallAccumulator Key) (m : BaseMessage), keys.Nodup → (keys.map position).Nodup →
      (∀ key ∈ keys, a.pending.lookup key = some (json key)) →
      (∀ key ∈ keys, a.blockIndex.lookup key = some (position key)) →
      (∀ key ∈ keys, (keys.foldl (fun r key => r.1.complete codec r.2 key "")
          (a, m)).2.currentBlocks[position key]? =
        m.currentBlocks[position key]?.map (completed codec (json key))) ∧
      ∀ p, p ∉ keys.map position → (keys.foldl (fun r key => r.1.complete codec r.2 key "")
          (a, m)).2.currentBlocks[p]? = m.currentBlocks[p]? := by
  induction keys with
  | nil => exact fun _ _ _ _ _ _ => ⟨nofun, fun _ _ => rfl⟩
  | cons key rest ih =>
      intro a m hkeys hpositions hjson hposition
      obtain ⟨hkey, hkeys⟩ := List.nodup_cons.mp hkeys
      rw [List.map_cons] at hpositions
      obtain ⟨hfresh, hpositions⟩ := List.nodup_cons.mp hpositions
      have hne : ∀ k ∈ rest, k ≠ key := fun k hk he => hkey (he ▸ hk)
      rw [List.foldl_cons, complete_of_lookup codec (hjson key List.mem_cons_self)
        (hposition key List.mem_cons_self)]
      obtain ⟨hmem, hother⟩ := ih
        { blockIndex := a.blockIndex.erase key, pending := a.pending.erase key }
        (m.changeBlock (position key) (completed codec (json key))) hkeys hpositions
        (fun k hk => (AList.lookup_erase_ne (hne k hk)).trans
          (hjson k (List.mem_cons_of_mem _ hk)))
        (fun k hk => (AList.lookup_erase_ne (hne k hk)).trans
          (hposition k (List.mem_cons_of_mem _ hk)))
      refine ⟨fun k hk => ?_, fun p hp => ?_⟩
      · rcases List.mem_cons.mp hk with rfl | hk
        · simp [hother _ hfresh, getElem?_changeBlock]
        · have hpk : position key ≠ position k := fun he =>
            hfresh (he ▸ List.mem_map_of_mem hk)
          simp [hmem k hk, getElem?_changeBlock, hpk]
      · rw [List.map_cons, List.mem_cons, not_or] at hp
        simp [hother p hp.2, getElem?_changeBlock, Ne.symm hp.1]

end ToolCallAccumulator

namespace OpenAIMessage

theorem foldl_reasoning (fragments : List String) : ∀ (m : OpenAIMessage) (c : ThinkingContent),
    m.currentBlocks = [.thinking c] → m.currentThinkingIndex = some 0 →
    (fragments.foldl handleReasoningDelta m).currentBlocks =
        [.thinking { c with thinking := c.thinking ++ String.join fragments }] ∧
      (fragments.foldl handleReasoningDelta m).toolCalls = m.toolCalls := by
  induction fragments with
  | nil => intro m c hb _; simp [hb]
  | cons fragment rest ih =>
      intro m c hb hi
      have hindex : m.toBaseMessage.ensureThinkingContentIndex = (0, m.toBaseMessage) := by
        unfold BaseMessage.ensureThinkingContentIndex
        rw [hi, hb]
        rfl
      have hnext : (m.handleReasoningDelta fragment).currentBlocks =
          [.thinking { c with thinking := c.thinking ++ fragment }] := by
        simp [handleReasoningDelta, BaseMessage.appendThinkingDelta, hindex,
          BaseMessage.changeBlock, hb, TurnContent.onThinking]
      have hidx : (m.handleReasoningDelta fragment).currentThinkingIndex = some 0 := by
        simp [handleReasoningDelta, BaseMessage.appendThinkingDelta, hindex,
          BaseMessage.changeBlock, hi]
      obtain ⟨hblocks, hcalls⟩ := ih _ _ hnext hidx
      rw [List.foldl_cons, hblocks, hcalls, String.join_cons, String.append_assoc]
      exact ⟨rfl, rfl⟩

/-- The reasoning of a stream makes the reasoning block. -/
theorem foldl_reasonings {c : ChatCompletion} {reasonings : List String}
    (hjoin : String.join reasonings = c.reasoning.getD "")
    (hsilent : c.reasoning = none → reasonings = []) :
    (reasonings.foldl handleReasoningDelta {}).currentBlocks = reasoningBlocks c.reasoning ∧
      (reasonings.foldl handleReasoningDelta {}).toolCalls = {} := by
  cases hr : c.reasoning with
  | none =>
      rw [hsilent hr]
      exact ⟨rfl, rfl⟩
  | some r =>
      rw [hr, Option.getD_some] at hjoin
      cases reasonings with
      | nil => exact absurd (hr.trans (congrArg some hjoin.symm)) c.reasoning_ne
      | cons fragment rest =>
          obtain ⟨hblocks, hcalls⟩ := foldl_reasoning rest
            (handleReasoningDelta {} fragment) { thinking := fragment } rfl rfl
          rw [List.foldl_cons, hblocks, hcalls, ← hjoin, String.join_cons]
          exact ⟨rfl, rfl⟩

theorem modify_concat {α : Type} (xs : List α) (x : α) (f : α → α) :
    (xs ++ [x]).modify xs.length f = xs ++ [f x] :=
  List.modifyTailIdx_add (List.modifyHead f) 0 xs [x]

/-- A text is appended to the text block, which is made if there is none. -/
theorem handleContentDelta_blocks {m : OpenAIMessage} {before : List TurnContent} {text : String}
    (hbefore : ∀ block ∈ before, block.isText = false)
    (hb : m.currentBlocks = before ++ textBlocks text) (fragment : String) :
    (m.handleContentDelta fragment).currentBlocks = before ++ [.text ⟨text ++ fragment⟩] := by
  have hfind : before.findIdx? TurnContent.isText = none :=
    List.findIdx?_eq_none_iff.mpr hbefore
  by_cases he : text.isEmpty
  · have hnone : m.toBaseMessage.indexOfBlock TurnContent.isText = none := by
      rw [BaseMessage.indexOfBlock, hb, textBlocks, if_pos he, List.append_nil, hfind]
    simp only [handleContentDelta, BaseMessage.appendTextDelta, BaseMessage.setText,
      BaseMessage.ensureTextContentIndex, hnone, BaseMessage.addCurrentContent,
      BaseMessage.changeBlock, hb, textBlocks, if_pos he, List.append_nil]
    rw [modify_concat, String.isEmpty_iff.mp he]
    rfl
  · have hsome : m.toBaseMessage.indexOfBlock TurnContent.isText = some before.length := by
      rw [BaseMessage.indexOfBlock, hb, textBlocks, if_neg he, List.findIdx?_append, hfind]
      simp [TurnContent.isText]
    simp only [handleContentDelta, BaseMessage.appendTextDelta, BaseMessage.setText,
      BaseMessage.ensureTextContentIndex, hsome, BaseMessage.changeBlock, hb, textBlocks,
      if_neg he]
    rw [modify_concat]
    rfl

/-- The content of a stream makes the text block. -/
theorem foldl_contents {before : List TurnContent}
    (hbefore : ∀ block ∈ before, block.isText = false) (contents : List String) :
    ∀ (m : OpenAIMessage) (text : String), m.currentBlocks = before ++ textBlocks text →
      ((contents.map ChatItem.content).foldl takeItem m).currentBlocks =
          before ++ textBlocks (text ++ String.join contents) ∧
        ((contents.map ChatItem.content).foldl takeItem m).toolCalls = m.toolCalls := by
  induction contents with
  | nil => intro m text hb; simp [hb]
  | cons fragment rest ih =>
      intro m text hb
      rw [List.map_cons, List.foldl_cons, String.join_cons, ← String.append_assoc]
      by_cases he : fragment.isEmpty
      · have hsame : m.takeItem (.content fragment) = m := if_pos he
        rw [hsame, String.isEmpty_iff.mp he, String.append_empty]
        exact ih m text hb
      · have htake : m.takeItem (.content fragment) = m.handleContentDelta fragment := if_neg he
        have hne : ¬ (text ++ fragment).isEmpty := by
          simp only [String.isEmpty_iff, String.append_eq_empty_iff] at he ⊢
          exact fun h => he h.2
        have hnext := handleContentDelta_blocks hbefore hb fragment
        rw [htake]
        exact ih _ (text ++ fragment) (by rw [hnext, textBlocks, if_neg hne])

/-! ### Tool calls -/

/-- What a fragment makes of what is collected of the arguments of its call. -/
def takeArguments (collected : Option String) (f : CallFragment) : Option String :=
  (if f.start.isSome then some "" else collected).map (· ++ f.arguments.getD "")

theorem lookup_pending_takeFragment (m : OpenAIMessage) (f : Int × CallFragment) (key : Int) :
    (m.takeFragment f).toolCalls.pending.lookup key =
      if key = f.1 then takeArguments (m.toolCalls.pending.lookup key) f.2
      else m.toolCalls.pending.lookup key := by
  obtain ⟨index, start, arguments⟩ := f
  by_cases hk : key = index
  · subst hk
    cases start <;> cases arguments <;>
      simp [takeFragment, takeStart, handleToolCallStart, ToolCallAccumulator.lookup_pending_delta,
        ToolCallAccumulator.start, takeArguments]
  · cases start <;> cases arguments <;>
      simp [takeFragment, takeStart, handleToolCallStart, ToolCallAccumulator.lookup_pending_delta,
        ToolCallAccumulator.start, hk, AList.lookup_insert_ne hk]

/-- What is collected under an index comes from the fragments at the index. -/
theorem lookup_pending_fragments (m : OpenAIMessage) (fragments : List (Int × CallFragment))
    (key : Int) :
    (fragments.foldl takeFragment m).toolCalls.pending.lookup key =
      (lane key fragments).foldl takeArguments (m.toolCalls.pending.lookup key) := by
  refine (@view_foldl _ _ _ _ _ takeFragment (fun m key => m.toolCalls.pending.lookup key)
    (fun _ => takeArguments) (fun _ _ => True) (fun m i f rest _ => ⟨trivial, ?_, fun j hj => ?_⟩)
    fragments m trivial).2 key
  · rw [lookup_pending_takeFragment, if_pos rfl]
  · rw [lookup_pending_takeFragment, if_neg hj]

/-- The calls that have started, and those that are still to start, are all calls in order. -/
structure Calling (before : List TurnContent) (calls : List ChatCall) (m : OpenAIMessage)
    (rest : List (Int × CallFragment)) (n : Nat) : Prop where
  blocks : m.currentBlocks = before ++ (calls.take n).map ChatCall.opened
  starts : (rest.filterMap fun f => f.2.start.map fun s => (f.1, s)) =
    (calls.drop n).map fun call => (call.index, call.id, call.name)
  index : ∀ k call, k < n → calls[k]? = some call →
    m.toolCalls.blockIndex.lookup call.index = some (before.length + k)

theorem Calling.takeFragment {before : List TurnContent} {calls : List ChatCall}
    {m : OpenAIMessage} {f : Int × CallFragment} {rest : List (Int × CallFragment)} {n : Nat}
    (hindices : (calls.map ChatCall.index).Nodup) (h : Calling before calls m (f :: rest) n) :
    ∃ n', Calling before calls (m.takeFragment f) rest n' := by
  -- the arguments touch neither the blocks nor the positions
  have hargs : ∀ n', Calling before calls (m.takeStart f) rest n' →
      Calling before calls (m.takeFragment f) rest n' := by
    intro n' h'
    unfold OpenAIMessage.takeFragment
    split
    · exact h'
    · exact ⟨h'.blocks, h'.starts, fun k call hk hcall => by
        simpa using h'.index k call hk hcall⟩
  obtain ⟨index, start, arguments⟩ := f
  cases start with
  | none => exact ⟨n, hargs n ⟨h.blocks, by simpa using h.starts, h.index⟩⟩
  | some s =>
      obtain ⟨id, name⟩ := s
      have hstarts := h.starts
      rw [List.filterMap_cons] at hstarts
      have hn : n < calls.length := by
        by_contra hn
        rw [List.drop_eq_nil_of_le (by omega)] at hstarts
        cases hstarts
      rw [List.drop_eq_getElem_cons hn, List.map_cons] at hstarts
      obtain ⟨hcall, hrest⟩ := List.cons.inj hstarts
      obtain ⟨hindex, hid, hname⟩ : index = calls[n].index ∧ id = calls[n].id ∧
          name = calls[n].name := by simpa using hcall
      have hlen : m.currentBlocks.length = before.length + n := by
        rw [h.blocks, List.length_append, List.length_map, List.length_take,
          Nat.min_eq_left hn.le]
      refine ⟨n + 1, hargs (n + 1) ⟨?_, hrest, fun k call hk hget => ?_⟩⟩
      · rw [List.take_succ_eq_append_getElem hn, List.map_append, ← List.append_assoc, ← h.blocks]
        simp [takeStart, handleToolCallStart, BaseMessage.addCurrentContent, ChatCall.opened, hid,
          hname]
      · have hlookup : (m.takeStart (index, ⟨some (id, name), arguments⟩)).toolCalls.blockIndex =
            m.toolCalls.blockIndex.insert index (before.length + n) := by
          rw [← hlen]
          rfl
        rw [hlookup]
        by_cases hkn : k = n
        · subst hkn
          rw [List.getElem?_eq_getElem hn] at hget
          rw [← Option.some.inj hget, ← hindex, AList.lookup_insert]
        · have hne : call.index ≠ index := by
            intro he
            have hk' : k < (calls.map ChatCall.index).length := by
              rw [List.length_map]
              omega
            refine hkn ((List.getElem?_inj hk' hindices).mp ?_)
            rw [List.getElem?_map, List.getElem?_map, hget, List.getElem?_eq_getElem hn]
            simp [he, hindex]
          rw [AList.lookup_insert_ne hne]
          exact h.index k call (by omega) hget

/-- Once all fragments are read, all calls have started. -/
theorem calling_fragments {before : List TurnContent} {calls : List ChatCall}
    (hindices : (calls.map ChatCall.index).Nodup) (fragments : List (Int × CallFragment)) :
    ∀ (m : OpenAIMessage) (n : Nat), Calling before calls m fragments n →
      ∃ n', Calling before calls (fragments.foldl takeFragment m) [] n' := by
  induction fragments with
  | nil => exact fun m n h => ⟨n, h⟩
  | cons f rest ih =>
      intro m n h
      obtain ⟨n', h'⟩ := h.takeFragment hindices
      exact ih _ n' h'

theorem foldl_takeArguments (rest : List CallFragment) (h : ∀ f ∈ rest, f.start = none) :
    ∀ collected : String, rest.foldl takeArguments (some collected) =
      some (collected ++ String.join (rest.filterMap CallFragment.arguments)) := by
  induction rest with
  | nil => simp
  | cons f rest ih =>
      intro collected
      obtain ⟨hf, hrest⟩ := List.forall_mem_cons.mp h
      obtain ⟨start, arguments⟩ := f
      obtain rfl : start = none := hf
      rw [List.foldl_cons]
      cases arguments with
      | none => simpa [takeArguments] using ih hrest collected
      | some arguments =>
          simpa [takeArguments, String.join_cons, String.append_assoc] using
            ih hrest (collected ++ arguments)

/-- The fragments of a call collect its arguments. -/
theorem foldl_takeArguments_lane {start : String × String} {first : Option String}
    {rest : List CallFragment} (h : ∀ f ∈ rest, f.start = none) :
    (⟨some start, first⟩ :: rest).foldl takeArguments none =
      some (String.join (first.toList ++ rest.filterMap CallFragment.arguments)) := by
  rw [List.foldl_cons]
  have hfirst : takeArguments none ⟨some start, first⟩ = some (first.getD "") := by
    simp [takeArguments]
  rw [hfirst, foldl_takeArguments rest h, String.join_append]
  cases first <;> simp

/-- A message in which the calls of a completion are collected. -/
structure Collected (c : ChatCompletion) (m : OpenAIMessage) : Prop where
  blocks : m.currentBlocks = c.heads ++ c.calls.map ChatCall.opened
  index : ∀ k call, c.calls[k]? = some call →
    m.toolCalls.blockIndex.lookup call.index = some (c.heads.length + k)
  arguments : ∀ call ∈ c.calls, m.toolCalls.pending.lookup call.index = some call.arguments
  keys : ∀ key ∈ m.toolCalls.pending.keys, key ∈ c.calls.map ChatCall.index

/-- When the finish reason comes, the tool uses get their inputs. -/
theorem Collected.finish_blocks {c : ChatCompletion} {m : OpenAIMessage} (h : Collected c m)
    (codec : JsonCodec) (finishReason : String) :
    (m.finish codec finishReason).currentBlocks = c.blocks codec := by
  let json := fun key => (m.toolCalls.pending.lookup key).getD ""
  let position := fun key => (m.toolCalls.blockIndex.lookup key).getD 0
  -- every key is the index of a call
  have hkey : ∀ key ∈ m.toolCalls.pending.keys, ∃ (k : Nat) (call : ChatCall),
      c.calls[k]? = some call ∧ call.index = key := by
    intro key hmem
    obtain ⟨call, hcall, rfl⟩ := List.mem_map.mp (h.keys key hmem)
    obtain ⟨k, hk⟩ := List.mem_iff_getElem?.mp hcall
    exact ⟨k, call, hk, rfl⟩
  have hposition : ∀ k call, c.calls[k]? = some call →
      position call.index = c.heads.length + k := by
    intro k call hk
    simp only [position]
    rw [h.index k call hk, Option.getD_some]
  have hnodup : (m.toolCalls.pending.keys.map position).Nodup := by
    refine List.Nodup.map_on (fun x hx y hy he => ?_) m.toolCalls.pending.keys_nodup
    obtain ⟨k, call, hk, rfl⟩ := hkey x hx
    obtain ⟨l, call', hl, rfl⟩ := hkey y hy
    rw [hposition k call hk, hposition l call' hl] at he
    obtain rfl : k = l := by omega
    rw [hk] at hl
    rw [Option.some.inj hl]
  obtain ⟨hmem, hother⟩ := ToolCallAccumulator.foldl_complete codec json position
    m.toolCalls.pending.keys m.toolCalls m.toBaseMessage m.toolCalls.pending.keys_nodup hnodup
    (fun key hmem => by
      obtain ⟨k, call, hk, rfl⟩ := hkey key hmem
      simp [json, h.arguments call (List.mem_of_getElem? hk)])
    (fun key hmem => by
      obtain ⟨k, call, hk, rfl⟩ := hkey key hmem
      rw [h.index k call hk, hposition k call hk])
  have himage : ∀ p, (∀ k call, p = c.heads.length + k → c.calls[k]? ≠ some call) →
      p ∉ m.toolCalls.pending.keys.map position := by
    intro p hp hin
    obtain ⟨key, hkeyin, rfl⟩ := List.mem_map.mp hin
    obtain ⟨k, call, hk, rfl⟩ := hkey key hkeyin
    exact hp k call (hposition k call hk) hk
  have hfinish : (m.finish codec finishReason).currentBlocks =
      (m.toolCalls.pending.keys.foldl (fun r key => r.1.complete codec r.2 key "")
        (m.toolCalls, m.toBaseMessage)).2.currentBlocks := rfl
  rw [hfinish]
  refine List.ext_getElem? fun p => ?_
  by_cases hp : p < c.heads.length
  · rw [hother p (himage p fun k call he => by omega), h.blocks, ChatCompletion.blocks,
      List.getElem?_append_left hp, List.getElem?_append_left hp]
  · obtain ⟨k, rfl⟩ : ∃ k, p = c.heads.length + k := ⟨p - c.heads.length, by omega⟩
    have hopened : m.currentBlocks[c.heads.length + k]? = c.calls[k]?.map ChatCall.opened := by
      rw [h.blocks, List.getElem?_append_right (by omega), Nat.add_sub_cancel_left,
        List.getElem?_map]
    have hblock :
        (c.blocks codec)[c.heads.length + k]? = c.calls[k]?.map (ChatCall.block codec) := by
      rw [ChatCompletion.blocks, List.getElem?_append_right (by omega), Nat.add_sub_cancel_left,
        List.getElem?_map]
    rw [hblock]
    cases hk : c.calls[k]? with
    | none =>
        rw [hother _ (himage _ fun l call he => ?_), hopened, hk]
        · rfl
        · obtain rfl : k = l := by omega
          rw [hk]
          exact nofun
    | some call =>
        have harguments := h.arguments call (List.mem_of_getElem? hk)
        have hin : call.index ∈ m.toolCalls.pending.keys :=
          AList.mem_keys.mp (AList.lookup_isSome.mp (by rw [harguments]; rfl))
        have hblocks := hmem call.index hin
        rw [hposition k call hk, hopened, hk] at hblocks
        rw [hblocks]
        simp only [Option.map_some, json, harguments, Option.getD_some, ChatCall.opened,
          ChatCall.block, ToolCallAccumulator.completed]
        by_cases hempty : call.arguments.isEmpty
        · simp [hempty, parseToolArguments]
        · simp [hempty, TurnContent.onToolUse]

theorem heads_isText (c : ChatCompletion) : ∀ block ∈ reasoningBlocks c.reasoning,
    block.isText = false := by
  intro block h
  obtain ⟨t, -, rfl⟩ := List.mem_map.mp h
  rfl

/-- The items of a stream collect its completion. -/
theorem collected_of_streams {c : ChatCompletion} {deltas : List ChatDelta}
    {reasonings contents : List String} {fragments : List (Int × CallFragment)}
    (h : c.Streams deltas reasonings contents fragments) :
    Collected c ((deltas.flatMap ChatDelta.items).foldl takeItem {}) := by
  obtain ⟨hreasoning, hnone⟩ := foldl_reasonings h.reasoning h.silent
  obtain ⟨hcontent, hcalls⟩ := foldl_contents (heads_isText c) contents
    (reasonings.foldl handleReasoningDelta {}) "" (by simp [hreasoning, textBlocks])
  have hitems : (deltas.flatMap ChatDelta.items).foldl takeItem {} =
      fragments.foldl takeFragment ((contents.map ChatItem.content).foldl takeItem
        (reasonings.foldl handleReasoningDelta {})) := by
    simp only [h.items, List.foldl_append, List.foldl_map]
    rfl
  generalize (contents.map ChatItem.content).foldl takeItem
    (reasonings.foldl handleReasoningDelta {}) = m at hcontent hcalls hitems
  have hheads : m.currentBlocks = c.heads := by
    rw [hcontent, String.empty_append, h.content]
    rfl
  have hempty : m.toolCalls = {} := hcalls.trans hnone
  obtain ⟨n, hcalling⟩ := calling_fragments c.indices fragments m 0
    ⟨by simpa using hheads, by simpa using h.starts, fun k call hk => absurd hk k.not_lt_zero⟩
  have hpending := lookup_pending_fragments m fragments
  rw [hitems]
  generalize fragments.foldl takeFragment m = m' at hcalling hpending
  -- no call is left to start
  have hn : c.calls.length ≤ n := by
    have := hcalling.starts
    rw [List.filterMap_nil] at this
    exact List.drop_eq_nil_iff.mp (List.map_eq_nil_iff.mp this.symm)
  have hnone : ∀ key, m.toolCalls.pending.lookup key = none := by
    intro key
    rw [hempty]
    rfl
  refine ⟨?_, fun k call hk => ?_, fun call hcall => ?_, fun key hkey => ?_⟩
  · rw [hcalling.blocks, List.take_of_length_le hn]
  · exact hcalling.index k call (by have := (List.getElem?_eq_some_iff.mp hk).1; omega) hk
  · obtain ⟨first, rest, hlane, hrest, hjoin⟩ := h.lanes call hcall
    rw [hpending, hnone, hlane, foldl_takeArguments_lane hrest, hjoin]
  · by_contra hunknown
    have hlane : lane key fragments = [] :=
      lane_eq_nil fun f hf he => hunknown (he ▸ h.known f hf)
    have hlookup := hpending key
    rw [hnone, hlane, List.foldl_nil] at hlookup
    have hsome := AList.lookup_isSome.mpr (AList.mem_keys.mpr hkey)
    rw [hlookup] at hsome
    cases hsome

theorem join_toList (s : Option String) : String.join s.toList = s.getD "" := by
  cases s <;> simp

/-- A completion is its own stream, in one chunk. -/
theorem streams_whole (c : ChatCompletion) :
    c.atPositions.Streams [whole c] c.reasoning.toList c.content.toList
      (c.atPositions.calls.map ChatCall.fragment) where
  items := by simp [ChatDelta.items, whole]
  reasoning := join_toList c.reasoning
  silent h := by
    have h : c.reasoning = none := h
    rw [h]
    rfl
  content := join_toList c.content
  starts := by simp [List.filterMap_map, Function.comp_def, ChatCall.fragment]
  lanes call hcall := ⟨some call.arguments, [], lane_map c.atPositions.indices hcall,
    nofun, by simp⟩
  known f hf := by
    obtain ⟨call, hcall, rfl⟩ := List.mem_map.mp hf
    exact List.mem_map_of_mem hcall

/-- What a completion says does not depend on the indices of its calls. -/
theorem blocks_atPositions (codec : JsonCodec) (c : ChatCompletion) :
    c.atPositions.blocks codec = c.blocks codec ∧
      c.atPositions.heads ++ c.atPositions.calls.map ChatCall.opened =
        c.heads ++ c.calls.map ChatCall.opened :=
  ⟨congrArg (c.heads ++ ·) (map_atPositions (fun _ _ => rfl) c.calls 0),
    congrArg (c.heads ++ ·) (map_atPositions (fun _ _ => rfl) c.calls 0)⟩

/-- No item changes the state or the stop reason. -/
theorem takeItem_state (m : OpenAIMessage) (item : ChatItem) :
    (m.takeItem item).state = m.state ∧ (m.takeItem item).stopReason = m.stopReason := by
  cases item with
  | reasoning fragment =>
      simp only [takeItem, handleReasoningDelta, BaseMessage.appendThinkingDelta,
        BaseMessage.ensureThinkingContentIndex, BaseMessage.changeBlock]
      split
      · exact ⟨rfl, rfl⟩
      · split <;> exact ⟨rfl, rfl⟩
  | content fragment =>
      simp only [takeItem, handleContentDelta, BaseMessage.appendTextDelta, BaseMessage.setText,
        BaseMessage.ensureTextContentIndex, BaseMessage.changeBlock]
      split
      · exact ⟨rfl, rfl⟩
      · split <;> exact ⟨rfl, rfl⟩
  | call f =>
      obtain ⟨index, start, arguments⟩ := f
      cases start <;> cases arguments <;> exact ⟨rfl, rfl⟩

theorem foldl_takeItem_state (items : List ChatItem) : ∀ m : OpenAIMessage,
    (items.foldl takeItem m).state = m.state ∧
      (items.foldl takeItem m).stopReason = m.stopReason := by
  induction items with
  | nil => exact fun _ => ⟨rfl, rfl⟩
  | cons item rest ih =>
      intro m
      obtain ⟨hstate, hreason⟩ := ih (m.takeItem item)
      obtain ⟨hs, hr⟩ := takeItem_state m item
      exact ⟨hstate.trans hs, hreason.trans hr⟩

/-- Chunks are read item by item. -/
theorem applyEvents_streamedChunks (codec : JsonCodec) (c : ChatCompletion) (last : ChatDelta) :
    ∀ (deltas : List ChatDelta) (m : OpenAIMessage),
      Readable ((deltas ++ [last]).flatMap ChatDelta.calls) →
      applyEvents (applyEvent codec) m (streamedChunks c deltas last) =
        ((((deltas ++ [last]).flatMap ChatDelta.items).foldl takeItem m).takeReason codec
            c.finishReason,
          String.join ((deltas ++ [last]).map fun d => d.content.getD "")) := by
  intro deltas
  induction deltas with
  | nil =>
      intro m h
      obtain ⟨hmessage, hchunk⟩ := applyEvent_chunk codec m (d := last) (by simpa using h)
        (some c.finishReason)
      simp [streamedChunks, applyEvents, hmessage, hchunk]
  | cons d rest ih =>
      intro m h
      rw [List.cons_append, List.flatMap_cons] at h
      obtain ⟨hmessage, hchunk⟩ := applyEvent_chunk codec m (d := d)
        (fun f hf => h f (List.mem_append_left _ hf)) none
      have hrest := ih (d.items.foldl takeItem m) fun f hf => h f (List.mem_append_right _ hf)
      have hnone : ∀ m : OpenAIMessage, m.takeReason codec ((none : Option String).getD "") = m :=
        fun _ => rfl
      rw [hnone] at hmessage
      have hcons : streamedChunks c (d :: rest) last =
          d.chunk none :: streamedChunks c rest last := rfl
      rw [hcons, applyEvents, hmessage, hchunk, hrest]
      simp [String.join_cons]

/-- The calls and the content in the chunks of a stream. -/
theorem streams_chunks {c : ChatCompletion} {deltas : List ChatDelta}
    {reasonings contents : List String} {fragments : List (Int × CallFragment)}
    (h : c.Streams deltas reasonings contents fragments) :
    Readable (deltas.flatMap ChatDelta.calls) ∧
      String.join (deltas.map fun d => d.content.getD "") = c.content.getD "" := by
  have hcalls : deltas.flatMap ChatDelta.calls = fragments := by
    have := congrArg (List.filterMap ChatItem.call?) h.items
    simpa [List.filterMap_flatMap, ChatDelta.items_call?, List.filterMap_append,
      List.filterMap_map, Function.comp_def, ChatItem.call?] using this
  have hcontents : deltas.flatMap (fun d => d.content.toList) = contents := by
    have := congrArg (List.filterMap ChatItem.content?) h.items
    simpa [List.filterMap_flatMap, ChatDelta.items_content?, List.filterMap_append,
      List.filterMap_map, Function.comp_def, ChatItem.content?] using this
  refine ⟨?_, ?_⟩
  · rw [hcalls]
    intro f hf
    obtain ⟨call, hcall, hindex⟩ := List.mem_map.mp (h.known f hf)
    refine ⟨hindex ▸ c.fits call hcall, fun start hstart => ?_⟩
    have hmem : (f.1, start) ∈ fragments.filterMap fun f => f.2.start.map fun s => (f.1, s) :=
      List.mem_filterMap.mpr ⟨f, hf, by rw [hstart]; rfl⟩
    rw [h.starts] at hmem
    obtain ⟨call, hcall, he⟩ := List.mem_map.mp hmem
    rw [← (Prod.mk.inj he).2]
    exact c.ids call hcall
  · rw [← h.content, ← hcontents]
    clear h hcalls hcontents
    induction deltas with
    | nil => rfl
    | cons d rest ih =>
        rw [List.map_cons, String.join_cons, List.flatMap_cons, String.join_append, ih,
          join_toList]

/-- What a finish reason makes of a message depends on what is collected in it. -/
theorem Collected.takeReason_eq {c : ChatCompletion} {m m' : OpenAIMessage} (h : Collected c m)
    (h' : Collected c.atPositions m') (hs : m.state = m'.state)
    (hr : m.stopReason = m'.stopReason) (codec : JsonCodec) (finishReason : String) :
    (m.takeReason codec finishReason).currentBlocks =
        (m'.takeReason codec finishReason).currentBlocks ∧
      (m.takeReason codec finishReason).stopReason =
        (m'.takeReason codec finishReason).stopReason ∧
      (m.takeReason codec finishReason).state = (m'.takeReason codec finishReason).state := by
  obtain ⟨hblocks, hopened⟩ := blocks_atPositions codec c
  unfold takeReason
  split
  · exact ⟨by rw [h.blocks, h'.blocks, hopened], hr, hs⟩
  · have hsame : (m.finish codec finishReason).currentBlocks =
        (m'.finish codec finishReason).currentBlocks := by
      rw [h.finish_blocks codec finishReason, h'.finish_blocks codec finishReason, hblocks]
    have hstate : ∀ m : OpenAIMessage, (m.finish codec finishReason).state =
        BaseMessage.resolveState { currentBlocks := (m.finish codec finishReason).currentBlocks }
          finishReason stopReasonMap := fun _ => rfl
    exact ⟨hsame, rfl, by rw [hstate, hstate, hsame]⟩

end OpenAIMessage

/-- A streamed completion leaves the blocks, the stop reason and the state the buffered one
leaves, and its chunks are the text of the buffered one. -/
theorem openAI_streamed_eq_buffered (codec : JsonCodec) {c : ChatCompletion}
    {deltas : List ChatDelta} {last : ChatDelta} {reasonings contents : List String}
    {fragments : List (Int × CallFragment)}
    (h : c.Streams (deltas ++ [last]) reasonings contents fragments) :
    let streamed := applyEvents (OpenAIMessage.applyEvent codec) {} (streamedChunks c deltas last)
    let buffered := OpenAIMessage.applyResponse codec {} (bufferedCompletion c)
    streamed.1.currentBlocks = buffered.1.currentBlocks ∧
      streamed.1.stopReason = buffered.1.stopReason ∧
      streamed.1.state = buffered.1.state ∧
      streamed.2 = buffered.2.chunk := by
  intro streamed buffered
  obtain ⟨hreadable, hcontent⟩ := OpenAIMessage.streams_chunks h
  have hstreamed : streamed = _ :=
    OpenAIMessage.applyEvents_streamedChunks codec c last deltas {} hreadable
  obtain ⟨hbuffered, hchunk⟩ := OpenAIMessage.applyResponse_bufferedCompletion codec {} c
  have hcollected := OpenAIMessage.collected_of_streams h
  have hwhole := OpenAIMessage.collected_of_streams (OpenAIMessage.streams_whole c)
  rw [List.flatMap_singleton] at hwhole
  obtain ⟨hs, hr⟩ := OpenAIMessage.foldl_takeItem_state
    ((deltas ++ [last]).flatMap ChatDelta.items) {}
  obtain ⟨hs', hr'⟩ := OpenAIMessage.foldl_takeItem_state (OpenAIMessage.whole c).items {}
  obtain ⟨hblocks, hreason, hstate⟩ := hcollected.takeReason_eq hwhole (hs.trans hs'.symm)
    (hr.trans hr'.symm) codec c.finishReason
  have hb : buffered.1 = _ := hbuffered
  have hc : buffered.2.chunk = _ := hchunk
  rw [hstreamed, hb, hc]
  exact ⟨hblocks, hreason, hstate, hcontent⟩

/-- The arguments of a tool call, and the codec as far as it is used on them. -/
def echoText : String := "\x7b\"text\":\"hi\"\x7d"

def echoCodec : JsonCodec where
  fromJson bytes :=
    if bytes = Bytes.ofString echoText then .object (JsonObject.ofFields [("text", .str "hi")])
    else .null
  toJson _ := echoText

/-- A completion with a reasoning, a content and two tool calls. -/
def echoCompletion : ChatCompletion where
  reasoning := some "Two calls."
  content := some "One moment"
  calls := [⟨0, "call_a", "echo", echoText⟩, ⟨3, "call_b", "echo", echoText⟩]
  finishReason := "tool_calls"
  reasoning_ne := by decide
  content_ne := by decide
  indices := by decide
  fits := by decide
  ids := by decide
  few := by decide

/-- The fragments of its calls, which alternate. -/
def echoFragments : List (Int × CallFragment) :=
  [(0, ⟨some ("call_a", "echo"), some ""⟩), (3, ⟨some ("call_b", "echo"), none⟩),
    (0, ⟨none, some "\x7b\"text\":"⟩), (3, ⟨none, some "\x7b\"te"⟩),
    (0, ⟨none, some "\"hi\"\x7d"⟩), (3, ⟨none, some "xt\":\"hi\"\x7d"⟩)]

/-- Its chunks but the last, which says nothing but the finish reason. -/
def echoDeltas : List ChatDelta :=
  [{ reasoning := some "Two " }, { reasoning := some "calls.", content := some "" },
    { content := some "One " }, { content := some "moment", calls := echoFragments.take 2 },
    { calls := echoFragments.drop 2 }]

theorem streams_echo : echoCompletion.Streams (echoDeltas ++ [⟨none, none, []⟩]) ["Two ", "calls."]
    ["", "One ", "moment"] echoFragments where
  items := rfl
  reasoning := by decide
  silent := nofun
  content := by decide
  starts := by decide
  lanes := by
    intro call hcall
    rcases List.mem_cons.mp hcall with rfl | hcall
    · exact ⟨some "", [⟨none, some "\x7b\"text\":"⟩, ⟨none, some "\"hi\"\x7d"⟩], rfl, by simp,
        by decide⟩
    · obtain rfl := List.mem_singleton.mp hcall
      exact ⟨none, [⟨none, some "\x7b\"te"⟩, ⟨none, some "xt\":\"hi\"\x7d"⟩], rfl, by simp,
        by decide⟩
  known := by decide

theorem openAI_streamed_eq_buffered_echo :
    echoCompletion.Streams (echoDeltas ++ [⟨none, none, []⟩]) ["Two ", "calls."]
        ["", "One ", "moment"] echoFragments ∧
      let streamed := applyEvents (OpenAIMessage.applyEvent echoCodec) {}
        (streamedChunks echoCompletion echoDeltas ⟨none, none, []⟩)
      let buffered := OpenAIMessage.applyResponse echoCodec {} (bufferedCompletion echoCompletion)
      streamed.1.currentBlocks = buffered.1.currentBlocks ∧
        streamed.1.stopReason = buffered.1.stopReason ∧
        streamed.1.state = buffered.1.state ∧
        streamed.2 = buffered.2.chunk :=
  ⟨streams_echo, openAI_streamed_eq_buffered echoCodec streams_echo⟩

end LLMQore
