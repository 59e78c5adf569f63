import LLMQore.Core.ActiveRequest
import LLMQore.Clients.Claude
import LLMQore.Clients.OpenAIResponses
import LLMQore.Clients.Ollama

/-!
# LLMQore.Clients.ContinuationReplay

A continuation and a replay of the conversation agree.

The turns of a request reach the server on two paths: a continuation appends the live
message and its results to the payload of the turn before, and a conversation that is
sent anew is serialized from its typed turns. `ReplayLaws` is what a provider owes for
the two to give the same array; it is a law for each of the functions involved, and from
it follows that the arrays agree after any number of rounds.
-/

namespace LLMQore

open Network Tools

/-- A tool round of a provider: the message of the model, which has tool uses, and a
result for each of them. -/
structure AnsweredTurn (P : ProviderClient) where
  message : P.Msg
  toolResults : ToolResults
  used : (P.base message).currentToolUseContent ≠ []
  answered : ∀ use ∈ (P.base message).currentToolUseContent, use.id ∈ toolResults

namespace ActiveRequest

variable {P : ProviderClient}

/-- The request `ask` leaves, before any event of its response. -/
def asked (P : ProviderClient) (settings : ClientSettings) (manager : ToolsManager)
    (conversation : Conversation) (extra : JsonObject) (mode : RequestMode) :
    ActiveRequest P :=
  let (payload, endpoint) :=
    P.sendMessage settings (askPayload P settings manager conversation extra) "" mode
  let url := settings.url ++ if endpoint.isEmpty then settings.chatPath else endpoint
  { ({} : ActiveRequest P).storeContext url payload with
    mode
    conversation
    tracksConversation := true }

/-- The request after a round: its results are answered, and the continuation is sent. -/
def afterRound (r : ActiveRequest P) (turn : AnsweredTurn P) : ActiveRequest P :=
  let (r', payload) :=
    { r with message := some turn.message }.buildReplayContinuation turn.toolResults
  r'.beginNextTurn.storeContext r'.url payload

def afterRounds (r : ActiveRequest P) (turns : List (AnsweredTurn P)) : ActiveRequest P :=
  turns.foldl afterRound r

@[simp] theorem finalizeTurn_conversation (r : ActiveRequest P) :
    r.finalizeTurn.conversation = r.conversation := by
  unfold finalizeTurn
  split <;> rfl

@[simp] theorem finalizeTurn_tracksConversation (r : ActiveRequest P) :
    r.finalizeTurn.tracksConversation = r.tracksConversation := by
  unfold finalizeTurn
  split <;> rfl

/-- The blocks and the results of a round become two turns of the conversation. -/
theorem afterRound_turns {r : ActiveRequest P} (hr : r.tracksConversation = true)
    (turn : AnsweredTurn P) :
    (r.afterRound turn).conversation.turns = r.conversation.turns ++
        [⟨.assistant, (P.base turn.message).currentBlocks⟩,
          ⟨.tool, (resultBlocks (P.base turn.message).currentToolUseContent
            turn.toolResults).map .toolResult⟩] ∧
      (r.afterRound turn).conversation.system = r.conversation.system ∧
      (r.afterRound turn).tracksConversation = true := by
  have hblocks : (P.base turn.message).currentBlocks.isEmpty = false := by
    rw [List.isEmpty_eq_false_iff]
    intro he
    exact turn.used (by simp [BaseMessage.currentToolUseContent, BaseMessage.toolUses, he])
  have hresults : resultBlocks (P.base turn.message).currentToolUseContent turn.toolResults ≠ [] := by
    obtain ⟨use, huse⟩ := List.exists_mem_of_ne_nil _ turn.used
    obtain ⟨result, hresult⟩ := Option.isSome_iff_exists.mp
      (AList.lookup_isSome.mpr (turn.answered use huse))
    have hmem : makeToolResultContent use.id use.name result ∈
        resultBlocks (P.base turn.message).currentToolUseContent turn.toolResults :=
      List.mem_filterMap.mpr ⟨use, huse, by rw [hresult]; rfl⟩
    exact List.ne_nil_of_mem hmem
  simp [afterRound, buildReplayContinuation, trackRound, hr, hblocks, beginNextTurn, storeContext,
    Conversation.addToolResults_turns _ hresults]

theorem afterRound_payload (r : ActiveRequest P) (turn : AnsweredTurn P) :
    (r.afterRound turn).originalPayload =
      P.buildContinuationPayload r.originalPayload turn.message turn.toolResults := by
  unfold afterRound buildReplayContinuation trackRound
  dsimp only
  split <;> rfl

end ActiveRequest

/-- What a provider owes: its array of a conversation is made turn by turn, under what
the system prompt adds, a continuation appends what the two turns of its round add, and
what is posted carries the array. -/
structure ReplayLaws (P : ProviderClient) (key : String) where
  /-- What the system prompt adds to the array. -/
  ofSystem : String → List JsonValue
  /-- What a turn adds to the array. -/
  ofTurn : Turn → List JsonValue
  notTools : key ≠ "tools"
  conversation : ∀ settings conversation,
    (P.buildConversationPayload settings conversation).value key =
      .arr (ofSystem conversation.system ++ conversation.turns.flatMap ofTurn)
  posted : ∀ settings payload endpoint mode,
    (P.sendMessage settings payload endpoint mode).1.value key = payload.value key
  continuation : ∀ payload (turn : AnsweredTurn P),
    (P.buildContinuationPayload payload turn.message turn.toolResults).value key =
      .arr ((payload.value key).toArray ++
        (ofTurn ⟨.assistant, (P.base turn.message).currentBlocks⟩ ++
          ofTurn ⟨.tool, (ActiveRequest.resultBlocks (P.base turn.message).currentToolUseContent
            turn.toolResults).map .toolResult⟩))

/-- The arrays of the continuation and of the replay agree after any number of rounds. -/
def ReplaysAlike (P : ProviderClient) (key : String) : Prop :=
  ∀ settings manager conversation extra mode (turns : List (AnsweredTurn P)),
    extra.contains key = false →
      let r := (ActiveRequest.asked P settings manager conversation extra mode).afterRounds turns
      r.originalPayload.value key = (P.buildConversationPayload settings r.conversation).value key

theorem value_askPayload (P : ProviderClient) (settings : ClientSettings) (manager : ToolsManager)
    (conversation : Conversation) {extra : JsonObject} {key : String} (hkey : key ≠ "tools")
    (hextra : extra.contains key = false) :
    (askPayload P settings manager conversation extra).value key =
      (P.buildConversationPayload settings conversation).value key := by
  have hfold : ∀ (fields : JsonObject) (o : JsonObject), fields.contains key = false →
      JsonObject.value (fields.foldl (fun payload field => payload.insert field.1 field.2) o) key =
        o.value key := by
    intro fields
    induction fields with
    | nil => exact fun o _ => rfl
    | cons field rest ih =>
        intro o hc
        obtain ⟨hne, hrest⟩ : field.1 ≠ key ∧ JsonObject.contains rest key = false := by
          simpa [JsonObject.contains] using hc
        rw [List.foldl_cons, ih _ hrest, JsonObject.value_insert_ne _ _ hne]
  unfold askPayload attachToolDefinitions
  dsimp only
  rw [hfold extra _ hextra]
  split
  · rfl
  · rw [JsonObject.value_insert_ne _ _ (Ne.symm hkey)]

/-- A provider that keeps the laws replays alike. -/
theorem ReplayLaws.replaysAlike {P : ProviderClient} {key : String} (L : ReplayLaws P key) :
    ReplaysAlike P key := by
  intro settings manager conversation extra mode turns hextra r
  let start := ActiveRequest.asked P settings manager conversation extra mode
  have hstart : start.originalPayload.value key =
      (P.buildConversationPayload settings start.conversation).value key := by
    have hask := value_askPayload P settings manager conversation L.notTools hextra
    exact (L.posted settings _ "" mode).trans hask
  have hrun : ∀ (turns : List (AnsweredTurn P)) (r : ActiveRequest P),
      r.tracksConversation = true →
      r.originalPayload.value key =
        (P.buildConversationPayload settings r.conversation).value key →
      (r.afterRounds turns).originalPayload.value key =
        (P.buildConversationPayload settings (r.afterRounds turns).conversation).value key := by
    intro turns
    induction turns with
    | nil => exact fun r _ h => h
    | cons turn rest ih =>
        intro r htracks h
        obtain ⟨hturns, hsystem, htracks'⟩ := ActiveRequest.afterRound_turns htracks turn
        refine ih (r.afterRound turn) htracks' ?_
        rw [ActiveRequest.afterRound_payload, L.continuation, h, L.conversation, L.conversation,
          hturns, hsystem]
        simp [JsonValue.toArray]
  exact hrun turns start rfl hstart

/-! ### The four clients -/

section Results

variable (blocks : List TurnContent) (toolResults : ToolResults)

/-- The blocks of the results are the results of the tool uses, one by one. -/
theorem toolResultsOf_map (results : List ToolResultContent) :
    toolResultsOf (results.map .toolResult) = results := by
  induction results with
  | nil => rfl
  | cons c rest ih =>
      simp only [toolResultsOf, List.map_cons, List.filterMap_cons] at ih ⊢
      rw [ih]

/-- What a client makes of the results of a round is the same whether it reads them off
the message or off the conversation. -/
theorem map_resultBlocks (emitFor : ToolUseContent → ToolResult → JsonObject)
    (replay : ToolResultContent → JsonObject)
    (h : ∀ use result, replay (makeToolResultContent use.id use.name result) = emitFor use result) :
    (ActiveRequest.resultBlocks (BaseMessage.toolUses blocks) toolResults).map
        (fun c => JsonValue.obj (replay c)) =
      mapToolResults blocks toolResults emitFor := by
  unfold ActiveRequest.resultBlocks mapToolResults
  rw [List.map_filterMap]
  refine List.filterMap_congr fun use _ => ?_
  rw [Option.map_map]
  refine congrArg (fun f => (toolResults.lookup use.id).map f) (funext fun result => ?_)
  exact congrArg JsonValue.obj (h use result)

end Results

variable (codec : JsonCodec) (definitions : ToolsManager → List JsonValue)

def claudeReplayLaws : ReplayLaws (claudeClient codec definitions) "messages" where
  ofSystem _ := []
  ofTurn turn := [.obj (ClaudeClient.turnMessage turn)]
  notTools := by decide
  conversation settings conversation := by
    refine (JsonObject.value_insert_arr _ _ _).trans ?_
    rw [ClaudeClient.messages, List.map_eq_flatMap]
    rfl
  posted settings payload endpoint mode :=
    JsonObject.value_insert_ne payload (.bool (mode = .streaming)) (by decide)
  continuation payload turn := by
    refine (JsonObject.value_insert_arr _ _ _).trans ?_
    have hresults : ClaudeMessage.serializeBlocks ((ActiveRequest.resultBlocks
        turn.message.currentToolUseContent turn.toolResults).map .toolResult) =
        turn.message.createToolResultsContent turn.toolResults := by
      unfold ClaudeMessage.serializeBlocks
      rw [List.map_map]
      exact map_resultBlocks _ _ (fun use r => ClaudeMessage.toolResultBlock use.id r)
        (fun c => ClaudeMessage.toolResultBlock c.toolUseId (toToolResult c)) fun _ _ => rfl
    simp only [ClaudeClient.turnMessage, List.cons_append, List.nil_append]
    rw [← hresults]
    rfl

def openAIReplayLaws : ReplayLaws (openAIClient codec definitions) "messages" where
  ofSystem system := systemMessages { system }
  ofTurn := OpenAIClient.turnMessages codec
  notTools := by decide
  conversation settings conversation := JsonObject.value_insert_arr _ _ _
  posted settings payload endpoint mode := by
    have hstream : (payload.insert "stream" (.bool (mode = .streaming))).value "messages" =
        payload.value "messages" := JsonObject.value_insert_ne _ _ (by decide)
    simp only [openAIClient, OpenAIClient.sendMessage]
    split
    · rw [JsonObject.value_insert_ne _ _ (by decide), hstream]
    · exact hstream
  continuation payload turn := by
    refine (JsonObject.value_insert_arr _ _ _).trans ?_
    have hresults := map_resultBlocks turn.message.currentBlocks turn.toolResults
      (fun use r => OpenAIMessage.toolMessage codec use.id r)
      (fun c => OpenAIMessage.toolMessage codec c.toolUseId (toToolResult c)) fun _ _ => rfl
    simp only [OpenAIClient.turnMessages, toolResultsOf_map]
    exact congrArg (fun xs => JsonValue.arr
      ((payload.value "messages").toArray ++ _ :: xs)) hresults.symm

def ollamaReplayLaws : ReplayLaws (ollamaClient codec definitions) "messages" where
  ofSystem system := systemMessages { system }
  ofTurn := OllamaClient.turnMessages codec
  notTools := by decide
  conversation settings conversation := JsonObject.value_insert_arr _ _ _
  posted settings payload endpoint mode :=
    JsonObject.value_insert_ne payload (.bool (mode = .streaming)) (by decide)
  continuation payload turn := by
    refine (JsonObject.value_insert_arr _ _ _).trans ?_
    have hresults := map_resultBlocks turn.message.currentBlocks turn.toolResults
      (fun _ r => OllamaMessage.toolMessage codec r)
      (fun c => OllamaMessage.toolMessage codec (toToolResult c)) fun _ _ => rfl
    simp only [OllamaClient.turnMessages, toolResultsOf_map]
    exact congrArg (fun xs => JsonValue.arr
      ((payload.value "messages").toArray ++ _ :: xs)) hresults.symm

def openAIResponsesReplayLaws (reasoning : ReasoningPersistence) :
    ReplayLaws (openAIResponsesClient codec reasoning definitions) "input" where
  ofSystem _ := []
  ofTurn := OpenAIResponsesClient.turnItems codec reasoning
  notTools := by decide
  conversation settings conversation := JsonObject.value_insert_arr _ _ _
  posted settings payload endpoint mode := by
    have hstream : (payload.insert "stream" (.bool (mode = .streaming))).value "input" =
        payload.value "input" := JsonObject.value_insert_ne _ _ (by decide)
    simp only [openAIResponsesClient, OpenAIResponsesClient.sendMessage]
    split
    · rw [JsonObject.value_insert_ne _ _ (by decide), hstream]
    · exact hstream
  continuation payload turn := by
    refine (JsonObject.value_insert_arr _ _ _).trans ?_
    have hresults := map_resultBlocks turn.message.currentBlocks turn.toolResults
      (fun use r => OpenAIResponsesMessage.toolResultItem codec use.id r)
      (fun c => OpenAIResponsesMessage.toolResultItem codec c.toolUseId (toToolResult c))
      fun _ _ => rfl
    simp only [OpenAIResponsesClient.turnItems, toolResultsOf_map]
    rw [List.append_assoc]
    exact congrArg (fun xs => JsonValue.arr
      ((payload.value "input").toArray ++ (_ ++ xs))) hresults.symm

/-- For Claude, OpenAI chat completions, OpenAI Responses and Ollama the array of the
continuation is the array of the conversation tracked so far, after any number of tool
rounds. -/
theorem continuation_replays (reasoning : ReasoningPersistence) :
    ReplaysAlike (claudeClient codec definitions) "messages" ∧
      ReplaysAlike (openAIClient codec definitions) "messages" ∧
      ReplaysAlike (openAIResponsesClient codec reasoning definitions) "input" ∧
      ReplaysAlike (ollamaClient codec definitions) "messages" :=
  ⟨(claudeReplayLaws codec definitions).replaysAlike,
    (openAIReplayLaws codec definitions).replaysAlike,
    (openAIResponsesReplayLaws codec definitions reasoning).replaysAlike,
    (ollamaReplayLaws codec definitions).replaysAlike⟩

/-- A reader that finds no document, and a writer of the empty object. -/
def silentCodec : JsonCodec := ⟨fun _ => .null, fun _ => "{}"⟩

/-- A message of Claude that thinks and calls a tool, answered with an image and a structure. -/
def claudeLookTurn : AnsweredTurn (claudeClient silentCodec fun _ => []) where
  message := ({ currentBlocks :=
    [.thinking { thinking := "look", signature := "s" }, .toolUse ⟨"0", "look", []⟩] } :
      ClaudeMessage)
  toolResults := AList.singleton "0"
    { content := [.image ⟨.bytes [1], "image/png"⟩]
      isError := true
      structuredContent := [("seen", .bool true)] }
  used := List.cons_ne_nil _ _
  answered use huse := by
    rw [List.mem_singleton.mp huse]
    exact AList.lookup_isSome.mp rfl

theorem continuation_replays_looks :
    let r := (ActiveRequest.asked (claudeClient silentCodec fun _ => []) {} {} {} []
      .streaming).afterRounds [claudeLookTurn, claudeLookTurn]
    r.originalPayload.value "messages" =
      ((claudeClient silentCodec fun _ => []).buildConversationPayload {}
        r.conversation).value "messages" :=
  (continuation_replays silentCodec (fun _ => []) .off).1 {} {} {} [] .streaming
    [claudeLookTurn, claudeLookTurn] rfl

end LLMQore
