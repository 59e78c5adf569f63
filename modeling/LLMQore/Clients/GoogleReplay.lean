import LLMQore.Clients.ContinuationReplay
import LLMQore.Clients.Google

/-!
# LLMQore.Clients.GoogleReplay

Continuation and replay of the Gemini client.

The two paths share all but the text of a result that is not only text: the continuation
leaves out what it inlines and what is empty, and the structured content
(`buildGeminiResponseText`), where the replay writes a note for each block and the
structured content (`toolResultText`). So they agree exactly on the results whose every
block is rendered alike.
-/

namespace LLMQore

open Network Tools

/-! ### The text of a result -/

/-- A block that `buildGeminiResponseText` renders as `toolContentAsText` does. -/
def ToolContent.renderedAlike : ToolContent → Bool
  | .text c => !c.text.isEmpty
  | .image _ => false
  | .audio _ => false
  | .resource c => !c.isBlob && !c.text.isEmpty
  | .resourceLink _ => true

/-- A result that both paths render alike: text, or blocks rendered alike and no
structured content. -/
def ToolResult.renderedAlike (r : ToolResult) : Bool :=
  r.hasOnlyText || (r.structuredContent.isEmpty && r.content.all ToolContent.renderedAlike)

namespace GoogleMessage

theorem responseChunk_eq (block : ToolContent) :
    responseChunk block =
      if block.renderedAlike then some (toolContentAsText block) else none := by
  cases block with
  | text c => by_cases h : c.text.isEmpty <;> simp [responseChunk, ToolContent.renderedAlike,
      toolContentAsText, h]
  | image c => rfl
  | audio c => rfl
  | resource c =>
      by_cases h : (!c.isBlob && !c.text.isEmpty) = true
      · simp only [responseChunk, ToolContent.renderedAlike, toolContentAsText, if_pos h]
      · simp only [responseChunk, ToolContent.renderedAlike, toolContentAsText, if_neg h]
  | resourceLink c => rfl

/-- A block that is no text is noted with some text. -/
theorem asText_ne_empty {block : ToolContent} (h : ∀ c, block ≠ .text c) :
    (toolContentAsText block).isEmpty = false := by
  cases block with
  | text c => exact absurd rfl (h c)
  | image c => simp [toolContentAsText]
  | audio c => simp [toolContentAsText]
  | resource c =>
      by_cases ht : (!c.isBlob && !c.text.isEmpty) = true
      · rw [toolContentAsText, if_pos ht]
        simpa using (Bool.and_eq_true_iff.mp ht).2
      · rw [toolContentAsText, if_neg ht]
        simp
  | resourceLink c => simp [toolContentAsText]

/-- Joining texts with a separator of one character adds one for each but the last. -/
theorem length_join (texts : List String) :
    ("\n".intercalate texts).length = (texts.map fun t => t.length + 1).sum - 1 := by
  induction texts with
  | nil => rfl
  | cons t rest ih =>
      cases rest with
      | nil => simp
      | cons u rest =>
          rw [String.intercalate_cons_cons]
          simp only [String.length_append, ih, List.map_cons, List.sum_cons]
          have : "\n".length = 1 := rfl
          omega

section Text

variable (content : List ToolContent)

/-- The room the texts of some blocks take, each with a separator. -/
def roomOf (content : List ToolContent) : Nat :=
  (content.map fun block => (toolContentAsText block).length + 1).sum

theorem room_chunks :
    (((content.filterMap responseChunk).map fun t => t.length + 1).sum) =
      roomOf (content.filter ToolContent.renderedAlike) := by
  induction content with
  | nil => rfl
  | cons block rest ih =>
      rw [List.filterMap_cons, List.filter_cons, responseChunk_eq]
      split <;> simp_all [roomOf]

theorem room_filter_le : roomOf (content.filter ToolContent.renderedAlike) ≤ roomOf content := by
  induction content with
  | nil => exact Nat.le_refl _
  | cons block rest ih =>
      rw [List.filter_cons]
      unfold roomOf at ih ⊢
      split
      · simp only [List.map_cons, List.sum_cons]
        omega
      · simp only [List.map_cons, List.sum_cons]
        omega

/-- Leaving out a block leaves less room. -/
theorem room_filter_lt (h : content.all ToolContent.renderedAlike = false) :
    roomOf (content.filter ToolContent.renderedAlike) < roomOf content := by
  induction content with
  | nil => cases h
  | cons block rest ih =>
      have hle := room_filter_le rest
      rw [List.filter_cons]
      rw [List.all_cons] at h
      unfold roomOf at ih hle ⊢
      split
      · rename_i hb
        rw [hb, Bool.true_and] at h
        have := ih h
        simp only [List.map_cons, List.sum_cons]
        omega
      · simp only [List.map_cons, List.sum_cons]
        omega

theorem room_pos {content : List ToolContent} {block : ToolContent} (hmem : block ∈ content)
    (hblock : (toolContentAsText block).isEmpty = false) : 1 < roomOf content := by
  have hlen : (toolContentAsText block).length ≠ 0 := by
    intro he
    have hnil : (toolContentAsText block).toList = [] := List.length_eq_zero_iff.mp he
    have : toolContentAsText block = "" := String.toList_inj.mp hnil
    rw [this] at hblock
    cases hblock
  obtain ⟨before, after, rfl⟩ := List.append_of_mem hmem
  simp only [roomOf, List.map_append, List.map_cons, List.sum_append, List.sum_cons]
  omega

end Text

theorem length_responseText (r : ToolResult) :
    (buildGeminiResponseText r).length =
      roomOf (r.content.filter ToolContent.renderedAlike) - 1 := by
  rw [buildGeminiResponseText, length_join, room_chunks]

theorem length_asText (r : ToolResult) : r.asText.length = roomOf r.content - 1 := by
  rw [ToolResult.asText, length_join, List.map_map]
  rfl

/-- Two texts of a result that is not only text agree exactly where it is rendered
alike. -/
theorem responseText_eq_iff (codec : JsonCodec) {r : ToolResult} (hr : r.hasOnlyText = false) :
    buildGeminiResponseText r = toolResultText codec r ↔ r.renderedAlike = true := by
  obtain ⟨block, hmem, hblock⟩ : ∃ block ∈ r.content, ∀ c, block ≠ .text c := by
    obtain ⟨block, hmem, hblock⟩ := List.all_eq_false.mp hr
    refine ⟨block, hmem, fun c hc => ?_⟩
    subst hc
    exact hblock rfl
  have hroom := room_pos hmem (asText_ne_empty hblock)
  have hlive := length_responseText r
  have hnote := length_asText r
  have hle := room_filter_le r.content
  rw [ToolResult.renderedAlike, hr, Bool.false_or]
  constructor
  · intro heq
    have hlen := congrArg String.length heq
    unfold toolResultText at hlen
    dsimp only at hlen
    cases hs : r.structuredContent.isEmpty with
    | false =>
        -- the structured content makes the replayed text longer
        exfalso
        rw [hs] at hlen
        have hne : r.asText.isEmpty = false := by
          rw [Bool.eq_false_iff]
          intro he
          have : r.asText = "" := by simpa using he
          rw [this] at hnote
          simp at hnote
          omega
        rw [hne] at hlen
        simp only [Bool.false_eq_true, if_false, String.length_append] at hlen
        have : "\n".length = 1 := rfl
        omega
    | true =>
        rw [hs, if_pos rfl] at hlen
        rw [Bool.true_and]
        cases hall : r.content.all ToolContent.renderedAlike with
        | true => rfl
        | false =>
            have := room_filter_lt r.content hall
            omega
  · intro h
    obtain ⟨hs, hall⟩ := Bool.and_eq_true_iff.mp h
    rw [toolResultText, if_pos hs, buildGeminiResponseText, ToolResult.asText]
    refine congrArg _ ?_
    rw [← List.filterMap_eq_map]
    refine List.filterMap_congr fun b hb => ?_
    rw [responseChunk_eq, if_pos (List.all_eq_true.mp hall b hb)]
    rfl

/-! ### The part of a result -/

/-- The text can be read off a function response. -/
theorem functionResponse_inj {name text text' : String} {media : List JsonValue} :
    functionResponse name text media = functionResponse name text' media ↔ text = text' := by
  refine ⟨fun h => ?_, fun h => by rw [h]⟩
  have hread : ∀ t, ((((functionResponse name t media).value
      "functionResponse").toObject.value "response").toObject.value "result") = .str t := by
    intro t
    have hbase : (JsonObject.ofFields [("name", .str name),
        ("response", .obj (JsonObject.ofFields [("result", .str t)]))]).value "response" =
        .obj (JsonObject.ofFields [("result", .str t)]) :=
      JsonObject.value_insert_obj _ _ _
    have houter : ∀ o, (JsonObject.ofFields [("functionResponse", JsonValue.obj o)]).value
        "functionResponse" = .obj o := fun o => JsonObject.value_insert_obj _ _ _
    rw [functionResponse, houter, JsonValue.toObject]
    split
    · rw [hbase]
      rfl
    · rw [JsonObject.value_insert_ne _ _ (by decide), hbase]
      rfl
  have := (hread text).symm.trans ((congrArg (fun o => (((JsonObject.value o
    "functionResponse").toObject.value "response").toObject.value "result")) h).trans (hread text'))
  exact JsonValue.str.inj this

theorem resultPart_eq_iff (codec : JsonCodec) (use : ToolUseContent) (r : ToolResult) :
    GoogleAIClient.replayedPart codec (makeToolResultContent use.id use.name r) =
        toolResultPart codec use.name r ↔ r.renderedAlike = true := by
  have hreplayed : GoogleAIClient.replayedPart codec (makeToolResultContent use.id use.name r) =
      functionResponse use.name (toolResultText codec r)
        (if r.hasOnlyText then [] else inlineParts r.content) := rfl
  rw [hreplayed, toolResultPart]
  by_cases hr : r.hasOnlyText = true
  · rw [if_pos hr, if_pos hr]
    simp [ToolResult.renderedAlike, hr]
  · rw [if_neg hr, if_neg hr]
    exact functionResponse_inj.trans
      (eq_comm.trans (responseText_eq_iff codec (Bool.eq_false_iff.mpr hr)))

end GoogleMessage

/-! ### A round -/

/-- Lists that are made with and without the same elements agree element by element. -/
theorem filterMap_eq_iff {α β : Type} {f g : α → Option β} {l : List α}
    (h : ∀ a ∈ l, (f a).isSome = (g a).isSome) :
    l.filterMap f = l.filterMap g ↔ ∀ a ∈ l, f a = g a := by
  induction l with
  | nil => simp
  | cons a rest ih =>
      have ha := h a List.mem_cons_self
      have hrest := ih fun b hb => h b (List.mem_cons_of_mem _ hb)
      rw [List.filterMap_cons, List.filterMap_cons, List.forall_mem_cons]
      cases hf : f a with
      | none =>
          cases hg : g a with
          | none => simp only [hrest, true_and]
          | some c => rw [hf, hg] at ha; cases ha
      | some b =>
          cases hg : g a with
          | none => rw [hf, hg] at ha; cases ha
          | some c => simp only [List.cons.injEq, hrest, Option.some.injEq]

/-- Lists made of pieces of the same lengths agree piece by piece. -/
theorem flatMap_eq_iff {α β : Type} {f g : α → List β} {l : List α}
    (h : ∀ a ∈ l, (f a).length = (g a).length) :
    l.flatMap f = l.flatMap g ↔ ∀ a ∈ l, f a = g a := by
  induction l with
  | nil => simp
  | cons a rest ih =>
      have hrest := ih fun b hb => h b (List.mem_cons_of_mem _ hb)
      rw [List.flatMap_cons, List.flatMap_cons, List.forall_mem_cons, ← hrest]
      exact List.append_eq_append_iff_of_size_eq_left (h a List.mem_cons_self)

section Rounds

variable (codec : JsonCodec) (uuid : Nat → String) (definitions : ToolsManager → List JsonValue)

/-- What a round adds to `contents` in the continuation. -/
def liveContents (turn : AnsweredTurn (googleAIClient codec uuid definitions)) :
    List JsonValue :=
  let parts := turn.message.createToolResultParts codec turn.toolResults
  [.obj turn.message.toProviderFormat,
    .obj (JsonObject.ofFields
      [("role", .str (GoogleMessage.toolResultTurnRole parts)), ("parts", .arr parts)])]

/-- What a round adds to `contents` in the replay. -/
def replayedContents (turn : AnsweredTurn (googleAIClient codec uuid definitions)) :
    List JsonValue :=
  GoogleAIClient.turnContents codec ⟨.assistant, turn.message.currentBlocks⟩ ++
    GoogleAIClient.turnContents codec ⟨.tool, (ActiveRequest.resultBlocks
      turn.message.currentToolUseContent turn.toolResults).map .toolResult⟩

variable {codec uuid definitions}

theorem parts_append (blocks : List TurnContent) (t : GoogleMessage.TurnParts) :
    t.parts.length ≤ (blocks.foldl GoogleMessage.addBlock t).parts.length ∧
      (BaseMessage.toolUses blocks ≠ [] →
        (blocks.foldl GoogleMessage.addBlock t).parts ≠ []) := by
  induction blocks generalizing t with
  | nil => exact ⟨Nat.le_refl _, fun h => absurd rfl h⟩
  | cons block rest ih =>
      obtain ⟨hle, hne⟩ := ih (GoogleMessage.addBlock t block)
      rw [List.foldl_cons]
      have hstep : t.parts.length ≤ (GoogleMessage.addBlock t block).parts.length := by
        cases block with
        | thinking c =>
            simp only [GoogleMessage.addBlock]
            split <;> simp
        | _ => simp [GoogleMessage.addBlock]
      refine ⟨Nat.le_trans hstep hle, fun huses => ?_⟩
      cases block with
      | toolUse c =>
          have hpos : 0 < (GoogleMessage.addBlock t (.toolUse c)).parts.length := by
            simp [GoogleMessage.addBlock]
          intro hnil
          rw [hnil, List.length_nil] at hle
          omega
      | _ => exact hne huses

/-- A message with a tool use is not left out of the replay. -/
theorem turnContents_assistant {blocks : List TurnContent} (h : BaseMessage.toolUses blocks ≠ []) :
    GoogleAIClient.turnContents codec ⟨.assistant, blocks⟩ =
      [.obj (GoogleMessage.serializeTurn .assistant blocks)] := by
  have hparts : (GoogleMessage.serializeTurn .assistant blocks).value "parts" =
      .arr (blocks.foldl GoogleMessage.addBlock {}).parts := JsonObject.value_insert_arr _ _ _
  have hne := (parts_append blocks {}).2 h
  unfold GoogleAIClient.turnContents
  dsimp only
  rw [if_neg (by decide), hparts, JsonValue.toArray, if_neg (by simpa using hne)]

theorem replayedContents_eq (turn : AnsweredTurn (googleAIClient codec uuid definitions)) :
    let parts := mapToolResults turn.message.currentBlocks turn.toolResults fun use r =>
      GoogleAIClient.replayedPart codec (makeToolResultContent use.id use.name r)
    replayedContents codec uuid definitions turn =
      [.obj turn.message.toProviderFormat,
        .obj (JsonObject.ofFields
          [("role", .str (GoogleMessage.toolResultTurnRole parts)), ("parts", .arr parts)])] := by
  intro parts
  have hparts : ((ActiveRequest.resultBlocks turn.message.currentToolUseContent
      turn.toolResults).map fun c => JsonValue.obj (GoogleAIClient.replayedPart codec c)) =
      parts :=
    map_resultBlocks _ _ _ (GoogleAIClient.replayedPart codec) fun _ _ => rfl
  have hne : parts ≠ [] := by
    obtain ⟨use, huse⟩ := List.exists_mem_of_ne_nil _ turn.used
    obtain ⟨result, hresult⟩ := Option.isSome_iff_exists.mp
      (AList.lookup_isSome.mpr (turn.answered use huse))
    have hmem : JsonValue.obj (GoogleAIClient.replayedPart codec
        (makeToolResultContent use.id use.name result)) ∈ parts :=
      List.mem_filterMap.mpr ⟨use, huse, by rw [hresult]; rfl⟩
    exact List.ne_nil_of_mem hmem
  have hused : BaseMessage.toolUses (turn.message : GoogleMessage).currentBlocks ≠ [] := turn.used
  unfold replayedContents
  rw [turnContents_assistant hused]
  unfold GoogleAIClient.turnContents
  simp only [toolResultsOf_map]
  rw [if_pos trivial, hparts, if_neg (by simpa using hne)]
  rfl

/-- In a round the two paths agree exactly on the results rendered alike. -/
theorem contents_eq_iff (turn : AnsweredTurn (googleAIClient codec uuid definitions)) :
    liveContents codec uuid definitions turn = replayedContents codec uuid definitions turn ↔
      ∀ use ∈ turn.message.currentToolUseContent, ∀ result,
        turn.toolResults.lookup use.id = some result → result.renderedAlike = true := by
  let live := turn.message.createToolResultParts codec turn.toolResults
  let replayed := mapToolResults turn.message.currentBlocks turn.toolResults fun use r =>
    GoogleAIClient.replayedPart codec (makeToolResultContent use.id use.name r)
  have hcontents : liveContents codec uuid definitions turn =
      replayedContents codec uuid definitions turn ↔ live = replayed := by
    rw [replayedContents_eq]
    refine ⟨fun h => ?_, fun h => ?_⟩
    · have hread : ∀ role parts, (JsonObject.ofFields
          [("role", JsonValue.str role), ("parts", .arr parts)]).value "parts" = .arr parts :=
        fun role parts => JsonObject.value_insert_arr _ _ _
      obtain ⟨-, h, -⟩ := List.cons_eq_cons.mp h |>.imp id List.cons_eq_cons.mp
      have := congrArg (fun o => JsonObject.value o "parts") (JsonValue.obj.inj h)
      simp only [hread] at this
      exact JsonValue.arr.inj this
    · show _ = [_, JsonValue.obj (JsonObject.ofFields [("role", .str
        (GoogleMessage.toolResultTurnRole replayed)), ("parts", .arr replayed)])]
      rw [← h]
      rfl
  rw [hcontents]
  refine (filterMap_eq_iff fun use _ => ?_).trans (forall₂_congr fun use huse => ?_)
  · cases turn.toolResults.lookup use.id <;> rfl
  · cases hlookup : turn.toolResults.lookup use.id with
    | none => simp
    | some result =>
        simp only [Option.map_some, Option.some.injEq, JsonValue.obj.injEq, forall_eq']
        exact eq_comm.trans (GoogleMessage.resultPart_eq_iff codec use result)

/-- The two arrays after some rounds: each round adds to the array of the conversation. -/
theorem contents_afterRounds (settings : ClientSettings)
    (turns : List (AnsweredTurn (googleAIClient codec uuid definitions))) :
    ∀ (r : ActiveRequest (googleAIClient codec uuid definitions)) (live : List JsonValue),
      r.tracksConversation = true → r.originalPayload.value "contents" = .arr live →
      (r.afterRounds turns).originalPayload.value "contents" =
          .arr (live ++ turns.flatMap (liveContents codec uuid definitions)) ∧
        ((googleAIClient codec uuid definitions).buildConversationPayload settings
          (r.afterRounds turns).conversation).value "contents" =
          .arr (GoogleAIClient.contents codec r.conversation ++
            turns.flatMap (replayedContents codec uuid definitions)) := by
  induction turns with
  | nil =>
      intro r live _ hlive
      rw [List.flatMap_nil, List.append_nil, List.flatMap_nil, List.append_nil]
      exact ⟨hlive, JsonObject.value_insert_arr _ _ _⟩
  | cons turn rest ih =>
      intro r live htracks hlive
      obtain ⟨hturns, -, htracks'⟩ := ActiveRequest.afterRound_turns htracks turn
      have hpayload : (r.afterRound turn).originalPayload.value "contents" =
          .arr (live ++ liveContents codec uuid definitions turn) := by
        rw [ActiveRequest.afterRound_payload]
        refine (JsonObject.value_insert_arr _ _ _).trans ?_
        rw [hlive]
        rfl
      have hcontents : GoogleAIClient.contents codec (r.afterRound turn).conversation =
          GoogleAIClient.contents codec r.conversation ++
            replayedContents codec uuid definitions turn := by
        unfold GoogleAIClient.contents
        rw [hturns, List.flatMap_append]
        simp only [List.flatMap_cons, List.flatMap_nil, List.append_nil]
        rfl
      obtain ⟨h₁, h₂⟩ := ih (r.afterRound turn) _ htracks' hpayload
      rw [List.flatMap_cons, ← List.append_assoc, List.flatMap_cons, ← List.append_assoc,
        ← hcontents]
      exact ⟨h₁, h₂⟩

/-- The array `contents` of the request `ask` makes is that of its conversation. -/
theorem contents_asked (settings : ClientSettings) (manager : ToolsManager)
    (conversation : Conversation) {extra : JsonObject} (mode : RequestMode)
    (hextra : extra.contains "contents" = false) :
    (ActiveRequest.asked (googleAIClient codec uuid definitions) settings manager conversation
        extra mode).originalPayload.value "contents" =
      .arr (GoogleAIClient.contents codec conversation) :=
  (value_askPayload (googleAIClient codec uuid definitions) settings manager conversation
    (by decide) hextra).trans (JsonObject.value_insert_arr _ _ _)

end Rounds

variable (codec : JsonCodec) (uuid : Nat → String) (definitions : ToolsManager → List JsonValue)

/-- The `contents` of the continuation are those of the conversation tracked so far exactly
where every result of every round is rendered alike on both paths. -/
theorem google_continuation_replays (settings : ClientSettings) (manager : ToolsManager)
    (conversation : Conversation) (extra : JsonObject) (mode : RequestMode)
    (turns : List (AnsweredTurn (googleAIClient codec uuid definitions)))
    (hextra : extra.contains "contents" = false) :
    let r := (ActiveRequest.asked (googleAIClient codec uuid definitions) settings manager
      conversation extra mode).afterRounds turns
    r.originalPayload.value "contents" =
        ((googleAIClient codec uuid definitions).buildConversationPayload settings
          r.conversation).value "contents" ↔
      ∀ turn ∈ turns,
        ∀ use ∈ ((googleAIClient codec uuid definitions).base turn.message).currentToolUseContent,
        ∀ result, turn.toolResults.lookup use.id = some result → result.renderedAlike = true := by
  intro r
  obtain ⟨hlive, hreplayed⟩ := contents_afterRounds settings turns
    (ActiveRequest.asked (googleAIClient codec uuid definitions) settings manager conversation
      extra mode) _ rfl (contents_asked settings manager conversation mode hextra)
  have hlength : ∀ turn ∈ turns, (liveContents codec uuid definitions turn).length =
      (replayedContents codec uuid definitions turn).length := fun turn _ => by
    rw [replayedContents_eq]
    rfl
  rw [hlive, hreplayed, JsonValue.arr.injEq]
  refine (List.append_cancel_left_eq _ _ _).to_iff.trans ?_
  exact (flatMap_eq_iff hlength).trans (forall₂_congr fun turn _ => contents_eq_iff turn)

/-- A call of the tool `draw`, answered. -/
def drawTurn (result : ToolResult) :
    AnsweredTurn (googleAIClient silentCodec toString fun _ => []) where
  message := ({ currentBlocks := [.toolUse ⟨"0", "draw", []⟩] } : GoogleMessage)
  toolResults := AList.singleton "0" result
  used := List.cons_ne_nil _ _
  answered use huse := by
    rw [List.mem_singleton.mp huse]
    exact AList.lookup_isSome.mp rfl

/-- Two rounds answered with texts. -/
theorem google_continuation_replays_texts :
    let r := (ActiveRequest.asked (googleAIClient silentCodec toString fun _ => []) {} {} {} []
      .streaming).afterRounds [drawTurn (.text "done"), drawTurn (.error "no paper")]
    r.originalPayload.value "contents" =
      ((googleAIClient silentCodec toString fun _ => []).buildConversationPayload {}
        r.conversation).value "contents" := by
  refine (google_continuation_replays silentCodec toString (fun _ => []) {} {} {} [] .streaming
    [drawTurn (.text "done"), drawTurn (.error "no paper")] rfl).mpr fun turn hturn use huse
      result hresult => ?_
  rcases List.mem_pair.mp hturn with rfl | rfl
  · rw [List.mem_singleton.mp huse] at hresult
    exact Option.some.inj hresult ▸ rfl
  · rw [List.mem_singleton.mp huse] at hresult
    exact Option.some.inj hresult ▸ rfl

/-- A round answered with an image: the continuation sends no text for it, the replay a
note. -/
theorem google_replay_notes_image :
    let r := (ActiveRequest.asked (googleAIClient silentCodec toString fun _ => []) {} {} {} []
      .streaming).afterRounds [drawTurn { content := [.image ⟨.bytes [1], "image/png"⟩] }]
    r.originalPayload.value "contents" ≠
      ((googleAIClient silentCodec toString fun _ => []).buildConversationPayload {}
        r.conversation).value "contents" := by
  intro r heq
  obtain ⟨hlive, hreplayed⟩ := contents_afterRounds {}
    [drawTurn { content := [.image ⟨.bytes [1], "image/png"⟩] }]
    (ActiveRequest.asked (googleAIClient silentCodec toString fun _ => []) {} {} {} [] .streaming)
    _ rfl (contents_asked {} {} {} .streaming rfl)
  rw [hlive, hreplayed, JsonValue.arr.injEq] at heq
  have hround := List.append_cancel_left heq
  rw [List.flatMap_singleton, List.flatMap_singleton, contents_eq_iff] at hround
  exact absurd (hround ⟨"0", "draw", []⟩ List.mem_cons_self _ rfl) (by decide)

end LLMQore
