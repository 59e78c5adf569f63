import LLMQore.Clients.Claude
import LLMQore.Clients.Google
import LLMQore.Clients.Ollama
import LLMQore.Clients.OpenAI
import LLMQore.Clients.OpenAIResponses
import LLMQore.JsonTexts

/-!
# LLMQore.Clients.StructuredResults

The structured content of tool results, as the five providers render it for the continuation.

A result that is rendered as one text has its structured content at the end of the text. What
is rendered block by block has none, and Claude renders all results so. Such a result is rendered
with the text of its structured content only where a block has that text already. The messages
of a round are those each provider's continuation appends (`resultMessages_eq`).
-/

namespace LLMQore

open Tools

inductive Provider where
  | claude | openAI | openAIResponses | ollama | google
  deriving DecidableEq

namespace Provider

/-- What the provider renders the result of a tool use as. -/
def resultMessage (codec : JsonCodec) (use : ToolUseContent) (r : ToolResult) :
    Provider → JsonObject
  | .claude => ClaudeMessage.toolResultBlock use.id r
  | .openAI => OpenAIMessage.toolMessage codec use.id r
  | .openAIResponses => OpenAIResponsesMessage.toolResultItem codec use.id r
  | .ollama => OllamaMessage.toolMessage codec r
  | .google => GoogleMessage.toolResultPart codec use.name r

/-- The messages of the results of a round. -/
def resultMessages (codec : JsonCodec) (p : Provider) (blocks : List TurnContent)
    (toolResults : ToolResults) : List JsonValue :=
  mapToolResults blocks toolResults fun use r => p.resultMessage codec use r

/-- They are what each provider's continuation appends. -/
theorem resultMessages_eq (codec : JsonCodec) (toolResults : ToolResults) :
    (∀ m : ClaudeMessage, m.createToolResultsContent toolResults =
      resultMessages codec .claude m.currentBlocks toolResults) ∧
    (∀ m : OpenAIMessage, m.createToolResultMessages codec toolResults =
      resultMessages codec .openAI m.currentBlocks toolResults) ∧
    (∀ m : OpenAIResponsesMessage, m.createToolResultItems codec toolResults =
      resultMessages codec .openAIResponses m.currentBlocks toolResults) ∧
    (∀ m : OllamaMessage, m.createToolResultMessages codec toolResults =
      resultMessages codec .ollama m.currentBlocks toolResults) ∧
    ∀ m : GoogleMessage, m.createToolResultParts codec toolResults =
      resultMessages codec .google m.currentBlocks toolResults :=
  ⟨fun _ => rfl, fun _ => rfl, fun _ => rfl, fun _ => rfl, fun _ => rfl⟩

/-- What the message says of the result, besides what call it is for. -/
def contentOf (m : JsonObject) : Provider → JsonValue
  | .claude | .openAI | .ollama => m.value "content"
  | .openAIResponses => m.value "output"
  | .google =>
      let functionResponse := (m.value "functionResponse").toObject
      .arr [functionResponse.value "response", functionResponse.value "parts"]

/-- The words of a block that `renderToolContent` takes over. -/
def blockWords : ToolContent → List String
  | .text c => [c.text]
  | .image c => if c.isUrl then [c.url] else [c.mimeType]
  | .audio c => [c.mimeType]
  | .resource c => if !c.isBlob && !c.text.isEmpty then [c.text] else [c.uri]
  | .resourceLink c => [c.uri]

/-- The words of a block that Gemini's text and inlined parts take over. -/
def partWords : ToolContent → List String
  | .text c => [c.text]
  | .image c => if c.isUrl || c.bytes.isEmpty then [] else [c.mimeType]
  | .audio c => if c.data.isEmpty then [] else [c.mimeType]
  | .resource c => if c.isBlob then if c.blob.isEmpty then [] else [c.mimeType] else [c.text]
  | .resourceLink c => [c.uri]

/-- The words of a block that its own rendering has. -/
def words : Provider → ToolContent → List String
  | .google => partWords
  | _ => blockWords

/-- One of the blocks has the text. -/
def SaidIn (p : Provider) (text : String) (content : List ToolContent) : Prop :=
  ∃ block ∈ content, ∃ word ∈ p.words block, PartOf text word

/-- The rendered result has the text of the structured content and that of every text block. -/
structure Keeps (codec : JsonCodec) (p : Provider) (use : ToolUseContent) (r : ToolResult) :
    Prop where
  structured : (p.contentOf (p.resultMessage codec use r)).Shows (codec.toJson r.structuredContent)
  texts : ∀ c, .text c ∈ r.content → (p.contentOf (p.resultMessage codec use r)).Shows c.text

end Provider

/-! ### Words without braces -/

theorem base64Digit_plain (n : Nat) : Bytes.base64Digit n ≠ '{' ∧ Bytes.base64Digit n ≠ '}' := by
  by_cases hn : n < 64
  · have hall : ∀ n : Fin 64, Bytes.base64Digit n ≠ '{' ∧ Bytes.base64Digit n ≠ '}' := by decide
    exact hall ⟨n, hn⟩
  · have hlast : Bytes.base64Digit n = '/' := by
      unfold Bytes.base64Digit
      rw [if_neg (by omega), if_neg (by omega), if_neg (by omega), if_neg (by omega)]
    rw [hlast]
    decide

theorem base64Chars_plain (bytes : Bytes) : ∀ c ∈ Bytes.base64Chars bytes, c ≠ '{' ∧ c ≠ '}' := by
  have hpad : '=' ≠ '{' ∧ '=' ≠ '}' := by decide
  fun_induction Bytes.base64Chars bytes with
  | case1 => simp
  | case2 a n => simp [base64Digit_plain]
  | case3 a b n => simp [base64Digit_plain]
  | case4 a b c rest n ih => simpa [base64Digit_plain] using ih

theorem braceless_toBase64 (bytes : Bytes) : Braceless (Bytes.toBase64 bytes) := by
  unfold Braceless Bytes.toBase64
  rw [String.toList_ofList]
  exact ⟨fun h => (base64Chars_plain bytes _ h).1 rfl, fun h => (base64Chars_plain bytes _ h).2 rfl⟩

section Blocks

variable {json : String} (h : Braced json)

include h

theorem partOf_mimeTypeOr (mimeType : String) {default : String} (hd : Braceless default) :
    PartOf json (mimeTypeOr mimeType default) ↔ PartOf json mimeType := by
  unfold mimeTypeOr
  split
  · rename_i hempty
    have hnil : mimeType = "" := by simpa using hempty
    rw [hnil]
    exact iff_of_false (h.not_partOf hd) (h.not_partOf (by decide))
  · exact Iff.rfl

/-- What is noted of a block in brackets. -/
theorem partOf_note {label : String} (hl : Braceless label) (word : String) :
    PartOf json (label ++ word ++ "]") ↔ PartOf json word := by
  rw [h.partOf_append_right (by decide), h.partOf_append_left hl]

/-- A block rendered with its type and its text. -/
theorem shows_asText {textType : String} (ht : Braceless textType) (text : String) :
    (JsonValue.obj (renderToolContent.asText textType text)).Shows json ↔ PartOf json text := by
  unfold renderToolContent.asText
  rw [JsonValue.shows_ofFields (by simp) (by simp)]
  simp [h.not_partOf ht]

/-- A rendered block shows what its words show, where the image renderer does so. -/
theorem shows_renderToolContent {textType : String} (ht : Braceless textType)
    {renderImage : ImageContent → JsonObject}
    (himage : ∀ c, (JsonValue.obj (renderImage c)).Shows json ↔
      PartOf json (if c.isUrl then c.url else c.mimeType)) (block : ToolContent) :
    (JsonValue.obj (renderToolContent textType renderImage block)).Shows json ↔
      ∃ word ∈ Provider.blockWords block, PartOf json word := by
  have hsingle : ∀ word, (∃ w ∈ [word], PartOf json w) ↔ PartOf json word := fun word => by simp
  cases block with
  | text c => exact (shows_asText h ht _).trans (hsingle _).symm
  | image c =>
      refine (himage c).trans ?_
      show _ ↔ ∃ word ∈ (if c.isUrl then [c.url] else [c.mimeType]), PartOf json word
      split
      · exact (hsingle _).symm
      · exact (hsingle _).symm
  | audio c =>
      refine (shows_asText h ht _).trans ((partOf_note h (by decide) _).trans ?_)
      exact (partOf_mimeTypeOr h _ (by decide)).trans (hsingle _).symm
  | resource c =>
      show (JsonValue.obj (if !c.isBlob && !c.text.isEmpty then
          renderToolContent.asText textType c.text
        else renderToolContent.asText textType ("[resource: " ++ c.uri ++ "]"))).Shows json ↔
        ∃ word ∈ (if !c.isBlob && !c.text.isEmpty then [c.text] else [c.uri]), PartOf json word
      split
      · exact (shows_asText h ht _).trans (hsingle _).symm
      · exact (shows_asText h ht _).trans ((partOf_note h (by decide) _).trans (hsingle _).symm)
  | resourceLink c =>
      exact (shows_asText h ht _).trans ((partOf_note h (by decide) _).trans (hsingle _).symm)

theorem shows_claudeImage (c : ImageContent) :
    (JsonValue.obj (ClaudeMessage.image c)).Shows json ↔
      PartOf json (if c.isUrl then c.url else c.mimeType) := by
  unfold ClaudeMessage.image ClaudeMessage.imageSource
  rw [JsonValue.shows_ofFields (by simp) (by simp)]
  simp only [List.mem_cons, List.not_mem_nil, or_false, exists_eq_or_imp, exists_eq_left,
    JsonValue.shows_str, h.not_partOf (show Braceless "image" by decide), false_or]
  split
  · rw [JsonValue.shows_ofFields (by simp) (by simp)]
    simp [h.not_partOf (show Braceless "url" by decide)]
  · rw [JsonValue.shows_ofFields (by simp) (by simp)]
    simp [h.not_partOf (show Braceless "base64" by decide), h.not_partOf (braceless_toBase64 c.bytes),
      ImageContent.base64, partOf_mimeTypeOr h c.mimeType (show Braceless "image/png" by decide)]

theorem shows_inputImage (c : ImageContent) :
    (JsonValue.obj (OpenAIResponsesMessage.inputImage c)).Shows json ↔
      PartOf json (if c.isUrl then c.url else c.mimeType) := by
  unfold OpenAIResponsesMessage.inputImage OpenAIMessage.imageUrl
  rw [JsonValue.shows_ofFields (by simp) (by simp)]
  simp only [List.mem_cons, List.not_mem_nil, or_false, exists_eq_or_imp, exists_eq_left,
    JsonValue.shows_str, h.not_partOf (show Braceless "input_image" by decide),
    h.not_partOf (show Braceless "auto" by decide), false_or]
  split
  · exact Iff.rfl
  · rw [ImageContent.base64, h.partOf_append_right (braceless_toBase64 c.bytes),
      h.partOf_append_right (by decide), h.partOf_append_left (by decide)]
    exact partOf_mimeTypeOr h _ (by decide)

/-- What Gemini inlines of a block shows its mime type. -/
theorem shows_inlinePart (block : ToolContent) :
    (JsonValue.obj (GoogleMessage.toInlineDataPart block)).Shows json ↔
      (GoogleMessage.inlineData block).2 ≠ [] ∧ PartOf json (GoogleMessage.inlineData block).1 := by
  unfold GoogleMessage.toInlineDataPart
  dsimp only
  split
  · rename_i hempty
    simp [List.isEmpty_iff.mp hempty]
  · rename_i hbytes
    have hne : (GoogleMessage.inlineData block).2 ≠ [] := fun he => hbytes (by simp [he])
    rw [JsonValue.shows_ofFields (by simp) (by simp)]
    simp only [List.mem_singleton, exists_eq_left]
    rw [JsonValue.shows_ofFields (by simp) (by simp)]
    simp [h.not_partOf (braceless_toBase64 _), hne]

/-- What Gemini says of a block and inlines of it shows what its words show. -/
theorem partWords_iff (block : ToolContent) :
    (∃ word ∈ Provider.partWords block, PartOf json word) ↔
      (∃ chunk, GoogleMessage.responseChunk block = some chunk ∧ PartOf json chunk) ∨
        (JsonValue.obj (GoogleMessage.toInlineDataPart block)).Shows json := by
  have hnil : ¬PartOf json "" := h.not_partOf (by decide)
  rw [shows_inlinePart h]
  cases block with
  | text c =>
      by_cases ht : c.text = ""
      · simp [Provider.partWords, GoogleMessage.responseChunk, GoogleMessage.inlineData, ht, hnil]
      · simp [Provider.partWords, GoogleMessage.responseChunk, GoogleMessage.inlineData, ht]
  | image c =>
      have hmime := partOf_mimeTypeOr h c.mimeType (show Braceless "image/png" by decide)
      cases hurl : c.isUrl
      · by_cases hbytes : c.bytes = []
        · simp [Provider.partWords, GoogleMessage.responseChunk, GoogleMessage.inlineData, hurl,
            hbytes]
        · simp [Provider.partWords, GoogleMessage.responseChunk, GoogleMessage.inlineData, hurl,
            hbytes, hmime]
      · simp [Provider.partWords, GoogleMessage.responseChunk, GoogleMessage.inlineData, hurl]
  | audio c =>
      have hmime := partOf_mimeTypeOr h c.mimeType (show Braceless "audio/wav" by decide)
      by_cases hdata : c.data = []
      · simp [Provider.partWords, GoogleMessage.responseChunk, GoogleMessage.inlineData, hdata]
      · simp [Provider.partWords, GoogleMessage.responseChunk, GoogleMessage.inlineData, hdata,
          hmime]
  | resource c =>
      obtain ⟨uri, contents, mimeType⟩ := c
      have hmime := partOf_mimeTypeOr h mimeType (show Braceless "application/octet-stream" by decide)
      cases contents with
      | text value =>
          by_cases hv : value = ""
          · simp [Provider.partWords, GoogleMessage.responseChunk, GoogleMessage.inlineData,
              ResourceContent.isBlob, ResourceContent.text, hv, hnil]
          · simp [Provider.partWords, GoogleMessage.responseChunk, GoogleMessage.inlineData,
              ResourceContent.isBlob, ResourceContent.text, hv]
      | blob data =>
          by_cases hdata : data = []
          · simp [Provider.partWords, GoogleMessage.responseChunk, GoogleMessage.inlineData,
              ResourceContent.isBlob, ResourceContent.blob, hdata]
          · simp [Provider.partWords, GoogleMessage.responseChunk, GoogleMessage.inlineData,
              ResourceContent.isBlob, ResourceContent.blob, hdata, hmime]
  | resourceLink c =>
      have hnote := partOf_note h (show Braceless "[resource link: " by decide) c.uri
      simp [Provider.partWords, GoogleMessage.responseChunk, GoogleMessage.inlineData, hnote]

end Blocks

/-! ### Where the content of a message is -/

namespace Provider

variable (codec : JsonCodec) (use : ToolUseContent) (r : ToolResult)

theorem contentOf_claude :
    contentOf (resultMessage codec use r .claude) .claude = ClaudeMessage.toolResultContent r := by
  have hdef : (ClaudeMessage.toolResultContent r).isUndefined = false := by
    unfold ClaudeMessage.toolResultContent
    split <;> rfl
  show (ClaudeMessage.toolResultBlock use.id r).value "content" = _
  unfold ClaudeMessage.toolResultBlock
  dsimp only
  split
  · rw [JsonObject.value_insert_ne _ _ (by decide)]
    exact JsonObject.value_insert_self _ _ hdef
  · exact JsonObject.value_insert_self _ _ hdef

theorem contentOf_openAI :
    contentOf (resultMessage codec use r .openAI) .openAI = .str (toolResultText codec r) := by
  show (OpenAIMessage.toolMessage codec use.id r).value "content" = _
  exact JsonObject.value_insert_self _ _ (v := .str _) rfl

theorem contentOf_ollama :
    contentOf (resultMessage codec use r .ollama) .ollama = .str (toolResultText codec r) := by
  show (OllamaMessage.toolMessage codec r).value "content" = _
  exact JsonObject.value_insert_self _ _ (v := .str _) rfl

theorem contentOf_openAIResponses :
    contentOf (resultMessage codec use r .openAIResponses) .openAIResponses =
      if r.hasOnlyText then .str (toolResultText codec r)
      else .arr (r.content.map fun block =>
        .obj (OpenAIResponsesMessage.toResponsesInnerBlock block)) := by
  show (OpenAIResponsesMessage.toolResultItem codec use.id r).value "output" = _
  unfold OpenAIResponsesMessage.toolResultItem
  dsimp only
  split
  · exact JsonObject.value_insert_self _ _ rfl
  · exact JsonObject.value_insert_self _ _ rfl

/-- The text and the inlined parts of a function response are all it says. -/
theorem shows_functionResponse (name text : String) (media : List JsonValue) (word : String) :
    (contentOf (GoogleMessage.functionResponse name text media) .google).Shows word ↔
      PartOf word text ∨ ∃ part ∈ media, part.Shows word := by
  have hresponse : (JsonValue.obj (JsonObject.ofFields [("result", .str text)])).Shows word ↔
      PartOf word text := by
    rw [JsonValue.shows_ofFields (by simp) (by simp)]
    simp
  have houter : ∀ o, (JsonObject.ofFields [("functionResponse", JsonValue.obj o)]).value
      "functionResponse" = .obj o := fun o => JsonObject.value_insert_obj _ _ _
  have hbase : (JsonObject.ofFields [("name", .str name),
      ("response", .obj (JsonObject.ofFields [("result", .str text)]))]).value "response" =
      .obj (JsonObject.ofFields [("result", .str text)]) := JsonObject.value_insert_obj _ _ _
  have hnone : (JsonObject.ofFields [("name", .str name),
      ("response", .obj (JsonObject.ofFields [("result", .str text)]))]).value "parts" =
      .undefined := by
    simp [JsonObject.ofFields, JsonObject.value_insert]
  unfold contentOf GoogleMessage.functionResponse
  dsimp only
  rw [houter, JsonValue.toObject_obj, JsonValue.shows_arr]
  simp only [List.mem_cons, List.not_mem_nil, or_false, exists_eq_or_imp, exists_eq_left]
  cases media with
  | nil => simp [hbase, hnone, hresponse]
  | cons part rest =>
      rw [if_neg (by simp), JsonObject.value_insert_ne _ _ (by decide), hbase, hresponse,
        JsonObject.value_insert_arr, JsonValue.shows_arr]

/-! ### What is kept -/

variable {codec use r}

/-- The text of a result has its structured content at the end. -/
theorem partOf_resultText (hs : r.structuredContent ≠ []) :
    PartOf (codec.toJson r.structuredContent) (toolResultText codec r) := by
  have hne : r.structuredContent.isEmpty = false := by simpa using hs
  unfold toolResultText
  dsimp only
  rw [hne, if_neg Bool.false_ne_true]
  split
  · exact .refl _
  · exact PartOf.append_left (.refl _)

/-- The text of a result has the texts of its blocks. -/
theorem text_partOf_resultText {c : TextContent} (hc : .text c ∈ r.content) :
    PartOf c.text (toolResultText codec r) := by
  have hasText : PartOf c.text r.asText :=
    PartOf.join (List.mem_map_of_mem (f := toolContentAsText) hc) (.refl _)
  unfold toolResultText
  dsimp only
  split
  · exact hasText
  · split
    · rename_i hempty
      have hnil : r.asText = "" := by simpa using hempty
      rw [hnil, PartOf] at hasText
      have htext : c.text = "" := String.toList_inj.mp (List.infix_nil.mp hasText)
      rw [htext]
      exact .empty _
    · exact PartOf.append_right hasText.append_right

theorem shows_innerBlock_text (textType : String) (renderImage : ImageContent → JsonObject)
    (c : TextContent) :
    (JsonValue.obj (renderToolContent textType renderImage (.text c))).Shows c.text := by
  show (JsonValue.obj (renderToolContent.asText textType c.text)).Shows c.text
  unfold renderToolContent.asText
  rw [JsonValue.shows_ofFields (by simp) (by simp)]
  exact ⟨_, .tail _ (.head _), (JsonValue.shows_str _).mpr (.refl _)⟩

/-- Every text block of a result is rendered, by every provider. -/
theorem shows_text (p : Provider) {c : TextContent} (hc : .text c ∈ r.content) :
    (contentOf (resultMessage codec use r p) p).Shows c.text := by
  have htext : PartOf c.text (toolResultText codec r) := text_partOf_resultText hc
  cases p with
  | claude =>
      rw [contentOf_claude]
      unfold ClaudeMessage.toolResultContent
      split
      · rename_i hnil
        rw [hnil] at hc
        cases hc
      · rename_i c' hsingle
        rw [hsingle] at hc
        obtain rfl := ToolContent.text.inj (List.mem_singleton.mp hc)
        exact (JsonValue.shows_str _).mpr (.refl _)
      · rw [JsonValue.shows_arr]
        exact ⟨_, List.mem_map_of_mem hc, shows_innerBlock_text _ _ c⟩
  | openAI => exact contentOf_openAI codec use r ▸ (JsonValue.shows_str _).mpr htext
  | ollama => exact contentOf_ollama codec use r ▸ (JsonValue.shows_str _).mpr htext
  | openAIResponses =>
      rw [contentOf_openAIResponses]
      split
      · exact (JsonValue.shows_str _).mpr htext
      · rw [JsonValue.shows_arr]
        exact ⟨_, List.mem_map_of_mem hc, shows_innerBlock_text _ _ c⟩
  | google =>
      show (contentOf (GoogleMessage.toolResultPart codec use.name r) .google).Shows c.text
      unfold GoogleMessage.toolResultPart
      split
      · exact (shows_functionResponse _ _ _ _).mpr (.inl htext)
      · refine (shows_functionResponse _ _ _ _).mpr (.inl ?_)
        by_cases hempty : c.text = ""
        · rw [hempty]
          exact .empty _
        · -- only empty texts are left out
          have hchunk : c.text ∈ r.content.filterMap GoogleMessage.responseChunk :=
            List.mem_filterMap.mpr ⟨_, hc, by simp [GoogleMessage.responseChunk, hempty]⟩
          exact PartOf.join hchunk (.refl _)

/-- Where the blocks are rendered one by one, what they say is what is said. -/
theorem shows_blocks_iff {json : String} {render : ToolContent → JsonObject}
    (hrender : ∀ block, (JsonValue.obj (render block)).Shows json ↔
      ∃ word ∈ blockWords block, PartOf json word) (content : List ToolContent) :
    (JsonValue.arr (content.map fun block => .obj (render block))).Shows json ↔
      ∃ block ∈ content, ∃ word ∈ blockWords block, PartOf json word := by
  rw [JsonValue.shows_arr]
  constructor
  · rintro ⟨x, hx, hshows⟩
    obtain ⟨block, hblock, rfl⟩ := List.mem_map.mp hx
    exact ⟨block, hblock, (hrender block).mp hshows⟩
  · rintro ⟨block, hblock, hsaid⟩
    exact ⟨_, List.mem_map_of_mem hblock, (hrender block).mpr hsaid⟩

/-- Claude renders what the blocks say. -/
theorem shows_claude_iff {json : String} (h : Braced json) :
    (ClaudeMessage.toolResultContent r).Shows json ↔ SaidIn .claude json r.content := by
  unfold ClaudeMessage.toolResultContent SaidIn
  split
  · rename_i hnil
    simp [hnil, h.not_partOf (show Braceless "" by decide)]
  · rename_i c hsingle
    simp [hsingle, words, blockWords]
  · exact shows_blocks_iff
      (shows_renderToolContent h (show Braceless "text" by decide) (shows_claudeImage h)) _

/-- Gemini's text and parts of a mixed result have what the blocks say. -/
theorem shows_gemini_iff {json : String} (h : Braced json) :
    (contentOf (GoogleMessage.functionResponse use.name (GoogleMessage.buildGeminiResponseText r)
      (GoogleMessage.inlineParts r.content)) .google).Shows json ↔
      SaidIn .google json r.content := by
  have hparts : (∃ part ∈ GoogleMessage.inlineParts r.content, part.Shows json) ↔
      ∃ block ∈ r.content, (JsonValue.obj (GoogleMessage.toInlineDataPart block)).Shows json := by
    unfold GoogleMessage.inlineParts
    constructor
    · rintro ⟨part, hpart, hshows⟩
      obtain ⟨o, ho, rfl⟩ := List.mem_map.mp hpart
      obtain ⟨block, hblock, rfl⟩ := List.mem_map.mp (List.mem_filter.mp ho).1
      exact ⟨block, hblock, hshows⟩
    · rintro ⟨block, hblock, hshows⟩
      refine ⟨_, List.mem_map_of_mem (List.mem_filter.mpr ⟨List.mem_map_of_mem hblock, ?_⟩), hshows⟩
      cases hpart : GoogleMessage.toInlineDataPart block with
      | nil => rw [hpart, JsonValue.shows_empty] at hshows; exact hshows.elim
      | cons f rest => rfl
  rw [shows_functionResponse, GoogleMessage.buildGeminiResponseText, h.partOf_join, hparts]
  unfold SaidIn
  constructor
  · rintro (⟨chunk, hchunk, hpart⟩ | ⟨block, hblock, hshows⟩)
    · obtain ⟨block, hblock, heq⟩ := List.mem_filterMap.mp hchunk
      exact ⟨block, hblock, (partWords_iff h block).mpr (.inl ⟨chunk, heq, hpart⟩)⟩
    · exact ⟨block, hblock, (partWords_iff h block).mpr (.inr hshows)⟩
  · rintro ⟨block, hblock, hsaid⟩
    rcases (partWords_iff h block).mp hsaid with ⟨chunk, heq, hpart⟩ | hshows
    · exact .inl ⟨chunk, List.mem_filterMap.mpr ⟨block, hblock, heq⟩, hpart⟩
    · exact .inr ⟨block, hblock, hshows⟩

/-- The provider renders the results with the structured content: all of them, or those that are
only text. -/
def Appends (r : ToolResult) : Provider → Prop
  | .openAI | .ollama => True
  | .openAIResponses | .google => r.hasOnlyText = true
  | .claude => False

theorem shows_structured_iff (p : Provider) (hs : r.structuredContent ≠ [])
    (h : Braced (codec.toJson r.structuredContent)) :
    (contentOf (resultMessage codec use r p) p).Shows (codec.toJson r.structuredContent) ↔
      p.Appends r ∨ SaidIn p (codec.toJson r.structuredContent) r.content := by
  have htext : PartOf (codec.toJson r.structuredContent) (toolResultText codec r) :=
    partOf_resultText hs
  cases p with
  | claude =>
      rw [contentOf_claude]
      exact (shows_claude_iff h).trans (by simp [Appends])
  | openAI =>
      rw [contentOf_openAI]
      exact iff_of_true ((JsonValue.shows_str _).mpr htext) (.inl trivial)
  | ollama =>
      rw [contentOf_ollama]
      exact iff_of_true ((JsonValue.shows_str _).mpr htext) (.inl trivial)
  | openAIResponses =>
      rw [contentOf_openAIResponses]
      by_cases honly : r.hasOnlyText = true
      · rw [if_pos honly]
        exact iff_of_true ((JsonValue.shows_str _).mpr htext) (.inl honly)
      · rw [if_neg honly]
        refine Iff.trans ?_ (or_iff_right (a := r.hasOnlyText = true) honly).symm
        exact shows_blocks_iff
          (shows_renderToolContent h (show Braceless "input_text" by decide) (shows_inputImage h)) _
  | google =>
      show (contentOf (GoogleMessage.toolResultPart codec use.name r) .google).Shows _ ↔ _
      unfold GoogleMessage.toolResultPart
      by_cases honly : r.hasOnlyText = true
      · rw [if_pos honly]
        exact iff_of_true ((shows_functionResponse _ _ _ _).mpr (.inl htext)) (.inl honly)
      · rw [if_neg honly]
        exact (shows_gemini_iff h).trans (or_iff_right (a := r.hasOnlyText = true) honly).symm

end Provider

/-- **Each result of a round has its message in the continuation, and the message of a result
with structured content has the text of that content and of every text block exactly where the
provider appends it (OpenAI and Ollama always, Responses and Gemini to results that are only
text, Claude never), or some block says it already.** -/
theorem structured_results_kept_iff {codec : JsonCodec}
    (hcodec : ∀ o, o ≠ [] → Braced (codec.toJson o)) (p : Provider) {blocks : List TurnContent}
    {toolResults : ToolResults} {use : ToolUseContent} {r : ToolResult}
    (huse : use ∈ BaseMessage.toolUses blocks) (hr : toolResults.lookup use.id = some r)
    (hs : r.structuredContent ≠ []) :
    .obj (p.resultMessage codec use r) ∈ p.resultMessages codec blocks toolResults ∧
      (p.Keeps codec use r ↔
        p.Appends r ∨ p.SaidIn (codec.toJson r.structuredContent) r.content) := by
  refine ⟨List.mem_filterMap.mpr ⟨use, huse, by rw [hr]; rfl⟩, ?_⟩
  have hshows : (p.contentOf (p.resultMessage codec use r)).Shows (codec.toJson r.structuredContent) ↔
      p.Appends r ∨ p.SaidIn (codec.toJson r.structuredContent) r.content :=
    p.shows_structured_iff hs (hcodec _ hs)
  rw [← hshows]
  exact ⟨fun hkeeps => hkeeps.structured, fun hshown => ⟨hshown, fun _ hc => p.shows_text hc⟩⟩

/-- A writer of JSON, as far as it writes a temperature. -/
def temperatureCodec : JsonCodec where
  fromJson _ := .null
  toJson _ := "\x7b\"temp_c\":22\x7d"

theorem braced_temperature (o : JsonObject) : Braced (temperatureCodec.toJson o) where
  braces := by
    refine ⟨"\"temp_c\":22".toList, ?_⟩
    show "\x7b\"temp_c\":22\x7d".toList = _
    decide
  line := by
    show '\n' ∉ "\x7b\"temp_c\":22\x7d".toList
    decide

/-- A measured temperature, with some blocks. -/
def temperature (content : List ToolContent) : ToolResult where
  content := content
  structuredContent := [("temp_c", .num 22)]

def weatherUse : ToolUseContent := ⟨"call_1", "get_weather", []⟩

theorem structured_results_kept_iff_google :
    Provider.google.Keeps temperatureCodec weatherUse (temperature [.text ⟨"22 C"⟩]) := by
  have huse : weatherUse ∈ BaseMessage.toolUses [.toolUse weatherUse] := .head _
  have hresult : (AList.insert "call_1" (temperature [.text ⟨"22 C"⟩]) ∅ : ToolResults).lookup
      weatherUse.id = some (temperature [.text ⟨"22 C"⟩]) := AList.lookup_insert _
  have hround := structured_results_kept_iff (fun o _ => braced_temperature o) .google huse
    hresult (List.cons_ne_nil _ _)
  exact hround.2.mpr (.inl rfl)

/-- Without blocks, nothing is left of the temperature for Claude; with an image, the other two
providers that render blocks lose it. -/
theorem structured_results_lost :
    ¬Provider.claude.Keeps temperatureCodec weatherUse (temperature []) ∧
      ∀ p : Provider, p = .openAIResponses ∨ p = .google →
        ¬p.Keeps temperatureCodec weatherUse
          (temperature [.image ⟨.bytes [137], "image/png"⟩]) := by
  have h := braced_temperature [("temp_c", .num 22)]
  refine ⟨fun hkeeps => ?_, fun p hp hkeeps => ?_⟩
  · have hsaid := (Provider.shows_structured_iff .claude (List.cons_ne_nil _ _) h).mp
      hkeeps.structured
    simp [Provider.Appends, Provider.SaidIn, temperature] at hsaid
  · have hsaid := (Provider.shows_structured_iff p (List.cons_ne_nil _ _) h).mp hkeeps.structured
    have hmime := h.not_partOf (show Braceless "image/png" by decide)
    rcases hp with rfl | rfl
    · simp [Provider.Appends, Provider.SaidIn, temperature, ToolResult.hasOnlyText, Provider.words,
        Provider.blockWords, ImageContent.isUrl, hmime] at hsaid
    · simp [Provider.Appends, Provider.SaidIn, temperature, ToolResult.hasOnlyText, Provider.words,
        Provider.partWords, ImageContent.isUrl, ImageContent.bytes, hmime] at hsaid

end LLMQore
