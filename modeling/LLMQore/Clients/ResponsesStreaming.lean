import LLMQore.Clients.OpenAIResponses
import LLMQore.Core.Undisturbed
import LLMQore.Streaming.Lanes

/-!
# LLMQore.Clients.ResponsesStreaming

What the caller of a streamed response gets of its text.

The parts of a response stream in any order between them. The deltas append to the text of the
round, but what says that a part is done has the text of the part for the text of the round.
So the part that is done last is all there is (`settled_cases`), and only where no other part has
a text is nothing lost (`parts_delivered_iff`). The buffered response loses nothing.
-/

namespace LLMQore

open Reentrant Network Tools Streaming

/-! ### Events that call no tool -/

namespace OpenAIResponsesMessage

variable {m : OpenAIResponsesMessage} (codec : JsonCodec)

/-- The message calls no tool, and waits for none. -/
abbrev Toolless (m : OpenAIResponsesMessage) : Prop := m.toBaseMessage.Toolless

theorem toolless_withReasoning (h : m.Toolless) (itemId : String) :
    (m.withReasoning itemId).Toolless := by
  unfold withReasoning
  split
  · exact h
  · exact BaseMessage.Toolless.addCurrentContent h rfl

theorem toolless_changeReasoning (h : m.Toolless) (itemId : String)
    (f : ThinkingContent → ThinkingContent) : (m.changeReasoning itemId f).Toolless := by
  unfold changeReasoning
  split
  · exact h
  · exact BaseMessage.Toolless.changeBlock h _ (TurnContent.keepsToolUse_onThinking f)

theorem toolless_handleReasoningEncryptedContent (h : m.Toolless)
    (itemId encryptedContent : String) :
    (m.handleReasoningEncryptedContent itemId encryptedContent).Toolless := by
  unfold handleReasoningEncryptedContent
  split
  · exact h
  · exact toolless_changeReasoning (toolless_withReasoning h itemId) _ _

theorem toolless_handleReasoningDelta (h : m.Toolless) (itemId text : String) :
    (m.handleReasoningDelta itemId text).Toolless := by
  unfold handleReasoningDelta
  split
  · exact h
  · exact toolless_changeReasoning (toolless_withReasoning h itemId) _ _

theorem toolless_applyReasoningItem (h : m.Toolless) (itemId : String) (item : JsonObject)
    (placeholder : String) : (m.applyReasoningItem itemId item placeholder).Toolless := by
  unfold applyReasoningItem
  dsimp only
  split
  · exact h
  · generalize (if (reasoningTextOf item).isEmpty then placeholder else _) = text
    split
    · exact h
    · exact toolless_handleReasoningEncryptedContent (toolless_handleReasoningDelta h _ _) _ _

theorem toolless_handleToolCallComplete (h : m.Toolless) (callId finalArguments : String) :
    (m.handleToolCallComplete codec callId finalArguments).Toolless :=
  BaseMessage.Toolless.completeToolCall h codec m.toolCalls callId finalArguments

theorem toolless_applyItemDone (h : m.Toolless) (data : JsonObject) :
    (m.applyItemDone codec data).1.Toolless := by
  unfold applyItemDone
  dsimp only
  repeat' split
  all_goals first
    | exact h
    | exact toolless_applyReasoningItem h _ _ _
    | exact toolless_handleToolCallComplete codec h _ _

theorem toolless_addItem (h : m.Toolless) {item : JsonObject}
    (hitem : (item.value "type").toString ≠ "function_call") : (m.addItem item).Toolless := by
  unfold addItem
  dsimp only
  rw [if_neg hitem]
  split
  · exact toolless_handleReasoningEncryptedContent
      (BaseMessage.Toolless.addCurrentContent h rfl) _ _
  · exact h

theorem toolless_handleStopReason (h : m.Toolless) (status : String) :
    (m.handleStopReason status).Toolless :=
  BaseMessage.Toolless.recordStopReason h status (by decide)

theorem toolless_handleContentDelta (h : m.Toolless) (text : String) :
    (m.handleContentDelta text).Toolless :=
  BaseMessage.Toolless.setText h (· ++ text)

theorem toolless_applyTerminal (h : m.Toolless) (response : JsonObject) (fallbackStatus : String) :
    (m.applyTerminal response fallbackStatus).1.Toolless := by
  unfold applyTerminal
  split
  · exact toolless_handleStopReason h _
  · exact toolless_handleStopReason h _

end OpenAIResponsesMessage

/-! ### The text of a stream -/

/-- What an event says of the text of a part. -/
inductive TextStep where
  | delta (fragment : String)
  | done (text : String)

/-- The text of the round after a step. -/
def TextStep.after (text : String) : TextStep → String
  | .delta fragment => text ++ fragment
  | .done t => if t.isEmpty then text else t

/-- The steps of a part from some point on. Where its text is empty, so are its fragments. -/
def PartSteps (steps : List TextStep) : Prop :=
  steps = [] ∨ ∃ fragments text, (text = "" → String.join fragments = "") ∧
    steps = fragments.map .delta ++ [.done text]

theorem PartSteps.of_delta {fragment : String} {steps : List TextStep}
    (h : PartSteps (.delta fragment :: steps)) :
    PartSteps steps ∧ ∃ text, (text = "" → fragment = "") ∧ .done text ∈ steps := by
  obtain h | ⟨fragments, text, htext, h⟩ := h
  · cases h
  · cases fragments with
    | nil => cases h
    | cons first rest =>
        rw [List.map_cons, List.cons_append, List.cons.injEq, TextStep.delta.injEq] at h
        obtain ⟨rfl, rfl⟩ := h
        have hsplit (ht : text = "") : fragment = "" ∧ String.join rest = "" := by
          have hjoin := htext ht
          rw [String.join_cons] at hjoin
          exact String.append_eq_empty_iff.mp hjoin
        exact ⟨.inr ⟨rest, text, fun ht => (hsplit ht).2, rfl⟩, text, fun ht => (hsplit ht).1,
          by simp⟩

theorem PartSteps.of_done {text : String} {steps : List TextStep}
    (h : PartSteps (.done text :: steps)) : steps = [] := by
  obtain h | ⟨fragments, t, -, h⟩ := h
  · cases h
  · cases fragments with
    | nil => exact (List.cons.inj h).2
    | cons first rest => cases h

/-- The text is that of the last part to be done that has one. -/
theorem settled_cases (steps : List (Nat × TextStep)) : ∀ text, (∀ i, PartSteps (lane i steps)) →
    (steps.map Prod.snd).foldl TextStep.after text = text ∧
        (∀ i t, (i, .done t) ∈ steps → t = "") ∨
      ∃ i t, t ≠ "" ∧ (i, .done t) ∈ steps ∧
        (steps.map Prod.snd).foldl TextStep.after text = t := by
  induction steps with
  | nil => exact fun text _ => .inl ⟨rfl, nofun⟩
  | cons head rest ih =>
      obtain ⟨i, step⟩ := head
      intro text h
      have hlane : PartSteps (step :: lane i rest) := by
        have hi := h i
        rwa [lane_cons, if_pos rfl] at hi
      have hrest : PartSteps (lane i rest) → ∀ j, PartSteps (lane j rest) := by
        intro hi j
        by_cases hj : i = j
        · exact hj ▸ hi
        · have hother := h j
          rwa [lane_cons, if_neg hj] at hother
      rw [List.map_cons, List.foldl_cons]
      cases step with
      | delta fragment =>
          obtain ⟨hi, t, ht, hmem⟩ := hlane.of_delta
          obtain ⟨he, hempty⟩ | ⟨j, t', hne, hmem', he⟩ := ih (text ++ fragment) (hrest hi)
          · refine .inl ⟨?_, ?_⟩
            · rw [TextStep.after, he, ht (hempty i t (mem_lane.mp hmem)), String.append_empty]
            · intro j t' hmem'
              obtain hmem' | hmem' := List.mem_cons.mp hmem'
              · cases hmem'
              · exact hempty j t' hmem'
          · exact .inr ⟨j, t', hne, List.mem_cons_of_mem _ hmem', he⟩
      | done t =>
          have hi : PartSteps (lane i rest) := .inl hlane.of_done
          obtain ⟨he, hempty⟩ | ⟨j, t', hne, hmem', he⟩ :=
            ih (TextStep.after text (.done t)) (hrest hi)
          · by_cases ht : t = ""
            · refine .inl ⟨by rw [he, ht]; rfl, ?_⟩
              intro j t' hmem'
              obtain hmem' | hmem' := List.mem_cons.mp hmem'
              · cases hmem'
                exact ht
              · exact hempty j t' hmem'
            · refine .inr ⟨i, t, ht, List.mem_cons_self, ?_⟩
              rw [he, TextStep.after, if_neg (by simpa using ht)]
          · exact .inr ⟨j, t', hne, List.mem_cons_of_mem _ hmem', he⟩

theorem join_filter_isEmpty (texts : List String) :
    String.join (texts.filter (!·.isEmpty)) = String.join texts := by
  induction texts with
  | nil => rfl
  | cons first rest ih =>
      by_cases h : first = ""
      · rw [List.filter_cons_of_neg (by simp [h]), ih, String.join_cons, h, String.empty_append]
      · rw [List.filter_cons_of_pos (by simpa using h), String.join_cons, ih, String.join_cons]

/-- One of some texts is all of them just where no other has a text. -/
theorem eq_join_iff {texts : List String} {t : String} (hmem : t ∈ texts) (hne : t ≠ "") :
    t = String.join texts ↔ (texts.filter (!·.isEmpty)).length ≤ 1 := by
  have hfilter : t ∈ texts.filter (!·.isEmpty) :=
    List.mem_filter.mpr ⟨hmem, by simpa using hne⟩
  obtain ⟨before, after, he⟩ := List.append_of_mem hfilter
  have hnonempty : ∀ s ∈ before ++ t :: after, s ≠ "" := by
    intro s hs
    rw [← he] at hs
    simpa using (List.mem_filter.mp hs).2
  rw [← join_filter_isEmpty texts, he, String.join_append, String.join_cons]
  have hsplit : t = String.join before ++ (t ++ String.join after) ↔ before = [] ∧ after = [] := by
    constructor
    · intro h
      have hlength := congrArg String.length h
      rw [String.length_append, String.length_append] at hlength
      have hbefore : String.join before = "" := by
        rw [← String.length_eq_zero_iff]
        omega
      have hafter : String.join after = "" := by
        rw [← String.length_eq_zero_iff]
        omega
      refine ⟨List.eq_nil_iff_forall_not_mem.mpr fun s hs => ?_,
        List.eq_nil_iff_forall_not_mem.mpr fun s hs => ?_⟩
      · exact hnonempty s (List.mem_append_left _ hs) (join_eq_empty_iff.mp hbefore s hs)
      · exact hnonempty s (List.mem_append_right _ (List.mem_cons_of_mem _ hs))
          (join_eq_empty_iff.mp hafter s hs)
    · rintro ⟨rfl, rfl⟩
      simp
  rw [hsplit]
  simp only [List.length_append, List.length_cons]
  constructor
  · rintro ⟨rfl, rfl⟩
    simp
  · intro h
    exact ⟨List.length_eq_zero_iff.mp (by omega), List.length_eq_zero_iff.mp (by omega)⟩

/-! ### Streams and answers -/

namespace OpenAIResponsesClient

/-- The step an event makes. -/
def textStep : StreamEvent → Option TextStep
  | .sse event data =>
      if event.type = "response.output_text.delta" then
        some (.delta (data.value "delta").toString)
      else if event.type = "response.output_text.done" then
        some (.done (data.value "text").toString)
      else none
  | .line _ => none

/-- The events that end a response. -/
def endings : List String :=
  ["response.completed", "response.incomplete", "response.failed", "error"]

/-- An event in the middle of a response that calls no tool. -/
def Passing : StreamEvent → Prop
  | .sse event data =>
      event.type ∉ endings ∧ (event.type = "response.output_item.added" →
        ((data.value "item").toObject.value "type").toString ≠ "function_call")
  | .line _ => False

/-- The events of a response whose parts have the given texts, up to its last one. -/
structure TextStream (texts : List String) (events : List StreamEvent) : Prop where
  passing : ∀ event ∈ events, Passing event
  /-- Each part comes in fragments of its text, and in the end as a whole. -/
  parts : ∃ steps : List (Nat × TextStep), events.filterMap textStep = steps.map Prod.snd ∧
    (∀ s ∈ steps, s.1 < texts.length) ∧
    ∀ i text, texts[i]? = some text → ∃ fragments, String.join fragments = text ∧
      lane i steps = fragments.map .delta ++ [.done text]

/-- The texts of the parts of a response. -/
def partTexts (response : JsonObject) : List String :=
  ((response.value "output").toArray.filter fun item =>
    (item.toObject.value "type").toString = "message").flatMap fun item =>
      (item.toObject.value "content").toArray.filterMap
        (OpenAIResponsesMessage.textOfType "output_text")

/-- A response that calls no tool and reports no error. -/
structure TextAnswer (response : JsonObject) : Prop where
  outputText : (response.value "output_text").toString = "" ∨
    (response.value "output_text").toString = String.join (partTexts response)
  noCalls : ∀ item ∈ (response.value "output").toArray,
    (item.toObject.value "type").toString ≠ "function_call"
  status : (response.value "status").toString ≠ "failed"
  noError : errorIn response = none

/-- The event that has the whole response. -/
def EndsWith (response : JsonObject) : StreamEvent → Prop
  | .sse event data =>
      (event.type = "response.completed" ∨ event.type = "response.incomplete") ∧
        (data.value "response").toObject = response
  | .line _ => False

theorem partSteps_lane {texts : List String} {steps : List (Nat × TextStep)}
    (hknown : ∀ s ∈ steps, s.1 < texts.length)
    (hlanes : ∀ i text, texts[i]? = some text → ∃ fragments, String.join fragments = text ∧
      lane i steps = fragments.map .delta ++ [.done text]) (i : Nat) : PartSteps (lane i steps) := by
  by_cases hi : i < texts.length
  · obtain ⟨fragments, hjoin, he⟩ := hlanes i texts[i] (List.getElem?_eq_getElem hi)
    exact .inr ⟨fragments, texts[i], fun h => hjoin.trans h, he⟩
  · exact .inl (lane_eq_nil fun s hs he => hi (he ▸ hknown s hs))

/-- The text the round comes to is that of all parts just where no two of them have one. -/
theorem TextStream.settled {texts : List String} {events : List StreamEvent}
    (h : TextStream texts events) :
    ((events.filterMap textStep).foldl TextStep.after "" = String.join texts ↔
        (texts.filter (!·.isEmpty)).length ≤ 1) ∧
      ((events.filterMap textStep).foldl TextStep.after "" = "" → String.join texts = "") := by
  obtain ⟨steps, he, hknown, hlanes⟩ := h.parts
  have hdone : ∀ i text, texts[i]? = some text → (i, .done text) ∈ steps := by
    intro i text hi
    obtain ⟨fragments, -, hlane⟩ := hlanes i text hi
    rw [← mem_lane, hlane]
    simp
  have htext : ∀ i text, (i, .done text) ∈ steps → text ∈ texts := by
    intro i text hmem
    have hi := hknown _ hmem
    obtain ⟨fragments, -, hlane⟩ := hlanes i texts[i] (List.getElem?_eq_getElem hi)
    rw [← mem_lane, hlane] at hmem
    have heq : text = texts[i] := by simpa using hmem
    exact heq ▸ List.getElem_mem hi
  rw [he]
  obtain ⟨hsettled, hempty⟩ | ⟨i, t, hne, hmem, hsettled⟩ :=
    settled_cases steps "" (partSteps_lane hknown hlanes)
  · have hall : ∀ t ∈ texts, t = "" := by
      intro t ht
      obtain ⟨i, hi⟩ := List.mem_iff_getElem?.mp ht
      exact hempty i t (hdone i t hi)
    have hjoin := join_eq_empty_iff.mpr hall
    have hfilter : texts.filter (!·.isEmpty) = [] :=
      List.filter_eq_nil_iff.mpr fun t ht => by simp [hall t ht]
    rw [hsettled, hjoin, hfilter]
    simp
  · rw [hsettled]
    exact ⟨eq_join_iff (htext i t hmem) hne, fun h => absurd h hne⟩

/-! ### What the client makes of them -/

section Events

variable (codec : JsonCodec) {m : OpenAIResponsesMessage}

/-- What an event in the middle of a response leads to. -/
structure Passed (step : Option TextStep) (r : OpenAIResponsesMessage × MessageEffects) :
    Prop where
  toolless : r.1.Toolless
  error : r.2.error = none
  text : ∀ text, r.2.replaced text ++ r.2.chunk = step.elim text (TextStep.after text)

/-- An event that has nothing to do with the text. -/
theorem Passed.quiet {r : OpenAIResponsesMessage × MessageEffects} (h : r.1.Toolless)
    (herror : r.2.error = none) (hfull : r.2.fullText = "") (hfallback : r.2.fallbackText = "")
    (hchunk : r.2.chunk = "") : Passed none r :=
  ⟨h, herror, fun text => by simp [MessageEffects.replaced, hfull, hfallback, hchunk]⟩

theorem applyItemDone_quiet (m : OpenAIResponsesMessage) (data : JsonObject) :
    let effects := (m.applyItemDone codec data).2
    effects.error = none ∧ effects.fullText = "" ∧ effects.fallbackText = "" ∧
      effects.chunk = "" := by
  unfold OpenAIResponsesMessage.applyItemDone
  dsimp only
  repeat' split
  all_goals simp

theorem applyEvent_passed (hm : m.Toolless) {event : SSEEvent} {data : JsonObject}
    (h : Passing (.sse event data)) :
    Passed (textStep (.sse event data)) (m.applyEvent codec event.type data) := by
  obtain ⟨hending, hitem⟩ := h
  simp only [endings, List.mem_cons, List.not_mem_nil, or_false, not_or] at hending
  obtain ⟨hcompleted, hincomplete, hfailed, herror⟩ := hending
  unfold textStep OpenAIResponsesMessage.applyEvent
  dsimp only
  by_cases hdelta : event.type = "response.output_text.delta"
  · rw [if_pos hdelta, if_pos hdelta]
    refine ⟨?_, rfl, fun text => ?_⟩
    · dsimp only
      split
      · exact hm
      · exact OpenAIResponsesMessage.toolless_handleContentDelta hm _
    · simp [MessageEffects.replaced, TextStep.after]
  rw [if_neg hdelta, if_neg hdelta]
  by_cases hdone : event.type = "response.output_text.done"
  · rw [if_pos hdone, if_pos hdone]
    refine ⟨hm, rfl, fun text => ?_⟩
    simp only [MessageEffects.replaced, Option.elim_some, TextStep.after, String.append_empty]
    cases (data.value "text").toString.isEmpty <;> simp
  rw [if_neg hdone, if_neg hdone]
  -- what is left has nothing to do with the text
  split
  · exact .quiet (OpenAIResponsesMessage.toolless_addItem hm (hitem ‹_›)) rfl rfl rfl rfl
  split
  · exact .quiet (OpenAIResponsesMessage.toolless_handleReasoningDelta hm _ _) rfl rfl rfl rfl
  split
  · exact .quiet hm rfl rfl rfl rfl
  split
  · refine .quiet ?_ rfl rfl rfl rfl
    dsimp only
    split
    · exact hm
    · exact hm
  split
  · obtain ⟨he, hfull, hfallback, hchunk⟩ := applyItemDone_quiet codec m data
    exact .quiet (OpenAIResponsesMessage.toolless_applyItemDone codec hm data) he hfull hfallback
      hchunk
  exact .quiet hm rfl rfl rfl rfl

theorem aggregatedTextOf_eq {response : JsonObject} (h : TextAnswer response) :
    OpenAIResponsesMessage.aggregatedTextOf response = String.join (partTexts response) := by
  unfold OpenAIResponsesMessage.aggregatedTextOf
  dsimp only
  split
  · rename_i hne
    obtain he | he := h.outputText
    · rw [he] at hne
      cases hne
    · exact he
  · rfl

/-- The last event of a response adds nothing to a text that has all parts if it is empty. -/
theorem applyEvent_last (hm : m.Toolless) {response : JsonObject} (hanswer : TextAnswer response)
    {event : SSEEvent} {data : JsonObject} (h : EndsWith response (.sse event data)) :
    (m.applyEvent codec event.type data).1.Toolless ∧
      (m.applyEvent codec event.type data).2.error = none ∧
      ∀ text, (text = "" → String.join (partTexts response) = "") →
        (m.applyEvent codec event.type data).2.replaced text ++
          (m.applyEvent codec event.type data).2.chunk = text := by
  obtain ⟨htype, rfl⟩ := h
  have hterminal : ∃ status, m.applyEvent codec event.type data =
      m.applyTerminal (data.value "response").toObject status := by
    obtain htype | htype := htype
    · exact ⟨"", by rw [htype]; rfl⟩
    · exact ⟨"incomplete", by rw [htype]; rfl⟩
  obtain ⟨status, he⟩ := hterminal
  rw [he]
  refine ⟨OpenAIResponsesMessage.toolless_applyTerminal hm _ _, ?_, fun text htext => ?_⟩
  · unfold OpenAIResponsesMessage.applyTerminal
    split <;> rfl
  · unfold OpenAIResponsesMessage.applyTerminal
    split
    · simp [MessageEffects.replaced]
    · simp only [MessageEffects.replaced, aggregatedTextOf_eq hanswer]
      by_cases h : text = ""
      · simp [htext h]
      · simp [h]

theorem toolless_handleContentDeltas (texts : List String) :
    ∀ {m : OpenAIResponsesMessage}, m.Toolless →
      (texts.foldl OpenAIResponsesMessage.handleContentDelta m).Toolless := by
  induction texts with
  | nil => exact fun h => h
  | cons text rest ih =>
      exact fun h => ih (OpenAIResponsesMessage.toolless_handleContentDelta h text)

/-- What some output items lead to. -/
structure Gathered (texts : List String) (r r' : OpenAIResponsesMessage × MessageEffects) :
    Prop where
  toolless : r'.1.Toolless
  effects : r'.2 = { r.2 with chunk := r.2.chunk ++ String.join texts }

theorem applyOutputItem_gathered {r : OpenAIResponsesMessage × MessageEffects}
    (hm : r.1.Toolless) {item : JsonObject}
    (hitem : (item.value "type").toString ≠ "function_call") :
    Gathered (if (item.value "type").toString = "message" then
        (item.value "content").toArray.filterMap (OpenAIResponsesMessage.textOfType "output_text")
      else []) r (OpenAIResponsesMessage.applyOutputItem codec r item) := by
  unfold OpenAIResponsesMessage.applyOutputItem
  dsimp only
  by_cases hreasoning : (item.value "type").toString = "reasoning"
  · have hother : (item.value "type").toString ≠ "message" := by
      rw [hreasoning]
      decide
    rw [if_pos hreasoning, if_neg hother]
    exact ⟨OpenAIResponsesMessage.toolless_applyReasoningItem hm _ _ _, by simp⟩
  rw [if_neg hreasoning]
  by_cases hmessage : (item.value "type").toString = "message"
  · rw [if_pos hmessage, if_pos hmessage]
    refine ⟨toolless_handleContentDeltas _ hm, ?_⟩
    simp only [OpenAIResponsesMessage.outputTexts, join_filter_isEmpty]
  · rw [if_neg hmessage, if_neg hmessage, if_neg hitem]
    exact ⟨hm, by simp⟩

theorem applyOutput_gathered (output : List JsonValue) :
    ∀ {r : OpenAIResponsesMessage × MessageEffects}, r.1.Toolless →
      (∀ item ∈ output, (item.toObject.value "type").toString ≠ "function_call") →
      Gathered ((output.filter fun item =>
          (item.toObject.value "type").toString = "message").flatMap fun item =>
            (item.toObject.value "content").toArray.filterMap
              (OpenAIResponsesMessage.textOfType "output_text")) r
        (output.foldl (fun r item => OpenAIResponsesMessage.applyOutputItem codec r item.toObject)
          r) := by
  induction output with
  | nil => exact fun hm _ => ⟨hm, by simp⟩
  | cons item rest ih =>
      intro r hm hcalls
      have hitem := applyOutputItem_gathered codec hm (hcalls item List.mem_cons_self)
      have hrest := ih hitem.toolless fun item h => hcalls item (List.mem_cons_of_mem _ h)
      refine ⟨hrest.toolless, ?_⟩
      rw [List.foldl_cons, hrest.effects, hitem.effects]
      by_cases hmessage : (item.toObject.value "type").toString = "message"
      · rw [if_pos hmessage, List.filter_cons_of_pos (by simpa using hmessage),
          List.flatMap_cons, String.join_append, String.append_assoc]
      · rw [if_neg hmessage, List.filter_cons_of_neg (by simpa using hmessage)]
        simp

/-- A buffered response gives its whole text in one chunk. -/
theorem applyResponse_read (hm : m.Toolless) {response : JsonObject}
    (hanswer : TextAnswer response) :
    (m.applyResponse codec response).1.Toolless ∧
      (m.applyResponse codec response).2.error = none ∧
      ∀ text, (m.applyResponse codec response).2.replaced text ++
        (m.applyResponse codec response).2.chunk = text ++ String.join (partTexts response) := by
  have houtput := applyOutput_gathered codec (response.value "output").toArray (r := (m, {})) hm
    hanswer.noCalls
  unfold OpenAIResponsesMessage.applyResponse
  dsimp only
  generalize List.foldl _ (m, ({} : MessageEffects)) (response.value "output").toArray = r
    at houtput ⊢
  obtain ⟨read, effects⟩ := r
  obtain ⟨htoolless, heffects⟩ := houtput
  dsimp only at htoolless heffects ⊢
  subst heffects
  rw [if_neg hanswer.status]
  split
  · exact ⟨htoolless, rfl, fun text => by simp [MessageEffects.replaced, partTexts]⟩
  · exact ⟨OpenAIResponsesMessage.toolless_handleStopReason htoolless _, rfl,
      fun text => by simp [MessageEffects.replaced, partTexts]⟩

end Events

end OpenAIResponsesClient

/-! ### The text the caller gets -/

/-- The client of the Responses API. -/
abbrev openAIResponses (codec : JsonCodec) (reasoning : ReasoningPersistence)
    (definitions : ToolsManager → List JsonValue) : BaseClient :=
  ⟨openAIResponsesClient codec reasoning definitions, codec⟩

section Delivery

variable {codec : JsonCodec} {reasoning : ReasoningPersistence}
  {definitions : ToolsManager → List JsonValue}

open OpenAIResponsesClient

theorem endsPlainly_openAIResponses :
    BaseClient.EndsPlainly (openAIResponses codec reasoning definitions).provider :=
  ⟨fun _ => rfl, rfl⟩

/-- A turn of a request is about to be answered. -/
structure Unanswered (v : RequestView (openAIResponses codec reasoning definitions).provider) :
    Prop where
  text : v.text = ""
  message : OpenAIResponsesClient.ensure v.message = {}

/-- A request in the middle of a response that calls no tool; `settled` is the text the round
comes to. -/
structure InText (closed : String) (completed : List String) (settled : String)
    (v : RequestView (openAIResponses codec reasoning definitions).provider)
    (events : List StreamEvent) : Prop where
  closed : v.closed = closed
  completed : v.emitted.completed = completed
  ready : (OpenAIResponsesClient.ensure v.message).Toolless
  text : (events.filterMap textStep).foldl TextStep.after v.text = settled

theorem toolless_ensure {message : OpenAIResponsesMessage} (h : message.Toolless) :
    (OpenAIResponsesClient.ensure (some message)).Toolless := by
  have he : OpenAIResponsesClient.ensure (some message) = message := if_neg h.state
  rwa [he]

/-- One more event of a response. -/
theorem InText.apply {closed settled : String} {completed : List String}
    {v : RequestView (openAIResponses codec reasoning definitions).provider} {event : StreamEvent}
    {rest : List StreamEvent} (h : InText closed completed settled v (event :: rest))
    {message : OpenAIResponsesMessage} {effects : MessageEffects} (hmessage : message.Toolless)
    (htext : effects.replaced v.text ++ effects.chunk =
      (textStep event).elim v.text (TextStep.after v.text)) :
    (∀ m, (v.apply message effects).message = some m → OpenAIResponsesMessage.Toolless m) ∧
      InText closed completed settled (v.apply message effects) rest := by
  have htoolless : ∀ m, (v.apply message effects).message = some m →
      OpenAIResponsesMessage.Toolless m := by
    obtain ⟨m, hm, htoolless⟩ := RequestView.message_apply
      (P := (openAIResponses codec reasoning definitions).provider)
      (p := OpenAIResponsesMessage.Toolless) hmessage hmessage.takePending v effects
    intro m' hm'
    obtain rfl := Option.some.inj (hm.symm.trans hm')
    exact htoolless
  refine ⟨htoolless, ?_, ?_, ?_, ?_⟩
  · exact (RequestView.closed_apply v message effects).trans h.closed
  · exact (RequestView.completed_apply v message effects).trans h.completed
  · cases hm : (v.apply message effects).message with
    | none => exact .fresh
    | some m =>
        exact toolless_ensure (htoolless m hm)
  · have hafter := (RequestView.text_apply v message effects).trans htext
    rw [hafter, ← h.text, List.filterMap_cons]
    cases textStep event with
    | none => rfl
    | some step => rfl

/-- The view of a request in a stream of events that `last` ends. -/
inductive Streaming (closed : String) (completed : List String) (settled : String)
    (last : StreamEvent) (v : RequestView (openAIResponses codec reasoning definitions).provider) :
    List StreamEvent → Prop
  | body (events : List StreamEvent) (passing : ∀ event ∈ events, Passing event)
      (text : InText closed completed settled v (events ++ [last])) :
      Streaming closed completed settled last v (events ++ [last])
  | finished (text : InText closed completed settled v [])
      (toolless : ∀ m, v.message = some m → OpenAIResponsesMessage.Toolless m) :
      Streaming closed completed settled last v []

/-- Each event of the stream is read, and none leads to tools. -/
theorem Streaming.step {closed settled : String} {completed : List String} {last : StreamEvent}
    {response : JsonObject} (hanswer : TextAnswer response) (hlast : EndsWith response last)
    (hsettled : settled = "" → String.join (partTexts response) = "")
    {v : RequestView (openAIResponses codec reasoning definitions).provider} {event : StreamEvent}
    {rest : List StreamEvent} (h : Streaming closed completed settled last v (event :: rest)) :
    ∃ message effects,
      (openAIResponses codec reasoning definitions).provider.processEvent v.message event =
        .applied message effects ∧
      effects.error = none ∧
      (effects.toolsReady = true → ∀ m, (v.apply message effects).message = some m →
        (OpenAIResponsesMessage.toBaseMessage m).state ≠ .requiresToolExecution) ∧
      Streaming closed completed settled last (v.apply message effects) rest := by
  generalize he : event :: rest = all at h
  cases h with
  | finished => cases he
  | body events passing text =>
      cases events with
      | nil =>
          obtain ⟨rfl, rfl⟩ := List.cons.inj he
          cases event with
          | line data => exact hlast.elim
          | sse event data =>
              have hstep : textStep (.sse event data) = none := by
                obtain h | h := hlast.1 <;> simp [textStep, h]
              obtain ⟨htoolless, herror, htext⟩ := applyEvent_last codec text.ready hanswer hlast
              have hround : v.text = settled := by
                have hfold := text.text
                simpa [hstep] using hfold
              have happly := text.apply htoolless (by
                rw [htext v.text (hround ▸ hsettled), hstep]
                rfl)
              exact ⟨_, _, rfl, herror, fun _ m hm => (happly.1 m hm).state,
                .finished happly.2 happly.1⟩
      | cons first body =>
          obtain ⟨rfl, rfl⟩ := List.cons.inj he
          cases event with
          | line data => exact (passing (.line data) List.mem_cons_self).elim
          | sse event data =>
              obtain ⟨htoolless, herror, htext⟩ :=
                applyEvent_passed codec text.ready (passing _ List.mem_cons_self)
              have happly := text.apply htoolless (htext v.text)
              exact ⟨_, _, rfl, herror, fun _ m hm => (happly.1 m hm).state,
                .body body (fun e h => passing e (List.mem_cons_of_mem _ h)) happly.2⟩

theorem Streaming.end {closed settled : String} {completed : List String} {last : StreamEvent}
    {v : RequestView (openAIResponses codec reasoning definitions).provider}
    (h : Streaming closed completed settled last v []) :
    InText closed completed settled v [] ∧
      ∀ m, v.message = some m → OpenAIResponsesMessage.Toolless m := by
  generalize he : ([] : List StreamEvent) = rest at h
  cases h with
  | body events _ _ => simp at he
  | finished text toolless => exact ⟨text, toolless⟩

variable {id : String} {v : RequestView (openAIResponses codec reasoning definitions).provider}
  {s : (openAIResponses codec reasoning definitions).State} {response : JsonObject}

/-- The streamed response: the caller gets the text the round comes to. -/
theorem streamed_settled (h : BaseClient.Seen id v s) (hv : Unanswered v)
    (hanswer : TextAnswer response) {events : List StreamEvent} {last : StreamEvent}
    (hstream : TextStream (partTexts response) events) (hlast : EndsWith response last)
    (ref : Option StreamRef) :
    Yields ClientOut.returns
      ((openAIResponses codec reasoning definitions).streamed id ref (events ++ [last])).run
      (fun r s' => r = .ok () ∧ (emittedFor id s'.history).completed =
        v.emitted.completed ++
          [v.closed ++ (events.filterMap textStep).foldl TextStep.after ""]) s := by
  have hnone : textStep last = none := by
    cases last with
    | line data => exact hlast.elim
    | sse event data => obtain h | h := hlast.1 <;> simp [textStep, h]
  have htext : InText v.closed v.emitted.completed
      ((events.filterMap textStep).foldl TextStep.after "") v (events ++ [last]) := by
    refine ⟨rfl, rfl, ?_, ?_⟩
    · rw [hv.message]
      exact .fresh
    · rw [hv.text, List.filterMap_append, List.filterMap_cons, hnone]
      simp
  refine Yields.mono (BaseClient.streamed_completed endsPlainly_openAIResponses
    (Streaming v.closed v.emitted.completed _ last)
    (fun _ _ _ hI => hI.step hanswer hlast hstream.settled.2)
    (fun v' hI m hm => ?_) ref h (.body events hstream.passing htext)) fun r s' h' => ?_
  · exact (hI.end.2 m hm).state
  · obtain ⟨rfl, v', hI, hover⟩ := h'
    have htext := hI.end.1
    have hround : v'.text = _ := htext.text
    exact ⟨rfl, by rw [hover.2.completed, htext.closed, htext.completed, hround]⟩

/-- The buffered response: the caller gets the texts of all parts. -/
theorem buffered_joined (h : BaseClient.Seen id v s) (hv : Unanswered v)
    (hanswer : TextAnswer response) {data : Bytes} (hdata : codec.fromJson data = .object response) :
    Yields ClientOut.returns
      ((openAIResponses codec reasoning definitions).sendContinuation id ⟨200, data⟩).run
      (fun r s' => r = .ok () ∧ (emittedFor id s'.history).completed =
        v.emitted.completed ++ [v.closed ++ String.join (partTexts response)]) s := by
  have hready : (OpenAIResponsesClient.ensure v.message).Toolless := by
    rw [hv.message]
    exact .fresh
  obtain ⟨htoolless, herror, htext⟩ := applyResponse_read codec hready hanswer
  refine Yields.mono (BaseClient.sendContinuation_completed endsPlainly_openAIResponses h rfl hdata
    hanswer.noError rfl herror (fun m hm => ?_)) fun r s' h' => ?_
  · obtain ⟨m', hm', hstate⟩ := RequestView.message_apply
      (P := (openAIResponses codec reasoning definitions).provider)
      (p := OpenAIResponsesMessage.Toolless) htoolless htoolless.takePending v _
    obtain rfl := Option.some.inj (hm'.symm.trans hm)
    exact hstate.state
  · refine ⟨h'.1, ?_⟩
    rw [h'.2.2.of_apply, htext v.text, hv.text, String.empty_append]

/-- The texts of all parts reach the caller of a streamed response just where no two parts have
one; the caller of the same response in one piece gets them. -/
theorem parts_delivered_iff (h : BaseClient.Seen id v s) (hv : Unanswered v)
    (hanswer : TextAnswer response) {events : List StreamEvent} {last : StreamEvent}
    (hstream : TextStream (partTexts response) events) (hlast : EndsWith response last)
    (ref : Option StreamRef) {data : Bytes} (hdata : codec.fromJson data = .object response) :
    ∃ streamed buffered,
      ((openAIResponses codec reasoning definitions).streamed id ref (events ++ [last])).run.alone
        ClientOut.returns s = some (.ok (), streamed) ∧
      ((openAIResponses codec reasoning definitions).sendContinuation id ⟨200, data⟩).run.alone
        ClientOut.returns s = some (.ok (), buffered) ∧
      (emittedFor id buffered.history).completed =
        v.emitted.completed ++ [v.closed ++ String.join (partTexts response)] ∧
      ((emittedFor id streamed.history).completed =
          v.emitted.completed ++ [v.closed ++ String.join (partTexts response)] ↔
        ((partTexts response).filter (!·.isEmpty)).length ≤ 1) := by
  obtain ⟨_, streamed, hrun, rfl, htold⟩ :=
    yields_iff.mp (streamed_settled h hv hanswer hstream hlast ref)
  obtain ⟨_, buffered, hrun', rfl, htold'⟩ := yields_iff.mp (buffered_joined h hv hanswer hdata)
  refine ⟨streamed, buffered, hrun, hrun', htold', ?_⟩
  rw [htold, ← hstream.settled.1]
  simp

end Delivery

open OpenAIResponsesClient

/-- A response of one message with a part for each text. -/
def responseOf (texts : List String) : JsonObject :=
  .ofFields
    [("status", .str "completed"),
      ("output", .arr [.obj (JsonObject.ofFields
        [("type", .str "message"),
          ("content", .arr (texts.map fun text => .obj (JsonObject.ofFields
            [("type", .str "output_text"), ("text", .str text)])))])])]

theorem partTexts_responseOf (texts : List String) : partTexts (responseOf texts) = texts := by
  simp [partTexts, responseOf, JsonObject.ofFields, JsonObject.value_insert,
    OpenAIResponsesMessage.textOfType, List.filterMap_map, Function.comp_def]

theorem textAnswer_responseOf (texts : List String) : TextAnswer (responseOf texts) := by
  refine ⟨.inl ?_, ?_, ?_, ?_⟩
  · simp [responseOf, JsonObject.ofFields, JsonObject.value_insert]
  · simp [responseOf, JsonObject.ofFields, JsonObject.value_insert]
  · simp [responseOf, JsonObject.ofFields, JsonObject.value_insert]
  · simp [responseOf, JsonObject.ofFields, JsonObject.value_insert, errorIn, JsonValue.isObject,
      JsonValue.isString]

/-- The events of a text that comes in one fragment. -/
def partEvents (text : String) : List StreamEvent :=
  [.sse { type := "response.output_text.delta" } (.ofFields [("delta", .str text)]),
    .sse { type := "response.output_text.done" } (.ofFields [("text", .str text)])]

theorem steps_partEvents (text : String) :
    (partEvents text).filterMap textStep = [.delta text, .done text] := by
  simp [partEvents, textStep, JsonObject.ofFields, JsonObject.value_insert]

def responseCompleted (response : JsonObject) : StreamEvent :=
  .sse { type := "response.completed" } (.ofFields [("response", .obj response)])

theorem endsWith_responseCompleted (response : JsonObject) :
    EndsWith response (responseCompleted response) := by
  simp [EndsWith, responseCompleted, JsonObject.ofFields]

/-- The response whose one part has the text `"ab"`, as a server writes it. -/
def responseText : Bytes :=
  Bytes.ascii ("\x7b\"status\":\"completed\",\"output\":[\x7b\"type\":\"message\"," ++
    "\"content\":[\x7b\"type\":\"output_text\",\"text\":\"ab\"\x7d]\x7d]\x7d")

/-- A reader of that response. -/
def responseCodec : JsonCodec where
  fromJson text := if text = responseText then .object (responseOf ["ab"]) else .null
  toJson _ := "\x7b\x7d"

/-- The events of a text that comes in two fragments. -/
def fragmentEvents (first second : String) : List StreamEvent :=
  .sse { type := "response.output_text.delta" } (.ofFields [("delta", .str first)]) ::
    [.sse { type := "response.output_text.delta" } (.ofFields [("delta", .str second)]),
      .sse { type := "response.output_text.done" } (.ofFields [("text", .str (first ++ second))])]

/-- The stream of one part. -/
theorem textStream_fragments (first second : String) :
    TextStream [first ++ second] (fragmentEvents first second) := by
  refine ⟨fun event h => ?_,
    [(0, .delta first), (0, .delta second), (0, .done (first ++ second))], ?_, ?_, ?_⟩
  · simp only [fragmentEvents, List.mem_cons, List.not_mem_nil, or_false] at h
    rcases h with rfl | rfl | rfl <;> simp [Passing, endings]
  · simp [fragmentEvents, textStep, JsonObject.ofFields, JsonObject.value_insert]
  · simp
  · intro i t hi
    match i with
    | 0 =>
        obtain rfl := by simpa using hi
        exact ⟨[first, second], by simp [String.join], by simp [lane]⟩
    | i + 1 => simp at hi

/-- One part, `"ab"` in two fragments: it comes whole from the stream, and from the same response
in one piece. -/
theorem parts_delivered_iff_one : ∃ streamed buffered,
    ((openAIResponses responseCodec .off fun _ => []).streamed "r" none
      (fragmentEvents "a" "b" ++ [responseCompleted (responseOf ["ab"])])).run.alone
        ClientOut.returns (BaseClient.askedState _) = some (.ok (), streamed) ∧
    ((openAIResponses responseCodec .off fun _ => []).sendContinuation "r"
      ⟨200, responseText⟩).run.alone ClientOut.returns (BaseClient.askedState _) =
        some (.ok (), buffered) ∧
    (emittedFor "r" buffered.history).completed = ["ab"] ∧
    (emittedFor "r" streamed.history).completed = ["ab"] := by
  have hdata : responseCodec.fromJson responseText = .object (responseOf ["ab"]) := by
    simp [responseCodec]
  obtain ⟨streamed, buffered, hrun, hrun', hbuffered, hiff⟩ :=
    @parts_delivered_iff responseCodec .off (fun _ => []) _ _ _ _
      (BaseClient.seen_askedState _) ⟨rfl, rfl⟩ (textAnswer_responseOf ["ab"]) _ _
      (by rw [partTexts_responseOf]; exact textStream_fragments "a" "b")
      (endsWith_responseCompleted _) none _ hdata
  rw [partTexts_responseOf] at hbuffered hiff
  exact ⟨streamed, buffered, hrun, hrun', hbuffered, hiff.mpr (by decide)⟩

/-- Two parts, `"a"` and `"b"`, one after the other. -/
theorem textStream_two : TextStream ["a", "b"] (partEvents "a" ++ partEvents "b") := by
  refine ⟨fun event h => ?_,
    [(0, .delta "a"), (0, .done "a"), (1, .delta "b"), (1, .done "b")], ?_, ?_, ?_⟩
  · simp only [partEvents, List.cons_append, List.nil_append, List.mem_cons, List.not_mem_nil,
      or_false] at h
    rcases h with rfl | rfl | rfl | rfl <;> simp [Passing, endings]
  · simp [List.filterMap_append, steps_partEvents]
  · simp
  · intro i t hi
    match i with
    | 0 =>
        obtain rfl := by simpa using hi
        exact ⟨["a"], by simp, by simp [lane]⟩
    | 1 =>
        obtain rfl := by simpa using hi
        exact ⟨["b"], by simp, by simp [lane]⟩
    | i + 2 => simp at hi

/-- The second of two parts is all that is left. -/
theorem parts_delivered_second : ∃ streamed,
    ((openAIResponses responseCodec .off fun _ => []).streamed "r" none
      (partEvents "a" ++ partEvents "b" ++ [responseCompleted (responseOf ["a", "b"])])).run.alone
        ClientOut.returns (BaseClient.askedState _) = some (.ok (), streamed) ∧
    (emittedFor "r" streamed.history).completed = ["b"] ∧
    (emittedFor "r" streamed.history).completed ≠
      [String.join (partTexts (responseOf ["a", "b"]))] := by
  obtain ⟨_, streamed, hrun, rfl, htold⟩ := yields_iff.mp
    (@streamed_settled responseCodec .off (fun _ => []) _ _ _ _ (BaseClient.seen_askedState _)
      ⟨rfl, rfl⟩ (textAnswer_responseOf ["a", "b"]) _ _
      (by rw [partTexts_responseOf]; exact textStream_two) (endsWith_responseCompleted _) none)
  have hcompleted : (emittedFor "r" streamed.history).completed = ["b"] := by
    rw [htold, List.filterMap_append, steps_partEvents, steps_partEvents]
    rfl
  refine ⟨streamed, hrun, hcompleted, ?_⟩
  rw [hcompleted, partTexts_responseOf]
  decide

end LLMQore
