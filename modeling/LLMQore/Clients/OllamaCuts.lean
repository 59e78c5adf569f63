import Mathlib.Data.List.TakeWhile
import LLMQore.Clients.OllamaStreaming

/-!
# LLMQore.Clients.OllamaCuts

What the blocks of an Ollama answer have to do with the fragments it came in.

Nothing, unless the text is held back. White space that comes on its own before such a text
begins the text block, which then never gets the rest.
-/

namespace LLMQore

open Network Tools

namespace OllamaMessage

/-- The fragments before the first one that is more than white space. -/
def blankStart (fragments : List String) : String :=
  String.join (fragments.takeWhile fun fragment => (Text.lead fragment).isNone)

/-- What the text block has after the fragments. -/
def begun (fragments : List String) : String :=
  if Special (Text.lead (String.join fragments)) then blankStart fragments
  else String.join fragments

/-- The message of a turn of which `text` came, where the text block has `shown`. -/
def taken (sequence : Nat) (text shown : String) : OllamaMessage where
  currentBlocks := if shown = "" then [] else [.text ⟨shown⟩]
  accumulatedContent := text
  contentAddedToTextBlock := decide (shown ≠ "")
  toolCallSequence := sequence

section Cuts

variable {fragments : List String} {content : String}

theorem blankStart_append_of_none (h : Text.lead (String.join fragments) = none)
    {c : Char} (hc : Text.lead content = some c) :
    blankStart (fragments ++ [content]) = String.join fragments := by
  have hblank : ∀ fragment ∈ fragments, (Text.lead fragment).isNone = true := fun fragment hf => by
    rw [Text.lead_join_eq_none h fragment hf]
    rfl
  unfold blankStart
  rw [List.takeWhile_append_of_pos hblank, List.takeWhile_cons_of_neg (by simp [hc]),
    List.append_nil]

theorem blankStart_append_of_some {c : Char} (h : Text.lead (String.join fragments) = some c) :
    blankStart (fragments ++ [content]) = blankStart fragments := by
  unfold blankStart
  congr 1
  induction fragments with
  | nil => cases h
  | cons first rest ih =>
      cases hfirst : Text.lead first with
      | some c => simp [hfirst]
      | none =>
          rw [String.join_cons, Text.lead_append_of_none hfirst] at h
          simp [hfirst, ih h]

/-- A text that begins like a tool call adds nothing to what the block has. -/
theorem begun_held (h : Special (Text.lead (String.join (fragments ++ [content])))) :
    begun (fragments ++ [content]) = begun fragments := by
  rw [begun, if_pos h, begun]
  have hjoin := join_snoc fragments content
  cases hlead : Text.lead (String.join fragments) with
  | some c =>
      rw [hjoin, Text.lead_append_of_some hlead] at h
      rw [if_pos h, blankStart_append_of_some hlead]
  | none =>
      rw [hjoin, Text.lead_append_of_none hlead] at h
      obtain ⟨c, hc⟩ : ∃ c, Text.lead content = some c := by
        rcases h with h | h <;> exact ⟨_, h⟩
      rw [if_neg (by decide), blankStart_append_of_none hlead hc]

theorem not_special_before (h : ¬Special (Text.lead (String.join (fragments ++ [content])))) :
    ¬Special (Text.lead (String.join fragments)) := by
  intro hspecial
  obtain ⟨c, hc⟩ : ∃ c, Text.lead (String.join fragments) = some c := by
    rcases hspecial with hspecial | hspecial <;> exact ⟨_, hspecial⟩
  rw [join_snoc, Text.lead_append_of_some hc, ← hc] at h
  exact h hspecial

/-- One more fragment. -/
theorem handleContentDelta_taken (sequence : Nat) (hne : content ≠ "") :
    (taken sequence (String.join fragments) (begun fragments)).handleContentDelta content =
      taken sequence (String.join (fragments ++ [content])) (begun (fragments ++ [content])) := by
  have hjoin := join_snoc fragments content
  by_cases h : Special (Text.lead (String.join (fragments ++ [content])))
  · rw [handleContentDelta_held (by rwa [hjoin] at h), begun_held h, hjoin]
    rfl
  · have hbegun : begun fragments = String.join fragments := if_neg (not_special_before h)
    have hbegun' : begun (fragments ++ [content]) = String.join fragments ++ content := by
      rw [begun, if_neg h, hjoin]
    have hshown : String.join fragments ++ content ≠ "" :=
      fun he => hne (String.append_eq_empty_iff.mp he).2
    unfold handleContentDelta
    dsimp only
    rw [if_neg fun hheld => h (by rw [hjoin]; exact (isHeld_iff _).mp hheld)]
    by_cases hempty : String.join fragments = ""
    · rw [hbegun', hbegun, hjoin, hempty]
      simp [taken, hne]
      rfl
    · rw [hbegun', hbegun, hjoin]
      simp [taken, hempty, hshown, BaseMessage.appendTextDelta]
      rfl

theorem begun_empty : begun (fragments ++ [""]) = begun fragments := by
  by_cases h : Special (Text.lead (String.join (fragments ++ [""])))
  · exact begun_held h
  · rw [begun, if_neg h, begun, if_neg (not_special_before h), join_snoc, String.append_empty]

end Cuts

/-! ### The lines -/

/-- A line of an answer that has content, and nothing else for the blocks. -/
structure ContentLine (done : Bool) (content : String) (line : JsonObject) : Prop
    extends ChatLine done content line where
  noThinking : (line.value "thinking").toString = ""
  noMessageThinking : ((line.value "message").toObject.value "thinking").toString = ""

/-- The fragments, line after line, and the line that ends the turn. -/
inductive CutInto : List String → List JsonObject → Prop
  | lines {fragments : List String} {lines : List JsonObject} {last : JsonObject}
      (content : List.Forall₂ (ContentLine false) fragments lines)
      (done : ContentLine true "" last) : CutInto fragments (lines ++ [last])

section Lines

variable (codec : JsonCodec) (sequence : Nat) {fragments : List String}

theorem handleThinkingDelta_empty (m : OllamaMessage) : m.handleThinkingDelta "" = m := by
  simp [handleThinkingDelta]

theorem applyContent_taken {done : Bool} {content : String} {line : JsonObject}
    (h : ContentLine done content line) :
    ((taken sequence (String.join fragments) (begun fragments)).applyContent line).1 =
      taken sequence (String.join (fragments ++ [content])) (begun (fragments ++ [content])) := by
  unfold applyContent
  dsimp only
  rw [if_pos h.message, h.content, h.noCalls, h.noMessageThinking, handleThinkingDelta_empty]
  by_cases hempty : content = ""
  · rw [hempty, if_pos (by decide), begun_empty, join_snoc, String.append_empty]
    rfl
  · have hne : content.isEmpty = false := by simpa using hempty
    rw [hne, if_neg Bool.false_ne_true, handleContentDelta_taken sequence hempty]
    rfl

theorem applyEvent_content {content : String} {line : JsonObject}
    (h : ContentLine false content line) :
    ((taken sequence (String.join fragments) (begun fragments)).applyEvent codec line).1 =
      taken sequence (String.join (fragments ++ [content])) (begun (fragments ++ [content])) := by
  unfold applyEvent
  rw [h.noError]
  dsimp only
  rw [h.done, h.noThinking, handleThinkingDelta_empty]
  exact applyContent_taken sequence h

theorem handleThinkingComplete_taken (text shown signature : String) :
    (taken sequence text shown).handleThinkingComplete signature = taken sequence text shown := by
  have hnone : (taken sequence text shown).toBaseMessage.lastThinkingIndex = none := by
    by_cases hshown : shown = "" <;>
      simp [BaseMessage.lastThinkingIndex, taken, hshown, TurnContent.isThinking]
  unfold handleThinkingComplete
  rw [hnone]

theorem applyEvent_done {last : JsonObject} (h : ContentLine true "" last) :
    ((taken sequence (String.join fragments) (begun fragments)).applyEvent codec last).1 =
      (taken sequence (String.join fragments) (begun fragments)).handleStopReason codec
        (last.value "done_reason").toString := by
  have hcontent := @applyContent_taken sequence fragments _ _ _ h
  rw [begun_empty, join_snoc, String.append_empty] at hcontent
  unfold applyEvent
  rw [h.noError]
  dsimp only
  rw [h.done, h.noThinking, handleThinkingDelta_empty, if_pos rfl]
  unfold applyDone
  dsimp only
  rw [hcontent, handleThinkingComplete_taken, ite_self]

/-- The message of a turn that comes in fragments, before it is done. -/
theorem applyEvents_content {more : List String} {lines : List JsonObject}
    (h : List.Forall₂ (ContentLine false) more lines) :
    (applyEvents (applyEvent codec) (taken sequence (String.join fragments) (begun fragments))
        lines).1 =
      taken sequence (String.join (fragments ++ more)) (begun (fragments ++ more)) := by
  induction h generalizing fragments with
  | nil => simp [applyEvents]
  | cons hline _ ih =>
      rename_i content line rest lines _
      rw [applyEvents, applyEvent_content codec sequence hline]
      dsimp only
      rw [@ih (fragments ++ [content]), List.append_assoc, List.singleton_append]

/-- The message at the end of a turn that comes in fragments. -/
theorem applyEvents_cut {lines : List JsonObject} (h : CutInto fragments lines) :
    ∃ reason, (applyEvents (applyEvent codec) (taken sequence "" "") lines).1 =
      (taken sequence (String.join fragments) (begun fragments)).handleStopReason codec reason := by
  cases h with
  | lines hcontent hdone =>
      rename_i lines last
      have hbefore := @applyEvents_content codec sequence [] _ _ hcontent
      refine ⟨(last.value "done_reason").toString, ?_⟩
      rw [applyEvents_append]
      dsimp only [applyEvents]
      rw [show taken sequence "" "" = taken sequence (String.join []) (begun []) from rfl, hbefore,
        List.nil_append]
      exact applyEvent_done codec sequence hdone

end Lines

/-! ### The end of a turn -/

section Done

variable (codec : JsonCodec) (sequence : Nat) {text shown : String} (reason : String)

/-- The blocks and the state of a message. -/
def outcome (m : OllamaMessage) : List TurnContent × MessageState := (m.currentBlocks, m.state)

theorem lead_blankStart (fragments : List String) : Text.lead (blankStart fragments) = none := by
  unfold blankStart
  induction fragments with
  | nil => rfl
  | cons first rest ih =>
      cases hfirst : Text.lead first with
      | some c => simp [hfirst]
      | none => simpa [hfirst, Text.lead_append_of_none hfirst] using ih

/-- A recognised tool call replaces what the block has. -/
theorem outcome_call {name : String} {arguments : JsonObject}
    (h : legacyToolCall codec text = some (name, arguments)) :
    outcome ((taken sequence text shown).handleStopReason codec reason) =
      ([.toolUse ⟨makeToolCallId { toolCallSequence := sequence } name, name, arguments⟩],
        .requiresToolExecution) := by
  unfold handleStopReason
  rw [show (taken sequence text shown).accumulatedContent = text from rfl, h]
  rfl

/-- A text block that is begun stays as it is. -/
theorem outcome_shown (h : legacyToolCall codec text = none) (hshown : shown ≠ "") :
    outcome ((taken sequence text shown).handleStopReason codec reason) =
      ([.text ⟨shown⟩], .final) := by
  have hrelease : (taken sequence text shown).releaseContent = taken sequence text shown :=
    if_pos (by simp [taken, hshown])
  unfold handleStopReason
  rw [show (taken sequence text shown).accumulatedContent = text from rfl, h]
  dsimp only
  rw [hrelease]
  simp [outcome, taken, hshown, BaseMessage.recordStopReason, BaseMessage.resolveState,
    BaseMessage.currentToolUseContent, BaseMessage.toolUses, TurnContent.toolUse?, stopReasonMap]

/-- Text that was held back becomes the text block, or is dropped. -/
theorem outcome_held (h : legacyToolCall codec text = none) :
    ∃ blocks, (∀ shown, .text ⟨shown⟩ ∈ blocks → shown = text) ∧ ∀ reason,
      outcome ((taken sequence text "").handleStopReason codec reason) = (blocks, .final) := by
  have hreleased : ∃ blocks, (∀ shown, .text ⟨shown⟩ ∈ blocks → shown = text) ∧
      BaseMessage.toolUses blocks = [] ∧
        (taken sequence text "").releaseContent.currentBlocks = blocks := by
    unfold releaseContent
    dsimp only
    split
    · exact ⟨[], nofun, rfl, rfl⟩
    · split
      · exact ⟨[], nofun, rfl, rfl⟩
      · exact ⟨[.text ⟨text⟩], fun shown hshown => by simpa using hshown, rfl, rfl⟩
  obtain ⟨blocks, htexts, huses, hblocks⟩ := hreleased
  refine ⟨blocks, htexts, fun reason => ?_⟩
  unfold handleStopReason
  rw [show (taken sequence text "").accumulatedContent = text from rfl, h]
  simp [outcome, BaseMessage.recordStopReason, BaseMessage.resolveState,
    BaseMessage.currentToolUseContent, hblocks, huses, stopReasonMap]

/-- Two blocks that were begun with white space alone are the same just where that is. -/
theorem outcome_blank_iff (h : legacyToolCall codec text = none) (htext : Text.lead text ≠ none)
    {shown' : String} (hblank : Text.lead shown = none) (hblank' : Text.lead shown' = none)
    (reason' : String) :
    outcome ((taken sequence text shown).handleStopReason codec reason) =
        outcome ((taken sequence text shown').handleStopReason codec reason') ↔
      shown = shown' := by
  obtain ⟨held, hheld, houtcome⟩ := outcome_held codec sequence h
  have hother : ∀ shown, Text.lead shown = none → .text ⟨shown⟩ ∉ held := by
    intro shown hlead hmem
    rw [hheld shown hmem] at hlead
    exact htext hlead
  by_cases hempty : shown = "" <;> by_cases hempty' : shown' = ""
  · simp [hempty, hempty', houtcome]
  · rw [hempty, houtcome, outcome_shown codec sequence reason' h hempty', Prod.mk.injEq]
    refine iff_of_false (fun he => hother shown' hblank' ?_) (Ne.symm hempty')
    rw [he.1]
    exact .head _
  · rw [hempty', houtcome, outcome_shown codec sequence reason h hempty, Prod.mk.injEq]
    refine iff_of_false (fun he => hother shown hblank ?_) hempty
    rw [← he.1]
    exact .head _
  · simp [outcome_shown codec sequence _ h, hempty, hempty']

theorem outcome_eq_iff {fragments fragments' : List String}
    (hsame : String.join fragments = String.join fragments') (reason' : String) :
    outcome ((taken sequence (String.join fragments) (begun fragments)).handleStopReason codec
          reason) =
        outcome ((taken sequence (String.join fragments') (begun fragments')).handleStopReason codec
          reason') ↔
      ¬Special (Text.lead (String.join fragments)) ∨
        (legacyToolCall codec (String.join fragments)).isSome = true ∨
        blankStart fragments = blankStart fragments' := by
  rw [← hsame]
  cases hcall : legacyToolCall codec (String.join fragments) with
  | some call =>
      rw [outcome_call codec sequence reason hcall, outcome_call codec sequence reason' hcall]
      simp
  | none =>
      by_cases hspecial : Special (Text.lead (String.join fragments))
      · have hbegun : begun fragments = blankStart fragments := if_pos hspecial
        have hbegun' : begun fragments' = blankStart fragments' := if_pos (hsame ▸ hspecial)
        have hlead : Text.lead (String.join fragments) ≠ none := by
          rintro hnone
          rw [hnone] at hspecial
          exact absurd hspecial (by decide)
        rw [hbegun, hbegun', outcome_blank_iff codec sequence reason hcall hlead
          (lead_blankStart _) (lead_blankStart _) reason']
        simp [hspecial]
      · -- all of the text is in the block
        have hbegun : begun fragments = String.join fragments := if_neg hspecial
        have hbegun' : begun fragments' = String.join fragments := by
          rw [hsame] at hspecial ⊢
          exact if_neg hspecial
        refine iff_of_true ?_ (.inl hspecial)
        rw [hbegun, hbegun']
        by_cases hempty : String.join fragments = ""
        · obtain ⟨held, -, houtcome⟩ := outcome_held codec sequence hcall
          rw [hempty] at houtcome ⊢
          rw [houtcome, houtcome]
        · rw [outcome_shown codec sequence reason hcall hempty,
            outcome_shown codec sequence reason' hcall hempty]

end Done

end OllamaMessage

open OllamaMessage

/-- **Two ways of cutting an Ollama answer into fragments lead to the same blocks and the same state
exactly where its text is not held back, is a tool call, or has the same white space come before it
in fragments of its own.** -/
theorem ollama_cuts_iff (codec : JsonCodec) (sequence : Nat) {fragments fragments' : List String}
    {lines lines' : List JsonObject} (hcut : CutInto fragments lines)
    (hcut' : CutInto fragments' lines') (hsame : String.join fragments = String.join fragments') :
    let m := (applyEvents (applyEvent codec) { toolCallSequence := sequence } lines).1
    let m' := (applyEvents (applyEvent codec) { toolCallSequence := sequence } lines').1
    (m.currentBlocks = m'.currentBlocks ∧ m.state = m'.state) ↔
      ¬Special (Text.lead (String.join fragments)) ∨
        (legacyToolCall codec (String.join fragments)).isSome = true ∨
        blankStart fragments = blankStart fragments' := by
  obtain ⟨reason, hm⟩ := applyEvents_cut codec sequence hcut
  obtain ⟨reason', hm'⟩ := applyEvents_cut codec sequence hcut'
  rw [← outcome_eq_iff codec sequence reason hsame reason', ← hm, ← hm', outcome, outcome,
    Prod.mk.injEq]
  rfl

theorem contentLine_chatLine (content : String) (done : Bool) :
    ContentLine done content (chatLine content done) := by
  refine { chatLine_spec content done with noThinking := ?_, noMessageThinking := ?_ }
  · simp [chatLine, JsonObject.ofFields, JsonObject.value_insert]
  · simp [chatLine, JsonObject.ofFields, JsonObject.value_insert]

/-- `"Hi"` in one fragment and in two. -/
theorem ollama_cuts_iff_hi :
    let whole := [chatLine "Hi" false, chatLine "" true]
    let halves := [chatLine "H" false, chatLine "i" false, chatLine "" true]
    let m := (applyEvents (applyEvent ⟨fun _ => .null, fun _ => ""⟩) {} whole).1
    let m' := (applyEvents (applyEvent ⟨fun _ => .null, fun _ => ""⟩) {} halves).1
    m.currentBlocks = m'.currentBlocks ∧ m.state = m'.state :=
  (ollama_cuts_iff ⟨fun _ => .null, fun _ => ""⟩ 0
    (.lines (.cons (contentLine_chatLine "Hi" false) .nil) (contentLine_chatLine "" true))
    (.lines (.cons (contentLine_chatLine "H" false)
      (.cons (contentLine_chatLine "i" false) .nil)) (contentLine_chatLine "" true))
    (by decide)).mpr (.inl (by decide))

/-- The text `" {"` is lost where its white space comes on its own. -/
theorem ollama_cuts_differ :
    let whole := [chatLine " \x7b" false, chatLine "" true]
    let halves := [chatLine " " false, chatLine "\x7b" false, chatLine "" true]
    let m := (applyEvents (applyEvent ⟨fun _ => .null, fun _ => ""⟩) {} whole).1
    let m' := (applyEvents (applyEvent ⟨fun _ => .null, fun _ => ""⟩) {} halves).1
    m.currentBlocks = [.text ⟨" \x7b"⟩] ∧ m'.currentBlocks = [.text ⟨" "⟩] ∧
      m.currentBlocks ≠ m'.currentBlocks := by
  decide

end LLMQore
