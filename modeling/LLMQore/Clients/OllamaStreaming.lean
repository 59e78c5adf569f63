import LLMQore.Clients.Ollama
import LLMQore.Core.Undisturbed

/-!
# LLMQore.Clients.OllamaStreaming

What the caller of a streamed chat answer of Ollama gets of its text.

Text that begins like a tool call, with a brace or a backquote, is held back from the blocks
until the turn ends, and text that begins with a brace from the caller too. What the turn then
releases reaches the block, never the caller. Where white space came first on its own, the block
has been begun with it, and nothing is released. `delivered_iff` says when all is well.
-/

namespace LLMQore

open Reentrant Network Tools

/-! ### Where a text begins -/

namespace Text

/-- The first character that is not white space. -/
def lead (s : String) : Option Char := s.toList.find? fun c => !isSpace c

@[simp] theorem lead_empty : lead "" = none := rfl

theorem lead_append (s t : String) : lead (s ++ t) = (lead s).or (lead t) := by
  simp [lead, List.find?_append]

theorem lead_append_of_some {s : String} {c : Char} (h : lead s = some c) (t : String) :
    lead (s ++ t) = some c := by
  rw [lead_append, h, Option.some_or]

theorem lead_append_of_none {s : String} (h : lead s = none) (t : String) :
    lead (s ++ t) = lead t := by
  rw [lead_append, h, Option.none_or]

theorem lead_join_eq_none {texts : List String} (h : lead (String.join texts) = none) :
    ∀ t ∈ texts, lead t = none := by
  induction texts with
  | nil => exact nofun
  | cons first rest ih =>
      rw [String.join_cons, lead_append, Option.or_eq_none_iff] at h
      exact List.forall_mem_cons.mpr ⟨h.1, ih h.2⟩

theorem head?_trimChars (p : Char → Bool) (cs : List Char) :
    (trimChars p cs).head? = cs.find? fun c => !p c := by
  induction cs with
  | nil => rfl
  | cons c rest ih =>
      by_cases hc : p c = true
      · have hdrop : trimChars p (c :: rest) = trimChars p rest := by
          unfold trimChars
          rw [List.dropWhile_cons_of_pos hc]
        rw [hdrop, ih, List.find?_cons_of_neg (by simpa using hc)]
      · rw [List.find?_cons_of_pos (by simpa using hc)]
        unfold trimChars
        rw [List.dropWhile_cons_of_neg hc, List.reverse_cons, List.dropWhile_append,
          List.dropWhile_cons_of_neg hc]
        split <;> simp

theorem head?_trimmed (s : String) : (trimmed s).toList.head? = lead s := by
  rw [trimmed, String.toList_ofList, head?_trimChars]
  rfl

theorem trimmed_isEmpty (s : String) : (trimmed s).isEmpty = (lead s).isNone := by
  rw [← head?_trimmed]
  cases h : (trimmed s).toList with
  | nil =>
      have hempty : trimmed s = "" := String.toList_inj.mp h
      simp [hempty]
  | cons c rest =>
      have hne : trimmed s ≠ "" := fun he => by simp [he] at h
      simpa using hne

theorem trimChars_infix (p : Char → Bool) (cs : List Char) : trimChars p cs <:+: cs := by
  unfold trimChars
  have hend : ((cs.dropWhile p).reverse.dropWhile p).reverse <+: cs.dropWhile p := by
    rw [← List.reverse_suffix, List.reverse_reverse]
    exact List.dropWhile_suffix p
  exact hend.isInfix.trans (List.dropWhile_suffix p).isInfix

end Text

theorem startsWithChar_trimmed (s : String) (c : Char) :
    OllamaMessage.startsWithChar (Text.trimmed s) c = true ↔ Text.lead s = some c := by
  rw [OllamaMessage.startsWithChar, Text.head?_trimmed]
  simp

/-! ### The texts of the blocks -/

/-- The text of a block, if it is one. -/
def TurnContent.text? : TurnContent → Option String
  | .text c => some c.text
  | _ => none

namespace BaseMessage

/-- The texts of the text blocks. -/
def texts (m : BaseMessage) : List String := m.currentBlocks.filterMap TurnContent.text?

theorem texts_changeBlock (m : BaseMessage) (index : Nat) {f : TurnContent → TurnContent}
    (hf : ∀ block, (f block).text? = block.text?) : (m.changeBlock index f).texts = m.texts := by
  show (m.currentBlocks.modify index f).filterMap TurnContent.text? =
    m.currentBlocks.filterMap TurnContent.text?
  generalize m.currentBlocks = blocks
  induction blocks generalizing index with
  | nil => simp
  | cons block rest ih =>
      cases index with
      | zero => simp [List.filterMap_cons, hf]
      | succ index => simp [List.filterMap_cons, ih]

theorem text?_onThinking (f : ThinkingContent → ThinkingContent) (block : TurnContent) :
    (TurnContent.onThinking f block).text? = block.text? := by
  cases block <;> rfl

theorem texts_appendThinkingDelta (m : BaseMessage) (delta : String) :
    (m.appendThinkingDelta delta).texts = m.texts := by
  have hbase : m.ensureThinkingContentIndex.2.texts = m.texts := by
    unfold ensureThinkingContentIndex
    split
    · rfl
    · split
      · rfl
      · simp [texts, addCurrentContent, List.filterMap_append, TurnContent.text?]
  exact (texts_changeBlock _ _ (text?_onThinking _)).trans hbase

theorem text?_eq_none {block : TurnContent} (h : block.isText = false) : block.text? = none := by
  cases block <;> first | rfl | cases h

/-- The first text is changed where it stands. -/
theorem texts_modify_first (f : String → String) {blocks : List TurnContent} :
    ∀ {index : Nat}, blocks.findIdx? TurnContent.isText = some index →
      ∃ first rest, blocks.filterMap TurnContent.text? = first :: rest ∧
        (blocks.modify index (.onText fun c => ⟨f c.text⟩)).filterMap TurnContent.text? =
          f first :: rest := by
  induction blocks with
  | nil => exact nofun
  | cons block blocks ih =>
      intro index h
      rw [List.findIdx?_cons] at h
      by_cases htext : block.isText = true
      · rw [if_pos htext] at h
        obtain rfl := Option.some.inj h
        cases block with
        | text c => exact ⟨c.text, blocks.filterMap TurnContent.text?, rfl, rfl⟩
        | _ => cases htext
      · rw [if_neg htext] at h
        obtain ⟨index, hindex, rfl⟩ := Option.map_eq_some_iff.mp h
        obtain ⟨first, rest, htexts, hmodify⟩ := ih hindex
        have hnone := text?_eq_none (Bool.eq_false_iff.mpr htext)
        exact ⟨first, rest, by rw [List.filterMap_cons, hnone, htexts],
          by rw [List.modify_succ_cons, List.filterMap_cons, hnone, hmodify]⟩

/-- The text of the message is put in place of the first text, or becomes one. -/
theorem texts_setText (m : BaseMessage) (f : String → String) :
    (m.setText f).texts = match m.texts with
      | [] => [f ""]
      | first :: rest => f first :: rest := by
  cases hindex : m.currentBlocks.findIdx? TurnContent.isText with
  | some index =>
      obtain ⟨first, rest, htexts, hmodify⟩ := texts_modify_first f hindex
      have hset : (m.setText f).texts = f first :: rest := by
        rw [← hmodify]
        unfold setText ensureTextContentIndex indexOfBlock
        rw [hindex]
        rfl
      rw [hset, texts, htexts]
  | none =>
      have hnone : m.texts = [] := by
        rw [texts, List.filterMap_eq_nil_iff]
        intro block hmem
        exact text?_eq_none (List.findIdx?_eq_none_iff.mp hindex block hmem)
      -- the text block that is added is the first one
      have hadded : (m.currentBlocks ++ [TurnContent.text ⟨""⟩]).findIdx? TurnContent.isText =
          some m.currentBlocks.length := by
        simp [List.findIdx?_append, hindex, TurnContent.isText]
      obtain ⟨first, rest, htexts, hmodify⟩ := texts_modify_first f hadded
      rw [List.filterMap_append, ← texts, hnone] at htexts
      obtain ⟨rfl, rfl⟩ := List.cons.inj htexts
      have hset : (m.setText f).texts = [f ""] := by
        unfold setText ensureTextContentIndex indexOfBlock
        rw [hindex]
        exact hmodify
      rw [hset, hnone]

end BaseMessage

/-! ### The text that is held back -/

namespace OllamaMessage

/-- The first fragment that is not empty is white space only. -/
def BlankFirst (fragments : List String) : Prop :=
  ∃ first, fragments.find? (!·.isEmpty) = some first ∧ Text.lead first = none

theorem exists_nonempty {fragments : List String} (h : String.join fragments ≠ "") :
    ∃ first, fragments.find? (!·.isEmpty) = some first := by
  rw [← Option.isSome_iff_exists, List.find?_isSome]
  by_contra hnone
  refine h (join_eq_empty_iff.mpr fun t ht => ?_)
  by_contra hne
  exact hnone ⟨t, ht, by simpa using hne⟩

theorem blankFirst_append {fragments : List String} (h : String.join fragments ≠ "")
    (content : String) : BlankFirst (fragments ++ [content]) ↔ BlankFirst fragments := by
  obtain ⟨first, hfirst⟩ := exists_nonempty h
  unfold BlankFirst
  rw [List.find?_append, hfirst, Option.some_or]

theorem blankFirst_append_empty (fragments : List String) :
    BlankFirst (fragments ++ [""]) ↔ BlankFirst fragments := by
  unfold BlankFirst
  simp [List.find?_append]

/-- The character a text begins with if it is held back. -/
def Special (c : Option Char) : Prop := c = some '{' ∨ c = some '\x60'

instance (c : Option Char) : Decidable (Special c) := inferInstanceAs (Decidable (_ ∨ _))

/-- How far the content has come: what the caller has of it, whether the text block is begun, and
the texts of the blocks. -/
inductive Progress (fragments : List String) : String → Bool → List String → Prop
  | start (empty : String.join fragments = "") : Progress fragments "" false []
  /-- Nothing is held back. -/
  | plain (lead : ¬Special (Text.lead (String.join fragments)))
      (nonempty : String.join fragments ≠ "") :
      Progress fragments (String.join fragments) true [String.join fragments]
  /-- Neither the caller nor the blocks have anything. -/
  | brace (lead : Text.lead (String.join fragments) = some '{') : Progress fragments "" false []
  /-- The blocks have nothing. -/
  | fence (lead : Text.lead (String.join fragments) = some '\x60')
      (first : ¬BlankFirst fragments) : Progress fragments (String.join fragments) false []
  /-- The block is begun with white space, and gets nothing more. -/
  | stuck (lead : Special (Text.lead (String.join fragments))) (first : BlankFirst fragments)
      (blank : String) (hblank : Text.lead blank = none) :
      Progress fragments (String.join fragments) true [blank]

/-- The message after the fragments, of which the caller has `delivered`. -/
structure Taken (fragments : List String) (delivered : String) (m : OllamaMessage) : Prop where
  accumulated : m.accumulatedContent = String.join fragments
  progress : Progress fragments delivered m.contentAddedToTextBlock m.texts
  toolless : m.toBaseMessage.Toolless

/-- What the caller is told of the content of an event. -/
def contentChunk (m : OllamaMessage) (content : String) : String :=
  if (m.handleContentDelta content).isAccumulatingToolCall then "" else content

theorem isHeld_iff (s : String) :
    (startsWithChar (Text.trimmed s) '{' || startsWithChar (Text.trimmed s) '\x60') = true ↔
      Special (Text.lead s) := by
  rw [Bool.or_eq_true, startsWithChar_trimmed, startsWithChar_trimmed]
  rfl

theorem handleContentDelta_held {m : OllamaMessage} {content : String}
    (h : Special (Text.lead (m.accumulatedContent ++ content))) :
    m.handleContentDelta content =
      { m with accumulatedContent := m.accumulatedContent ++ content } :=
  if_pos ((isHeld_iff _).mpr h)

theorem handleContentDelta_plain {m : OllamaMessage} {content : String}
    (h : ¬Special (Text.lead (m.accumulatedContent ++ content))) :
    (m.handleContentDelta content).accumulatedContent = m.accumulatedContent ++ content ∧
      (m.handleContentDelta content).contentAddedToTextBlock = true ∧
      (m.handleContentDelta content).texts =
        (if m.contentAddedToTextBlock then m.toBaseMessage.appendTextDelta content
          else m.toBaseMessage.setText fun _ => m.accumulatedContent ++ content).texts := by
  unfold handleContentDelta
  dsimp only
  rw [if_neg (fun hheld => h ((isHeld_iff _).mp hheld))]
  cases m.contentAddedToTextBlock <;> simp

theorem toolless_handleContentDelta {m : OllamaMessage} (h : m.toBaseMessage.Toolless)
    (content : String) : (m.handleContentDelta content).toBaseMessage.Toolless := by
  unfold handleContentDelta
  dsimp only
  split
  · exact h
  · split
    · exact h.setText fun _ => m.accumulatedContent ++ content
    · exact h.setText (· ++ content)

theorem join_snoc (fragments : List String) (content : String) :
    String.join (fragments ++ [content]) = String.join fragments ++ content := by
  simp [String.join_append]

/-- The content begins like a tool call, and is held back. -/
theorem Progress.held {fragments : List String} {delivered : String} {added : Bool}
    {texts : List String} (h : Progress fragments delivered added texts) {content : String}
    (hne : content ≠ "") (hheld : Special (Text.lead (String.join (fragments ++ [content])))) :
    Progress (fragments ++ [content])
      (delivered ++ if !added &&
        Text.lead (String.join (fragments ++ [content])) = some '{' then "" else content)
      added texts := by
  have hjoin := join_snoc fragments content
  -- what is held back from the caller begins with a brace
  have hwithheld (hbegin : Text.lead (String.join (fragments ++ [content])) = some '{') :
      (if !false && decide (Text.lead (String.join (fragments ++ [content])) = some '{') then ""
        else content) = "" := by
    rw [hbegin]
    rfl
  have hpassed (hbegin : Text.lead (String.join (fragments ++ [content])) = some '\x60') :
      (if !false && decide (Text.lead (String.join (fragments ++ [content])) = some '{') then ""
        else content) = content := by
    rw [hbegin]
    rfl
  cases h with
  | start hempty =>
      have hfirst : ¬BlankFirst (fragments ++ [content]) := by
        rintro ⟨first, hfind, hnone⟩
        have hfragments : fragments.find? (!·.isEmpty) = none :=
          List.find?_eq_none.mpr fun t ht => by simp [join_eq_empty_iff.mp hempty t ht]
        rw [List.find?_append, hfragments, Option.none_or,
          List.find?_cons_of_pos (by simpa using hne)] at hfind
        obtain rfl := Option.some.inj hfind
        rw [hjoin, hempty, String.empty_append, hnone] at hheld
        exact absurd hheld (by decide)
      rw [String.empty_append]
      rcases hheld with hbrace | hfence
      · rw [hwithheld hbrace]
        exact .brace hbrace
      · rw [hpassed hfence]
        have hprogress := Progress.fence hfence hfirst
        rwa [hjoin, hempty, String.empty_append] at hprogress
  | plain lead nonempty =>
      -- only white space has come so far
      have hblank : Text.lead (String.join fragments) = none := by
        cases hlead : Text.lead (String.join fragments) with
        | none => rfl
        | some c =>
            rw [hjoin, Text.lead_append_of_some hlead] at hheld
            exact absurd (hlead ▸ hheld) lead
      obtain ⟨first, hfind⟩ := exists_nonempty nonempty
      have hfirst : BlankFirst (fragments ++ [content]) :=
        (blankFirst_append nonempty content).mpr
          ⟨first, hfind, Text.lead_join_eq_none hblank first (List.mem_of_find?_eq_some hfind)⟩
      have hprogress := Progress.stuck hheld hfirst (String.join fragments) hblank
      rwa [hjoin] at hprogress
  | brace lead =>
      have hbrace : Text.lead (String.join (fragments ++ [content])) = some '{' := by
        rw [hjoin, Text.lead_append_of_some lead]
      rw [hwithheld hbrace]
      exact .brace hbrace
  | fence lead first =>
      have hfence : Text.lead (String.join (fragments ++ [content])) = some '\x60' := by
        rw [hjoin, Text.lead_append_of_some lead]
      have hnonempty : String.join fragments ≠ "" := fun he => by simp [he] at lead
      have hprogress := Progress.fence hfence ((blankFirst_append hnonempty content).not.mpr first)
      rw [hpassed hfence]
      rwa [hjoin] at hprogress
  | stuck lead first blank hblank =>
      have hnonempty : String.join fragments ≠ "" := fun he => by
        rw [he] at lead
        exact absurd lead (by decide)
      have hprogress :=
        Progress.stuck hheld ((blankFirst_append hnonempty content).mpr first) blank hblank
      rwa [hjoin] at hprogress

theorem contentChunk_held {m : OllamaMessage} {content : String}
    (h : Special (Text.lead (m.accumulatedContent ++ content))) :
    m.contentChunk content = if !m.contentAddedToTextBlock &&
      Text.lead (m.accumulatedContent ++ content) = some '{' then "" else content := by
  unfold contentChunk isAccumulatingToolCall
  rw [handleContentDelta_held h]
  dsimp only
  refine if_congr ?_ rfl rfl
  rw [Bool.and_eq_true, Bool.and_eq_true, startsWithChar_trimmed, decide_eq_true_iff]

theorem contentChunk_of_added {m : OllamaMessage} {content : String}
    (h : (m.handleContentDelta content).contentAddedToTextBlock = true) :
    m.contentChunk content = content := by
  unfold contentChunk isAccumulatingToolCall
  rw [h]
  rfl

/-- More content. -/
theorem Taken.delta {fragments : List String} {delivered : String} {m : OllamaMessage}
    (h : Taken fragments delivered m) {content : String} (hne : content ≠ "") :
    Taken (fragments ++ [content]) (delivered ++ m.contentChunk content)
      (m.handleContentDelta content) := by
  have hjoin : String.join (fragments ++ [content]) = m.accumulatedContent ++ content := by
    rw [join_snoc, h.accumulated]
  by_cases hheld : Special (Text.lead (m.accumulatedContent ++ content))
  · have hprogress := h.progress.held hne (hjoin ▸ hheld)
    rw [contentChunk_held hheld, handleContentDelta_held hheld, ← hjoin]
    exact ⟨rfl, hprogress, h.toolless⟩
  · obtain ⟨haccumulated, hadded, htexts⟩ := handleContentDelta_plain hheld
    have hlead : ¬Special (Text.lead (String.join fragments)) := by
      rw [← h.accumulated]
      intro hspecial
      refine hheld ?_
      rcases hspecial with hlead | hlead
      · exact .inl (Text.lead_append_of_some hlead _)
      · exact .inr (Text.lead_append_of_some hlead _)
    rw [contentChunk_of_added hadded]
    refine ⟨haccumulated.trans hjoin.symm, ?_, toolless_handleContentDelta h.toolless content⟩
    have hnonempty : String.join (fragments ++ [content]) ≠ "" := by
      rw [join_snoc]
      exact fun he => hne (String.append_eq_empty_iff.mp he).2
    have hplain := Progress.plain (hjoin ▸ hheld) hnonempty
    rw [hadded]
    have hprogress := h.progress
    generalize m.contentAddedToTextBlock = added at hprogress htexts
    generalize hbefore : m.texts = texts at hprogress
    -- the text block is begun with all that has come, or goes on
    have hafter : delivered = String.join fragments ∧
        (m.handleContentDelta content).texts = [String.join (fragments ++ [content])] := by
      rw [htexts, hjoin]
      cases hprogress with
      | start hempty =>
          refine ⟨hempty.symm, ?_⟩
          rw [if_neg Bool.false_ne_true, BaseMessage.texts_setText, hbefore]
      | plain _ _ =>
          refine ⟨rfl, ?_⟩
          rw [if_pos rfl, BaseMessage.appendTextDelta, BaseMessage.texts_setText, hbefore,
            h.accumulated]
      | brace lead => exact absurd (.inl lead) hlead
      | fence lead _ => exact absurd (.inr lead) hlead
      | stuck lead _ _ _ => exact absurd lead hlead
    rw [hafter.1, hafter.2, ← join_snoc]
    exact hplain

theorem Taken.empty {fragments : List String} {delivered : String} {m : OllamaMessage}
    (h : Taken fragments delivered m) : Taken (fragments ++ [""]) delivered m := by
  have hjoin : String.join (fragments ++ [""]) = String.join fragments := by
    rw [join_snoc, String.append_empty]
  refine ⟨h.accumulated.trans hjoin.symm, ?_, h.toolless⟩
  have hprogress := h.progress
  generalize m.contentAddedToTextBlock = added at hprogress ⊢
  generalize m.texts = texts at hprogress ⊢
  cases hprogress with
  | start empty => exact .start (hjoin.trans empty)
  | plain lead nonempty =>
      have hnext := Progress.plain (hjoin.symm ▸ lead) (hjoin.symm ▸ nonempty)
      rwa [hjoin] at hnext
  | brace lead => exact .brace (hjoin.symm ▸ lead)
  | fence lead first =>
      have hnext := Progress.fence (hjoin.symm ▸ lead)
        ((blankFirst_append_empty fragments).not.mpr first)
      rwa [hjoin] at hnext
  | stuck lead first blank hblank =>
      have hnext := Progress.stuck (hjoin.symm ▸ lead)
        ((blankFirst_append_empty fragments).mpr first) blank hblank
      rwa [hjoin] at hnext

/-! ### The end of the turn -/

theorem containsText_iff (s part : String) :
    containsText s part = true ↔ part.toList <:+: s.toList := by
  unfold containsText
  rw [List.any_eq_true, List.infix_iff_prefix_suffix]
  simp only [List.mem_tails, List.isPrefixOf_iff_prefix]
  exact exists_congr fun rest => and_comm

/-- What is left of a text without its fence is a part of the text. -/
theorem infix_of_stripMarkdownCodeFence (s : String) :
    (stripMarkdownCodeFence s).toList <:+: s.toList := by
  unfold stripMarkdownCodeFence
  dsimp only
  split
  · rw [Text.trimmed, String.toList_ofList, String.toList_ofList]
    refine (Text.trimChars_infix _ _).trans ((List.dropWhile_suffix _).isInfix.trans ?_)
    refine (List.take_prefix _ _).isInfix.trans ((List.drop_suffix _ _).isInfix.trans ?_)
    exact Text.trimChars_infix _ _
  · rw [Text.trimmed, String.toList_ofList]
    exact Text.trimChars_infix _ _

/-- The text has neither of the keys of a tool call. -/
def Keyless (s : String) : Prop :=
  containsText s "\"name\"" = false ∧ containsText s "\"arguments\"" = false

theorem Keyless.strip {s : String} (h : Keyless s) : Keyless (stripMarkdownCodeFence s) := by
  have hpart (part : String) (hs : containsText s part = false) :
      containsText (stripMarkdownCodeFence s) part = false := by
    rw [Bool.eq_false_iff] at hs ⊢
    exact fun hpart => hs ((containsText_iff _ _).mpr
      (((containsText_iff _ _).mp hpart).trans (infix_of_stripMarkdownCodeFence s)))
  exact ⟨hpart _ h.1, hpart _ h.2⟩

/-- Content without the keys of a tool call becomes text, unless the block is begun. -/
theorem texts_releaseContent {m : OllamaMessage} (h : Keyless m.accumulatedContent) :
    m.releaseContent.texts =
      if m.contentAddedToTextBlock || (Text.lead m.accumulatedContent).isNone then m.texts
      else (m.toBaseMessage.setText fun _ => m.accumulatedContent).texts := by
  unfold releaseContent
  dsimp only
  rw [Text.trimmed_isEmpty, h.strip.1, h.strip.2]
  split
  · rfl
  · rw [Bool.or_self, Bool.and_false, if_neg Bool.false_ne_true]

theorem toolless_releaseContent {m : OllamaMessage} (h : m.toBaseMessage.Toolless) :
    m.releaseContent.toBaseMessage.Toolless := by
  unfold releaseContent
  split
  · exact h
  · dsimp only
    split
    · exact h.removeBlocksIf _
    · exact h.setText fun _ => m.accumulatedContent

/-- The text begins like no tool call, or with a backquote that no white space came before. -/
def InFull (fragments : List String) : Prop :=
  Text.lead (String.join fragments) ≠ some '{' ∧
    (Text.lead (String.join fragments) = some '\x60' → ¬BlankFirst fragments)

/-- The turn ends: the caller and the blocks have the text just where nothing is held back from
either. -/
theorem Taken.released {fragments : List String} {delivered : String} {m : OllamaMessage}
    (h : Taken fragments delivered m) (hkeyless : Keyless (String.join fragments)) :
    (delivered = String.join fragments ∧
      String.join m.releaseContent.texts = String.join fragments) ↔ InFull fragments := by
  have hreleased := texts_releaseContent (h.accumulated.symm ▸ hkeyless)
  rw [h.accumulated] at hreleased
  have hprogress := h.progress
  generalize m.contentAddedToTextBlock = added at hprogress hreleased
  generalize hbefore : m.texts = texts at hprogress
  unfold InFull
  cases hprogress with
  | start empty =>
      rw [empty, Text.lead_empty] at hreleased ⊢
      simp [hreleased, hbefore]
  | plain lead nonempty =>
      have hbrace : Text.lead (String.join fragments) ≠ some '{' := fun h => lead (.inl h)
      have hfence : Text.lead (String.join fragments) ≠ some '\x60' := fun h => lead (.inr h)
      simp [hreleased, hbefore, hbrace, hfence]
  | brace lead =>
      have hne : "" ≠ String.join fragments := fun he => by simp [← he] at lead
      simp [lead, hne]
  | fence lead first =>
      rw [hreleased, lead, if_neg (by decide), BaseMessage.texts_setText, hbefore]
      simp [first]
  | stuck lead first blank hblank =>
      have hne : blank ≠ String.join fragments := by
        rintro rfl
        rw [hblank] at lead
        exact absurd lead (by decide)
      rcases lead with lead | lead
      · simp [hreleased, hbefore, lead, hne]
      · simp [hreleased, hbefore, lead, hne, first]

/-! ### The lines of an answer -/

/-- A line of an answer that calls no tool; the last one is `done`. -/
structure ChatLine (done : Bool) (content : String) (line : JsonObject) : Prop where
  noError : errorIn line = none
  message : line.contains "message" = true
  content : ((line.value "message").toObject.value "content").toString = content
  noCalls : ((line.value "message").toObject.value "tool_calls").toArray = []
  done : (line.value "done").toBool = done

theorem Taken.thinking {fragments : List String} {delivered : String} {m : OllamaMessage}
    (h : Taken fragments delivered m) (thinking : String) :
    Taken fragments delivered (m.handleThinkingDelta thinking) := by
  unfold handleThinkingDelta
  split
  · exact h
  · refine ⟨h.accumulated, ?_, h.toolless.appendThinkingDelta thinking⟩
    have htexts := BaseMessage.texts_appendThinkingDelta m.toBaseMessage thinking
    dsimp only
    rw [htexts]
    exact h.progress

theorem Taken.thinkingComplete {fragments : List String} {delivered : String} {m : OllamaMessage}
    (h : Taken fragments delivered m) (signature : String) :
    Taken fragments delivered (m.handleThinkingComplete signature) := by
  unfold handleThinkingComplete
  split
  · exact h
  · refine ⟨h.accumulated, ?_, h.toolless.changeBlock _ (TurnContent.keepsToolUse_onThinking _)⟩
    dsimp only
    rw [BaseMessage.texts_changeBlock _ _ (BaseMessage.text?_onThinking _)]
    exact h.progress

/-- Effects that have text for the caller and no more. -/
structure Plain (effects : MessageEffects) : Prop where
  error : effects.error = none
  fullText : effects.fullText = ""
  fallbackText : effects.fallbackText = ""

theorem Plain.replaced {effects : MessageEffects} (h : Plain effects) (text : String) :
    effects.replaced text = text := by
  simp [MessageEffects.replaced, h.fullText, h.fallbackText]

theorem Taken.content {fragments : List String} {delivered : String} {m : OllamaMessage}
    (h : Taken fragments delivered m) {done : Bool} {content : String} {line : JsonObject}
    (hline : ChatLine done content line) :
    Taken (fragments ++ [content]) (delivered ++ (m.applyContent line).2.chunk)
        (m.applyContent line).1 ∧
      Plain (m.applyContent line).2 ∧ (m.applyContent line).2.toolsReady = false := by
  unfold applyContent
  dsimp only
  rw [if_pos hline.message, hline.content, hline.noCalls]
  have hthought := h.thinking ((line.value "message").toObject.value "thinking").toString
  by_cases hempty : content = ""
  · subst hempty
    rw [if_pos (by decide)]
    refine ⟨?_, ⟨rfl, rfl, rfl⟩, rfl⟩
    show Taken _ (delivered ++ "") _
    rw [String.append_empty]
    exact hthought.empty
  · rw [if_neg (by simpa using hempty)]
    have hdelta := hthought.delta hempty
    unfold contentChunk at hdelta
    dsimp only [handleToolCalls, List.foldl_nil]
    exact ⟨hdelta, ⟨rfl, rfl, rfl⟩, rfl⟩

section Events

variable (codec : JsonCodec) {fragments : List String} {delivered : String} {m : OllamaMessage}
  {content : String} {line : JsonObject}

theorem applyEvent_line (h : Taken fragments delivered m) (hline : ChatLine false content line) :
    Taken (fragments ++ [content]) (delivered ++ (m.applyEvent codec line).2.chunk)
        (m.applyEvent codec line).1 ∧
      Plain (m.applyEvent codec line).2 ∧ (m.applyEvent codec line).2.toolsReady = false := by
  unfold applyEvent
  rw [hline.noError]
  dsimp only
  rw [hline.done]
  exact (h.thinking _).content hline

/-- The last line: what is held back is released. -/
theorem applyEvent_last (h : Taken fragments delivered m) (hline : ChatLine true content line)
    (hcall : legacyToolCall codec (String.join (fragments ++ [content])) = none) :
    Plain (m.applyEvent codec line).2 ∧ (m.applyEvent codec line).1.toBaseMessage.Toolless ∧
      ∃ m', Taken (fragments ++ [content]) (delivered ++ (m.applyEvent codec line).2.chunk) m' ∧
        (m.applyEvent codec line).1.texts = m'.releaseContent.texts := by
  unfold applyEvent
  rw [hline.noError]
  dsimp only
  rw [hline.done]
  obtain ⟨htaken, hplain, -⟩ :=
    (h.thinking (line.value "thinking").toString).content hline
  generalize (m.handleThinkingDelta (line.value "thinking").toString).applyContent line = r
    at htaken hplain ⊢
  obtain ⟨read, effects⟩ := r
  dsimp only at htaken hplain ⊢
  rw [if_pos rfl]
  unfold applyDone
  dsimp only
  have hsigned : ∃ m', Taken (fragments ++ [content]) (delivered ++ effects.chunk) m' ∧
      m' = if line.contains "signature" then
        read.handleThinkingComplete (line.value "signature").toString else read := by
    split
    · exact ⟨_, htaken.thinkingComplete _, rfl⟩
    · exact ⟨_, htaken, rfl⟩
  obtain ⟨m', htaken', he⟩ := hsigned
  rw [← he]
  refine ⟨⟨hplain.error, hplain.fullText, hplain.fallbackText⟩, ?_, m', htaken', ?_⟩
  · unfold handleStopReason
    rw [htaken'.accumulated, hcall]
    exact BaseMessage.Toolless.recordStopReason (toolless_releaseContent htaken'.toolless) _
      (by decide)
  · unfold handleStopReason
    rw [htaken'.accumulated, hcall]
    rfl

end Events

end OllamaMessage

/-! ### The text the caller gets -/

/-- The client of the chat API. -/
abbrev ollama (codec : JsonCodec) (definitions : ToolsManager → List JsonValue) : BaseClient :=
  ⟨ollamaClient codec definitions, codec⟩

section Delivery

variable {codec : JsonCodec} {definitions : ToolsManager → List JsonValue}

open OllamaMessage

/-- A streamed answer that calls no tool. -/
inductive ChatStream : List String → List StreamEvent → Prop
  | lines {fragments : List String} {final : String} {lines : List JsonObject} {last : JsonObject}
      (body : List.Forall₂ (ChatLine false) fragments lines) (done : ChatLine true final last) :
      ChatStream (fragments ++ [final]) (lines.map .line ++ [.line last])

/-- Nothing of the answer to this turn has come. -/
structure NotBegun (v : RequestView (ollama codec definitions).provider) : Prop where
  text : v.text = ""
  message : ∀ m, v.message = some m → (OllamaMessage.toBaseMessage m).state = .requiresToolExecution

theorem taken_restart {m : OllamaMessage} (h : m.state = .requiresToolExecution) :
    Taken [] "" (OllamaClient.ensure (some m)) := by
  have he : OllamaClient.ensure (some m) = OllamaMessage.startNewContinuation m := if_pos h
  rw [he]
  exact ⟨rfl, .start rfl, ⟨rfl, nofun⟩⟩

theorem taken_ensure {v : RequestView (ollama codec definitions).provider} (h : NotBegun v) :
    Taken [] "" (OllamaClient.ensure v.message) := by
  cases hm : v.message with
  | none => exact ⟨rfl, .start rfl, .fresh⟩
  | some m => exact taken_restart (h.message m hm)

/-- The view of a request of which the fragments `seen` have come. -/
structure Receives (start : RequestView (ollama codec definitions).provider) (seen : List String)
    (v : RequestView (ollama codec definitions).provider) : Prop where
  closed : v.closed = start.closed
  completed : v.emitted.completed = start.emitted.completed
  chunks : String.join v.emitted.chunks = String.join start.emitted.chunks ++ v.text
  taken : Taken seen v.text (OllamaClient.ensure v.message)

/-- The view of a request in the middle of an answer, and at its end. -/
inductive Chats (start : RequestView (ollama codec definitions).provider) (all : List String)
    (v : RequestView (ollama codec definitions).provider) : List StreamEvent → Prop
  | body {seen rest : List String} {events : List StreamEvent} (stream : ChatStream rest events)
      (whole : seen ++ rest = all) (view : Receives start seen v) : Chats start all v events
  | finished {m : OllamaMessage} (message : v.message = some m) (toolless : m.toBaseMessage.Toolless)
      (closed : v.closed = start.closed)
      (completed : v.emitted.completed = start.emitted.completed)
      (chunks : String.join v.emitted.chunks = String.join start.emitted.chunks ++ v.text)
      (full : (v.text = String.join all ∧ String.join m.texts = String.join all) ↔ InFull all) :
      Chats start all v []

theorem ensure_of_toolless {m : OllamaMessage} (h : m.toBaseMessage.Toolless) :
    OllamaClient.ensure (some m) = m :=
  if_neg h.state

/-- What an event with text for the caller makes of the view. -/
theorem apply_plain {start v : RequestView (ollama codec definitions).provider}
    (message : (ollama codec definitions).provider.Msg) {effects : MessageEffects}
    (hplain : Plain effects)
    (hclosed : v.closed = start.closed)
    (hcompleted : v.emitted.completed = start.emitted.completed)
    (hchunks : String.join v.emitted.chunks = String.join start.emitted.chunks ++ v.text) :
    (v.apply message effects).closed = start.closed ∧
      (v.apply message effects).emitted.completed = start.emitted.completed ∧
      String.join (v.apply message effects).emitted.chunks =
        String.join start.emitted.chunks ++ (v.apply message effects).text ∧
      (v.apply message effects).text = v.text ++ effects.chunk := by
  have htext := RequestView.text_apply v message effects
  rw [hplain.replaced] at htext
  refine ⟨(RequestView.closed_apply v message effects).trans hclosed,
    (RequestView.completed_apply v message effects).trans hcompleted, ?_, htext⟩
  rw [htext, RequestView.chunks_apply, hchunks, String.append_assoc]

/-- One more line. -/
theorem Receives.line {start v : RequestView (ollama codec definitions).provider}
    {seen : List String} (view : Receives start seen v) {content : String}
    {message : (ollama codec definitions).provider.Msg} {effects : MessageEffects}
    (hplain : Plain effects)
    (htaken : Taken (seen ++ [content]) (v.text ++ effects.chunk) message) :
    Receives start (seen ++ [content]) (v.apply message effects) := by
  obtain ⟨hclosed, hcompleted, hchunks, htext⟩ :=
    apply_plain message hplain view.closed view.completed view.chunks
  obtain ⟨m, hm, hread⟩ := RequestView.message_apply (P := (ollama codec definitions).provider)
    (p := Taken (seen ++ [content]) (v.text ++ effects.chunk)) htaken
    ⟨htaken.accumulated, htaken.progress, htaken.toolless.takePending⟩ v effects
  refine ⟨hclosed, hcompleted, hchunks, ?_⟩
  rw [hm, htext]
  have he : OllamaClient.ensure (some m) = m := ensure_of_toolless hread.toolless
  exact he.symm ▸ hread

/-- The last line. -/
theorem Receives.last {start v : RequestView (ollama codec definitions).provider}
    {seen all : List String} (view : Receives start seen v)
    {message : (ollama codec definitions).provider.Msg} {effects : MessageEffects}
    (hplain : Plain effects) (htoolless : (OllamaMessage.toBaseMessage message).Toolless)
    (hfull : (v.text ++ effects.chunk = String.join all ∧
      String.join (OllamaMessage.toBaseMessage message).texts = String.join all) ↔ InFull all) :
    (∀ m, (v.apply message effects).message = some m →
      (OllamaMessage.toBaseMessage m).state ≠ .requiresToolExecution) ∧
      Chats start all (v.apply message effects) [] := by
  obtain ⟨hclosed, hcompleted, hchunks, htext⟩ :=
    apply_plain message hplain view.closed view.completed view.chunks
  obtain ⟨m, hm, htoolless', htexts⟩ := RequestView.message_apply
    (P := (ollama codec definitions).provider)
    (p := fun m => (OllamaMessage.toBaseMessage m).Toolless ∧
      (OllamaMessage.toBaseMessage m).texts = (OllamaMessage.toBaseMessage message).texts)
    ⟨htoolless, rfl⟩ ⟨htoolless.takePending, rfl⟩ v effects
  refine ⟨fun m' hm' => ?_, .finished hm htoolless' hclosed hcompleted hchunks ?_⟩
  · obtain rfl := Option.some.inj (hm.symm.trans hm')
    exact htoolless'.state
  · rw [htext, htexts]
    exact hfull

/-- Each line of the answer is read, and none leads to tools. -/
theorem Chats.step {start : RequestView (ollama codec definitions).provider} {all : List String}
    (hkeyless : Keyless (String.join all)) (hcall : legacyToolCall codec (String.join all) = none)
    {v : RequestView (ollama codec definitions).provider} {event : StreamEvent}
    {rest : List StreamEvent} (h : Chats start all v (event :: rest)) :
    ∃ message effects,
      (ollama codec definitions).provider.processEvent v.message event =
        .applied message effects ∧
      effects.error = none ∧
      (effects.toolsReady = true → ∀ m, (v.apply message effects).message = some m →
        (OllamaMessage.toBaseMessage m).state ≠ .requiresToolExecution) ∧
      Chats start all (v.apply message effects) rest := by
  generalize he : event :: rest = events at h
  cases h with
  | finished => cases he
  | body stream whole view =>
      obtain ⟨body, done⟩ := stream
      cases body with
      | nil =>
          obtain ⟨rfl, rfl⟩ := List.cons.inj he
          subst whole
          obtain ⟨hplain, htoolless, m', htaken, htexts⟩ :=
            applyEvent_last codec view.taken done hcall
          have hfull := htaken.released hkeyless
          rw [← htexts] at hfull
          obtain ⟨hstate, hover⟩ := view.last hplain htoolless hfull
          exact ⟨_, _, rfl, hplain.error, fun _ => hstate, hover⟩
      | cons first more =>
          obtain ⟨rfl, rfl⟩ := List.cons.inj he
          obtain ⟨htaken, hplain, hready⟩ := applyEvent_line codec view.taken first
          refine ⟨_, _, rfl, hplain.error, fun h => absurd (h.symm.trans hready) (by decide),
            .body (.lines more done) ?_ (view.line hplain htaken)⟩
          rw [← whole]
          simp

theorem endsPlainly_ollama : BaseClient.EndsPlainly (ollama codec definitions).provider :=
  ⟨fun _ => rfl, rfl⟩

theorem Chats.end {start v : RequestView (ollama codec definitions).provider} {all : List String}
    (h : Chats start all v []) : ∃ m : OllamaMessage, v.message = some m ∧
      m.toBaseMessage.Toolless ∧ v.closed = start.closed ∧
      v.emitted.completed = start.emitted.completed ∧
      String.join v.emitted.chunks = String.join start.emitted.chunks ++ v.text ∧
      ((v.text = String.join all ∧ String.join m.texts = String.join all) ↔ InFull all) := by
  generalize he : ([] : List StreamEvent) = rest at h
  cases h with
  | body stream _ _ =>
      obtain ⟨_, _⟩ := stream
      simp at he
  | finished message toolless closed completed chunks full =>
      exact ⟨_, message, toolless, closed, completed, chunks, full⟩

variable {id : String} {v : RequestView (ollama codec definitions).provider}
  {s : (ollama codec definitions).State} {fragments : List String} {events : List StreamEvent}

/-- What the caller of an answer is told. -/
theorem answered (h : BaseClient.Seen id v s) (hv : NotBegun v)
    (hstream : ChatStream fragments events) (hkeyless : Keyless (String.join fragments))
    (hcall : legacyToolCall codec (String.join fragments) = none) (ref : Option StreamRef) :
    ∃ s₁ v₁ s' m,
      ((ollama codec definitions).dispatchEvents id ref events).run.alone ClientOut.returns s =
        some (.ok (), s₁) ∧
      BaseClient.Seen id v₁ s₁ ∧ v₁.message = some (m : OllamaMessage) ∧
      ((ollama codec definitions).onStreamFinished id ref none).run.alone ClientOut.returns s₁ =
        some (.ok (), s') ∧
      String.join (emittedFor id s'.history).chunks =
        String.join v.emitted.chunks ++ v₁.text ∧
      (emittedFor id s'.history).completed = v.emitted.completed ++ [v.closed ++ v₁.text] ∧
      ((v₁.text = String.join fragments ∧ String.join m.texts = String.join fragments) ↔
        InFull fragments) := by
  have hstart : Receives v [] v :=
    ⟨rfl, rfl, by rw [hv.text, String.append_empty], hv.text.symm ▸ taken_ensure hv⟩
  have hdispatched := BaseClient.dispatchEvents_seen (Chats v fragments)
    (fun _ _ _ hI => hI.step hkeyless hcall) ref events h (.body hstream rfl hstart)
  obtain ⟨_, s₁, hrun, rfl, v₁, hseen, hI⟩ := yields_iff.mp hdispatched
  obtain ⟨m, hm, htoolless, hclosed, hcompleted, hchunks, hfull⟩ := hI.end
  have hfinished := BaseClient.streamDrained_completed hseen ref
    (endsPlainly_ollama.pending _) endsPlainly_ollama.drained (fun m' hm' => by
      obtain rfl := Option.some.inj (hm.symm.trans hm')
      exact htoolless.state)
  obtain ⟨_, s', hrun', rfl, -, htold⟩ := yields_iff.mp hfinished
  refine ⟨s₁, v₁, s', m, hrun, hseen, hm, hrun', ?_, ?_, hfull⟩
  · rw [htold.chunks, hchunks]
  · rw [htold.completed, hcompleted, hclosed]

/-- The answer reaches the caller, as chunks and as the full text, and the last message, just
where it begins like no tool call, or with a backquote that no white space came before. -/
theorem delivered_iff (h : BaseClient.Seen id v s) (hv : NotBegun v)
    (hstream : ChatStream fragments events) (hkeyless : Keyless (String.join fragments))
    (hcall : legacyToolCall codec (String.join fragments) = none) (ref : Option StreamRef) :
    ∃ s₁ v₁ s' m,
      ((ollama codec definitions).dispatchEvents id ref events).run.alone ClientOut.returns s =
        some (.ok (), s₁) ∧
      BaseClient.Seen id v₁ s₁ ∧ v₁.message = some (m : OllamaMessage) ∧
      ((ollama codec definitions).onStreamFinished id ref none).run.alone ClientOut.returns s₁ =
        some (.ok (), s') ∧
      ((String.join (emittedFor id s'.history).chunks =
            String.join v.emitted.chunks ++ String.join fragments ∧
          (emittedFor id s'.history).completed =
            v.emitted.completed ++ [v.closed ++ String.join fragments] ∧
          String.join m.texts = String.join fragments) ↔
        InFull fragments) := by
  obtain ⟨s₁, v₁, s', m, hrun, hseen, hm, hrun', hchunks, hcompleted, hfull⟩ :=
    answered h hv hstream hkeyless hcall ref
  refine ⟨s₁, v₁, s', m, hrun, hseen, hm, hrun', ?_⟩
  rw [hchunks, hcompleted, ← hfull]
  simp

end Delivery

open OllamaMessage

def chatLine (content : String) (done : Bool) : JsonObject :=
  .ofFields
    [("message", .obj (JsonObject.ofFields [("content", .str content)])), ("done", .bool done)]

theorem chatLine_spec (content : String) (done : Bool) :
    ChatLine done content (chatLine content done) := by
  constructor
  · simp [errorIn, chatLine, JsonObject.ofFields, JsonObject.value_insert, JsonValue.isObject,
      JsonValue.isString]
  · simp [chatLine, JsonObject.contains_ofFields]
  · simp [chatLine, JsonObject.ofFields, JsonObject.value_insert]
  · simp [chatLine, JsonObject.ofFields, JsonObject.value_insert, JsonValue.toArray]
  · simp [chatLine, JsonObject.ofFields, JsonObject.value_insert]

/-- An answer with a line for each fragment, and the line that ends it. -/
def chatLines (fragments : List String) : List StreamEvent :=
  (fragments.map fun content => chatLine content false).map .line ++ [.line (chatLine "" true)]

theorem chatStream_chatLines (fragments : List String) :
    ChatStream (fragments ++ [""]) (chatLines fragments) := by
  refine .lines ?_ (chatLine_spec "" true)
  rw [List.forall₂_map_right_iff, List.forall₂_same]
  intro content _
  exact chatLine_spec content false

/-- The reader and the writer, on the empty object. -/
def bracesCodec : JsonCodec where
  fromJson bytes := if bytes = Bytes.ofString "\x7b\x7d" then .object [] else .null
  toJson _ := "\x7b\x7d"

/-- A client whose tools have no definitions. -/
def bracesOllama : BaseClient := ollama bracesCodec fun _ => []

/-- White space that comes on its own is delivered, and so is a backquote behind a letter. -/
theorem delivered_iff_hi : ∃ s₁ s',
    (bracesOllama.dispatchEvents "r" none
      (chatLines ["\n", " H", "", "i", " ", "\x60x\x60"])).run.alone ClientOut.returns
        (BaseClient.askedState _) = some (.ok (), s₁) ∧
    (bracesOllama.onStreamFinished "r" none none).run.alone ClientOut.returns s₁ =
      some (.ok (), s') ∧
    String.join (emittedFor "r" s'.history).chunks = "\n Hi \x60x\x60" ∧
    (emittedFor "r" s'.history).completed = ["\n Hi \x60x\x60"] := by
  obtain ⟨s₁, v₁, s', m, hrun, -, -, hrun', hiff⟩ :=
    @delivered_iff bracesCodec (fun _ => []) "r" _ _ _ _
      (BaseClient.seen_askedState _) ⟨rfl, nofun⟩
      (chatStream_chatLines ["\n", " H", "", "i", " ", "\x60x\x60"]) ⟨by decide, by decide⟩
      (by decide) none
  obtain ⟨hchunks, hcompleted, -⟩ := hiff.mpr ⟨by decide, fun h => absurd h (by decide)⟩
  exact ⟨s₁, s', hrun, hrun', hchunks, hcompleted⟩

/-- `"{}"` is not. -/
theorem delivered_not_braces : ∃ s₁ v₁ s' m,
    (bracesOllama.dispatchEvents "r" none (chatLines ["\x7b\x7d"])).run.alone ClientOut.returns
        (BaseClient.askedState _) = some (.ok (), s₁) ∧
    BaseClient.Seen "r" v₁ s₁ ∧ v₁.message = some (m : OllamaMessage) ∧
    (bracesOllama.onStreamFinished "r" none none).run.alone ClientOut.returns s₁ =
      some (.ok (), s') ∧
    ¬(String.join (emittedFor "r" s'.history).chunks = "\x7b\x7d" ∧
      (emittedFor "r" s'.history).completed = ["\x7b\x7d"] ∧ String.join m.texts = "\x7b\x7d") := by
  obtain ⟨s₁, v₁, s', m, hrun, hseen, hm, hrun', hchunks, -, hiff⟩ :=
    @answered bracesCodec (fun _ => []) "r" _ _ _ _
      (BaseClient.seen_askedState _) ⟨rfl, nofun⟩ (chatStream_chatLines ["\x7b\x7d"])
      ⟨by decide, by decide⟩ (by decide) none
  refine ⟨s₁, v₁, s', m, hrun, hseen, hm, hrun', ?_⟩
  rintro ⟨htold, -, htexts⟩
  rw [hchunks] at htold
  have hfull := hiff.mp ⟨by simpa using htold, htexts⟩
  exact hfull.1 (by decide)

end LLMQore
