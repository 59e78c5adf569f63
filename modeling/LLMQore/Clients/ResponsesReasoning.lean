import LLMQore.Clients.ResponsesStreaming
import LLMQore.Core.ThinkingBlocks

/-!
# LLMQore.Clients.ResponsesReasoning

What a streamed reasoning item leaves in the message.

The deltas of the item append to its thinking block, and so does what `output_item.done` brings:
the text of the item, or a placeholder where it has none. So the block of an item with an id has
the text twice, or the placeholder after nothing (`reasoning_appended`). An item without an id is
passed over where it begins and where it is done; its deltas are kept, in a block that all such
items of the turn share (`reasoning_unnamed`). So the text is there once just where the item has
no id and is the first of these (`reasoning_once_iff`).
-/

namespace LLMQore

open Reentrant Network Tools

namespace OpenAIResponsesMessage

/-! ### The block of an item -/

/-- Block `n` belongs to the item, and is `c`. -/
structure HasReasoning (itemId : String) (n : Nat) (c : ThinkingContent)
    (m : OpenAIResponsesMessage) : Prop where
  index : m.thinkingBlocks.lookup itemId = some n
  block : m.currentBlocks[n]? = some (.thinking c)
  state : m.state ≠ .requiresToolExecution

section Blocks

variable {itemId : String} {n : Nat} {c : ThinkingContent} {m : OpenAIResponsesMessage}

/-- `handleReasoningStart` makes a block that is empty. -/
theorem hasReasoning_start (hstate : m.state ≠ .requiresToolExecution) (itemId : String) :
    HasReasoning itemId m.currentBlocks.length { itemId } (m.handleReasoningStart itemId) where
  index := AList.lookup_insert _
  block := by
    show (m.currentBlocks ++ [TurnContent.thinking { itemId }])[m.currentBlocks.length]? = _
    simp
  state := hstate

theorem HasReasoning.withReasoning (h : HasReasoning itemId n c m) : m.withReasoning itemId = m :=
  if_pos (AList.lookup_isSome.mp (by rw [h.index]; rfl))

theorem HasReasoning.change (h : HasReasoning itemId n c m) (f : ThinkingContent → ThinkingContent) :
    HasReasoning itemId n (f c) (m.changeReasoning itemId f) := by
  unfold changeReasoning
  rw [h.index]
  refine ⟨h.index, ?_, h.state⟩
  show (m.currentBlocks.modify n (.onThinking f))[n]? = _
  rw [List.getElem?_modify, h.block]
  simp [TurnContent.onThinking]

/-- Also a delta without text. -/
theorem HasReasoning.delta (h : HasReasoning itemId n c m) (text : String) :
    HasReasoning itemId n { c with thinking := c.thinking ++ text }
      (m.handleReasoningDelta itemId text) := by
  unfold handleReasoningDelta
  by_cases htext : text = ""
  · subst htext
    simpa using h
  · rw [if_neg (by simpa using htext), h.withReasoning]
    exact h.change fun c => { c with thinking := c.thinking ++ text }

theorem HasReasoning.encrypted (h : HasReasoning itemId n c m) (encryptedContent : String) :
    ∃ c', c'.thinking = c.thinking ∧
      HasReasoning itemId n c' (m.handleReasoningEncryptedContent itemId encryptedContent) := by
  unfold handleReasoningEncryptedContent
  split
  · exact ⟨c, rfl, h⟩
  · rw [h.withReasoning]
    exact ⟨{ c with encryptedContent }, rfl, h.change fun c => { c with encryptedContent }⟩

/-- What the end of an item appends to its block. -/
def closingText (item : JsonObject) : String :=
  if (reasoningTextOf item).isEmpty then streamingReasoningPlaceholder else reasoningTextOf item

theorem HasReasoning.item (h : HasReasoning itemId n c m) (hid : itemId ≠ "")
    (item : JsonObject) : ∃ c', c'.thinking = c.thinking ++ closingText item ∧
      HasReasoning itemId n c'
        (m.applyReasoningItem itemId item streamingReasoningPlaceholder) := by
  unfold applyReasoningItem
  rw [if_neg (by simpa using hid)]
  have hne : (closingText item).isEmpty = false := by
    unfold closingText
    split
    · rfl
    · rename_i htext
      exact Bool.eq_false_iff.mpr htext
  show ∃ c', _ ∧ HasReasoning itemId n c' (if (closingText item).isEmpty && _ then m else
    (m.handleReasoningDelta itemId (closingText item)).handleReasoningEncryptedContent itemId _)
  rw [hne, Bool.false_and, if_neg Bool.false_ne_true]
  exact (h.delta (closingText item)).encrypted _

end Blocks

/-! ### An item without an id -/

theorem state_handleReasoningDelta (m : OpenAIResponsesMessage) (itemId text : String) :
    (m.handleReasoningDelta itemId text).state = m.state := by
  unfold handleReasoningDelta
  split
  · rfl
  · have hwith : (m.withReasoning itemId).state = m.state := by
      unfold withReasoning
      split <;> rfl
    unfold changeReasoning
    split
    · exact hwith
    · exact hwith

/-- The last block is filed under no id, after the blocks `earlier`, and is `c`. -/
structure UnnamedLast (earlier : List TurnContent) (c : ThinkingContent)
    (m : OpenAIResponsesMessage) : Prop where
  index : m.thinkingBlocks.lookup "" = some earlier.length
  blocks : m.currentBlocks = earlier ++ [.thinking c]

section Unnamed

variable {m : OpenAIResponsesMessage} {earlier : List TurnContent} {c : ThinkingContent}

theorem UnnamedLast.delta (h : UnnamedLast earlier c m) (text : String) :
    UnnamedLast earlier { c with thinking := c.thinking ++ text }
      (m.handleReasoningDelta "" text) := by
  unfold handleReasoningDelta
  by_cases htext : text = ""
  · subst htext
    simpa using h
  · have hfiled : "" ∈ m.thinkingBlocks := AList.lookup_isSome.mp (by rw [h.index]; rfl)
    rw [if_neg (by simpa using htext), withReasoning, if_pos hfiled, changeReasoning, h.index]
    refine ⟨h.index, ?_⟩
    show m.currentBlocks.modify earlier.length _ = _
    rw [h.blocks, List.modify_eq_take_cons_drop (by simp)]
    simp [TurnContent.onThinking]

theorem UnnamedLast.deltas (h : UnnamedLast earlier c m) (fragments : List String) :
    UnnamedLast earlier { c with thinking := c.thinking ++ String.join fragments }
      (fragments.foldl (fun m => m.handleReasoningDelta "") m) := by
  induction fragments generalizing m c with
  | nil => simpa using h
  | cons fragment rest ih =>
      have hrest := ih (h.delta fragment)
      simpa [String.join_cons, String.append_assoc] using hrest

/-- The first text of an item makes a block, and all of its text goes there. -/
theorem deltas_unnamed (hnew : "" ∉ m.thinkingBlocks) (fragments : List String)
    (htext : String.join fragments ≠ "") :
    UnnamedLast m.currentBlocks { thinking := String.join fragments }
      (fragments.foldl (fun m => m.handleReasoningDelta "") m) := by
  induction fragments with
  | nil => exact absurd String.join_nil htext
  | cons fragment rest ih =>
      by_cases hfragment : fragment = ""
      · subst hfragment
        have hskip : m.handleReasoningDelta "" "" = m := if_pos rfl
        rw [String.join_cons, String.empty_append] at htext ⊢
        rw [List.foldl_cons, hskip]
        exact ih htext
      · have hstart : UnnamedLast m.currentBlocks {} (m.handleReasoningStart "") :=
          ⟨AList.lookup_insert _, rfl⟩
        have hmade : m.handleReasoningDelta "" fragment =
            (m.handleReasoningStart "").handleReasoningDelta "" fragment := by
          have hfiled : "" ∈ (m.handleReasoningStart "").thinkingBlocks :=
            AList.lookup_isSome.mp (by rw [hstart.index]; rfl)
          unfold handleReasoningDelta withReasoning
          rw [if_neg hnew, if_pos hfiled, if_neg (by simpa using hfragment),
            if_neg (by simpa using hfragment)]
        rw [List.foldl_cons, hmade]
        have hrest := (hstart.delta fragment).deltas rest
        simpa [String.join_cons] using hrest

theorem deltas_empty (fragments : List String) (htext : String.join fragments = "") :
    fragments.foldl (fun m => m.handleReasoningDelta "") m = m := by
  induction fragments with
  | nil => rfl
  | cons fragment rest ih =>
      rw [String.join_cons] at htext
      obtain ⟨rfl, hrest⟩ := String.append_eq_empty_iff.mp htext
      exact ih hrest

/-- Where there is such a block, no other is made. -/
theorem length_deltas_filed (hfiled : "" ∈ m.thinkingBlocks) (fragments : List String) :
    (fragments.foldl (fun m => m.handleReasoningDelta "") m).currentBlocks.length =
      m.currentBlocks.length := by
  induction fragments generalizing m with
  | nil => rfl
  | cons fragment rest ih =>
      obtain ⟨n, hn⟩ := Option.isSome_iff_exists.mp (AList.lookup_isSome.mpr hfiled)
      have hone : "" ∈ (m.handleReasoningDelta "" fragment).thinkingBlocks ∧
          (m.handleReasoningDelta "" fragment).currentBlocks.length =
            m.currentBlocks.length := by
        have hwith : m.withReasoning "" = m := if_pos hfiled
        unfold handleReasoningDelta
        split
        · exact ⟨hfiled, rfl⟩
        · rw [hwith]
          unfold changeReasoning
          rw [hn]
          exact ⟨hfiled, by simp [BaseMessage.changeBlock]⟩
      rw [List.foldl_cons, ih hone.1, hone.2]

end Unnamed

/-! ### The messages of a turn -/

section Extends

open NamedMessage

variable (codec : JsonCodec) (m : OpenAIResponsesMessage)

theorem extends_complete {Key : Type} [DecidableEq Key] (a : ToolCallAccumulator Key)
    (m : BaseMessage) (key : Key) (finalArguments : String) :
    Extends m (a.complete codec m key finalArguments).2 := by
  unfold ToolCallAccumulator.complete
  split
  · exact .refl m
  · dsimp only
    generalize (if finalArguments.isEmpty then _ else finalArguments) = json
    split
    · exact .refl m
    · split
      · exact .refl m
      · exact extends_changeToolUse m _ _

theorem extends_handleToolCallComplete (callId finalArguments : String) :
    Extends m.toBaseMessage
      (m.handleToolCallComplete codec callId finalArguments).toBaseMessage :=
  extends_complete codec m.toolCalls m.toBaseMessage callId finalArguments

theorem extends_withReasoning (itemId : String) :
    Extends m.toBaseMessage (m.withReasoning itemId).toBaseMessage := by
  unfold withReasoning
  split
  · exact .refl _
  · exact extends_addCurrentContent _ _

theorem extends_changeReasoning (itemId : String) (f : ThinkingContent → ThinkingContent) :
    Extends m.toBaseMessage (m.changeReasoning itemId f).toBaseMessage := by
  unfold changeReasoning
  split
  · exact .refl _
  · exact extends_changeThinking _ _ _

theorem extends_handleReasoningEncryptedContent (itemId encryptedContent : String) :
    Extends m.toBaseMessage
      (m.handleReasoningEncryptedContent itemId encryptedContent).toBaseMessage := by
  unfold handleReasoningEncryptedContent
  split
  · exact .refl _
  · exact (extends_withReasoning m itemId).trans (extends_changeReasoning _ _ _)

theorem extends_handleReasoningDelta (itemId text : String) :
    Extends m.toBaseMessage (m.handleReasoningDelta itemId text).toBaseMessage := by
  unfold handleReasoningDelta
  split
  · exact .refl _
  · exact (extends_withReasoning m itemId).trans (extends_changeReasoning _ _ _)

theorem extends_deltas (itemId : String) (fragments : List String) :
    Extends m.toBaseMessage
      (fragments.foldl (fun m => m.handleReasoningDelta itemId) m).toBaseMessage := by
  induction fragments generalizing m with
  | nil => exact .refl _
  | cons fragment rest ih =>
      exact (extends_handleReasoningDelta m itemId fragment).trans
        (ih (m.handleReasoningDelta itemId fragment))

theorem extends_applyReasoningItem (itemId : String) (item : JsonObject) (placeholder : String) :
    Extends m.toBaseMessage (m.applyReasoningItem itemId item placeholder).toBaseMessage := by
  unfold applyReasoningItem
  dsimp only
  split
  · exact .refl _
  · generalize (if (reasoningTextOf item).isEmpty then placeholder else _) = text
    split
    · exact .refl _
    · exact (extends_handleReasoningDelta m itemId _).trans
        (extends_handleReasoningEncryptedContent _ _ _)

theorem extends_handleStopReason (status : String) :
    Extends m.toBaseMessage (m.handleStopReason status).toBaseMessage :=
  ⟨rfl, Nat.le_refl _, fun _ b hb => ⟨b, hb, rfl, rfl⟩, fun _ => .inl⟩

theorem extends_addItem (item : JsonObject) :
    Extends m.toBaseMessage (m.addItem item).toBaseMessage := by
  unfold addItem
  dsimp only
  split
  · split
    · exact extends_addCurrentContent _ _
    · exact .refl _
  · split
    · exact (extends_addCurrentContent m.toBaseMessage _).trans
        (extends_handleReasoningEncryptedContent (m.handleReasoningStart _) _ _)
    · exact .refl _

theorem extends_applyItemDone (data : JsonObject) :
    Extends m.toBaseMessage (m.applyItemDone codec data).1.toBaseMessage := by
  unfold applyItemDone
  dsimp only
  repeat' split
  all_goals first
    | exact .refl _
    | exact extends_applyReasoningItem _ _ _ _
    | exact extends_handleToolCallComplete _ _ _ _

theorem extends_applyTerminal (response : JsonObject) (fallbackStatus : String) :
    Extends m.toBaseMessage (m.applyTerminal response fallbackStatus).1.toBaseMessage := by
  unfold applyTerminal
  split
  · exact extends_handleStopReason m _
  · exact extends_handleStopReason m _

theorem extends_applyEvent (eventType : String) (data : JsonObject) :
    Extends m.toBaseMessage (m.applyEvent codec eventType data).1.toBaseMessage := by
  have hite {b : Prop} [Decidable b] {r r' : OpenAIResponsesMessage × MessageEffects}
      (hthen : Extends m.toBaseMessage r.1.toBaseMessage)
      (helse : Extends m.toBaseMessage r'.1.toBaseMessage) :
      Extends m.toBaseMessage (if b then r else r').1.toBaseMessage := by
    split
    · exact hthen
    · exact helse
  unfold applyEvent
  refine hite ?delta <| hite (.refl _) <| hite (extends_addItem m _) <|
    hite (extends_handleReasoningDelta m _ _) <| hite (.refl _) <| hite ?arguments <|
    hite (extends_applyItemDone codec m _) <| hite (extends_applyTerminal m _ _) <|
    hite (extends_applyTerminal m _ _) <| hite (extends_handleStopReason m _) <|
    hite (.refl _) (.refl _)
  case delta =>
    dsimp only
    split
    · exact .refl _
    · exact extends_appendTextDelta m.toBaseMessage _
  case arguments =>
    dsimp only
    split
    · exact .refl _
    · exact .refl _

end Extends

end OpenAIResponsesMessage

/-! ### The events of an item -/

namespace OpenAIResponsesClient

/-- An item that reasons. -/
structure ReasoningItem (itemId : String) (item : JsonObject) : Prop where
  type : (item.value "type").toString = "reasoning"
  id : (item.value "id").toString = itemId

theorem ReasoningItem.isEmpty {itemId : String} {item : JsonObject}
    (h : ReasoningItem itemId item) : item.isEmpty = false := by
  cases item with
  | nil => exact absurd h.type (by decide)
  | cons _ _ => rfl

/-- An item begins; it need not have its text. -/
def ItemAdded (itemId : String) : StreamEvent → Prop
  | .sse event data => event.type = "response.output_item.added" ∧
      ReasoningItem itemId (data.value "item").toObject
  | .line _ => False

/-- A fragment of the text of an item. -/
def ReasoningDelta (itemId fragment : String) : StreamEvent → Prop
  | .sse event data => event.type = "response.reasoning_content.delta" ∧
      (data.value "item_id").toString = itemId ∧ (data.value "delta").toString = fragment
  | .line _ => False

/-- An item is done, and is there as a whole. -/
def ItemDone (itemId : String) (item : JsonObject) : StreamEvent → Prop
  | .sse event data => event.type = "response.output_item.done" ∧
      (data.value "item").toObject = item ∧
      ((data.value "item_id").toString = "" ∨ (data.value "item_id").toString = itemId)
  | .line _ => False

/-- An item streams in the given fragments. -/
inductive ReasoningStream (itemId : String) (item : JsonObject) (fragments : List String) :
    List StreamEvent → Prop
  | events {added done : StreamEvent} {deltas : List StreamEvent} (start : ItemAdded itemId added)
      (text : List.Forall₂ (ReasoningDelta itemId) fragments deltas)
      (whole : ItemDone itemId item done) :
      ReasoningStream itemId item fragments (added :: (deltas ++ [done]))

section Events

open OpenAIResponsesMessage

variable (codec : JsonCodec) {itemId : String} {n : Nat} {c : ThinkingContent}
  {m : OpenAIResponsesMessage} {event : SSEEvent} {data : JsonObject}

theorem applyEvent_added (hstate : m.state ≠ .requiresToolExecution) (hid : itemId ≠ "")
    (h : ItemAdded itemId (.sse event data)) :
    (m.applyEvent codec event.type data).2 = {} ∧ ∃ c, c.thinking = "" ∧
      HasReasoning itemId m.currentBlocks.length c (m.applyEvent codec event.type data).1 := by
  obtain ⟨htype, hitem⟩ := h
  rw [htype]
  refine ⟨rfl, ?_⟩
  show ∃ c, _ ∧ HasReasoning itemId _ c (m.addItem (data.value "item").toObject)
  unfold addItem
  rw [hitem.type, hitem.id]
  simp only [decide_true, Bool.true_and]
  rw [if_neg (by decide), if_pos (by simpa using hid)]
  exact (hasReasoning_start hstate itemId).encrypted _

theorem applyEvent_delta (hm : HasReasoning itemId n c m) {fragment : String}
    (h : ReasoningDelta itemId fragment (.sse event data)) :
    (m.applyEvent codec event.type data).2 = {} ∧
      HasReasoning itemId n { c with thinking := c.thinking ++ fragment }
        (m.applyEvent codec event.type data).1 := by
  obtain ⟨htype, rfl, rfl⟩ := h
  rw [htype]
  exact ⟨rfl, hm.delta _⟩

theorem applyEvent_done (hm : HasReasoning itemId n c m) (hid : itemId ≠ "") {item : JsonObject}
    (hitem : ReasoningItem itemId item) (h : ItemDone itemId item (.sse event data)) :
    (m.applyEvent codec event.type data).2 = { thinkingCompleted := true } ∧
      ∃ c', c'.thinking = c.thinking ++ closingText item ∧
        HasReasoning itemId n c' (m.applyEvent codec event.type data).1 := by
  obtain ⟨htype, rfl, hitemId⟩ := h
  have hne : (data.value "item").toObject.isEmpty = false := hitem.isEmpty
  have hfinal : (if (data.value "item_id").toString.isEmpty then
      ((data.value "item").toObject.value "id").toString else (data.value "item_id").toString) =
        itemId := by
    obtain h | h := hitemId
    · rw [h]
      exact hitem.id
    · rw [h, if_neg (by simpa using hid)]
  have he : m.applyEvent codec event.type data =
      (m.applyReasoningItem itemId (data.value "item").toObject streamingReasoningPlaceholder,
        { thinkingCompleted := true }) := by
    rw [htype]
    show m.applyItemDone codec data = _
    unfold applyItemDone
    simp only [hitem.type, hne, hfinal, decide_true, Bool.not_false, Bool.and_self, if_true]
    simp [hid]
  rw [he]
  exact ⟨rfl, hm.item hid _⟩

/-! Without an id, the item is passed over where it begins and where it is done. -/

theorem applyEvent_added_unnamed (h : ItemAdded "" (.sse event data)) :
    m.applyEvent codec event.type data = (m, {}) := by
  obtain ⟨htype, hitem⟩ := h
  rw [htype]
  show (m.addItem (data.value "item").toObject, ({} : MessageEffects)) = _
  unfold addItem
  rw [hitem.type, hitem.id]
  rfl

theorem applyEvent_delta_unnamed {fragment : String}
    (h : ReasoningDelta "" fragment (.sse event data)) :
    m.applyEvent codec event.type data = (m.handleReasoningDelta "" fragment, {}) := by
  obtain ⟨htype, hid, rfl⟩ := h
  rw [htype]
  show (m.handleReasoningDelta (data.value "item_id").toString _, ({} : MessageEffects)) = _
  rw [hid]

theorem applyEvent_done_unnamed {item : JsonObject} (hitem : ReasoningItem "" item)
    (h : ItemDone "" item (.sse event data)) : m.applyEvent codec event.type data = (m, {}) := by
  obtain ⟨htype, rfl, hitemId⟩ := h
  have hid : (data.value "item_id").toString = "" := hitemId.elim id id
  have hne : (data.value "item").toObject.isEmpty = false := hitem.isEmpty
  rw [htype]
  show m.applyItemDone codec data = _
  unfold applyItemDone applyReasoningItem
  simp only [hitem.type, hitem.id, hne, hid, decide_true, Bool.not_false, Bool.and_self, if_true]
  rfl

end Events

/-- The message of a request whose turn is streamed, whatever was received before. -/
inductive Received (codec : JsonCodec) : Option OpenAIResponsesMessage → Prop
  | nothing : Received codec none
  | event {message : Option OpenAIResponsesMessage} (before : Received codec message)
      (eventType : String) (data : JsonObject) :
      Received codec (some ((ensure message).applyEvent codec eventType data).1)
  | announced {m : OpenAIResponsesMessage} (before : Received codec (some m)) :
      Received codec (some { m with toBaseMessage := m.takePendingThinkingNotifications.2 })

/-- Only blocks there are have been announced. -/
theorem Received.lt_of_notified {codec : JsonCodec} {message : Option OpenAIResponsesMessage}
    (h : Received codec message) : ∀ i ∈ (ensure message).notifiedThinking,
      i < (ensure message).currentBlocks.length := by
  suffices hall : ∀ m, message = some m → ∀ i ∈ m.notifiedThinking, i < m.currentBlocks.length by
    cases message with
    | none => exact fun i hi => absurd hi List.not_mem_nil
    | some m =>
        unfold ensure ensureMessage
        dsimp only
        split
        · exact fun i hi => absurd hi List.not_mem_nil
        · exact hall m rfl
  induction h with
  | nothing => exact fun _ hm => by cases hm
  | @event message before eventType data ih =>
      intro _ hm i hi
      obtain rfl := Option.some.inj hm
      have hextends := OpenAIResponsesMessage.extends_applyEvent codec (ensure message) eventType data
      rw [hextends.notified] at hi
      refine Nat.lt_of_lt_of_le ?_ hextends.length
      cases message with
      | none => exact absurd hi List.not_mem_nil
      | some m =>
          unfold ensure ensureMessage at hi ⊢
          dsimp only at hi ⊢
          split at hi
          · exact absurd hi List.not_mem_nil
          · rename_i hstate
            rw [if_neg hstate]
            exact ih m rfl i hi
  | @announced m before ih =>
      intro _ hm i hi
      obtain rfl := Option.some.inj hm
      rcases (NamedMessage.mem_notified_take m.toBaseMessage i).mp hi with hi | hi
      · exact ih m rfl i hi
      · unfold NamedMessage.announces at hi
        split at hi
        · cases hi
        · show i < m.currentBlocks.length
          by_contra hge
          rw [List.getElem?_eq_none (Nat.le_of_not_lt hge)] at hi
          cases hi

end OpenAIResponsesClient

/-! ### The thinking the caller gets -/

section Delivery

variable {codec : JsonCodec} {reasoning : ReasoningPersistence}
  {definitions : ToolsManager → List JsonValue}

open OpenAIResponsesClient OpenAIResponsesMessage

/-- The view of a request in the middle of an item: `n` is the block of the item, and `thinking`
what it comes to. -/
inductive Reasons (itemId : String) (item : JsonObject) (n : Nat) (thinking : String)
    (v : RequestView (openAIResponses codec reasoning definitions).provider) :
    List StreamEvent → Prop
  | start {fragments : List String} {events : List StreamEvent}
      (stream : ReasoningStream itemId item fragments events)
      (state : (OpenAIResponsesClient.ensure v.message).state ≠ .requiresToolExecution)
      (index : (OpenAIResponsesClient.ensure v.message).currentBlocks.length = n)
      (text : String.join fragments ++ closingText item = thinking) :
      Reasons itemId item n thinking v events
  | inside {m : OpenAIResponsesMessage} {c : ThinkingContent} {fragments : List String}
      {deltas : List StreamEvent} {done : StreamEvent} (message : v.message = some m)
      (block : HasReasoning itemId n c m)
      (rest : List.Forall₂ (ReasoningDelta itemId) fragments deltas)
      (whole : ItemDone itemId item done)
      (text : c.thinking ++ (String.join fragments ++ closingText item) = thinking) :
      Reasons itemId item n thinking v (deltas ++ [done])
  | finished {m : OpenAIResponsesMessage} {c : ThinkingContent} (message : v.message = some m)
      (block : HasReasoning itemId n c m) (text : c.thinking = thinking) :
      Reasons itemId item n thinking v []

theorem hasReasoning_apply {itemId : String} {n : Nat} {c : ThinkingContent}
    {message : OpenAIResponsesMessage} (h : HasReasoning itemId n c message)
    (v : RequestView (openAIResponses codec reasoning definitions).provider)
    (effects : MessageEffects) :
    ∃ m, (v.apply message effects).message = some m ∧ HasReasoning itemId n c m :=
  RequestView.message_apply (P := (openAIResponses codec reasoning definitions).provider)
    (p := HasReasoning itemId n c) h ⟨h.index, h.block, h.state⟩ v effects

/-- Each event of the item is read. -/
theorem Reasons.step {itemId : String} (hid : itemId ≠ "") {item : JsonObject}
    (hitem : ReasoningItem itemId item) {n : Nat} {thinking : String}
    {v : RequestView (openAIResponses codec reasoning definitions).provider} {event : StreamEvent}
    {rest : List StreamEvent} (h : Reasons itemId item n thinking v (event :: rest)) :
    ∃ message effects,
      (openAIResponses codec reasoning definitions).provider.processEvent v.message event =
        .applied message effects ∧
      effects.error = none ∧ effects.toolsReady = false ∧
      Reasons itemId item n thinking (v.apply message effects) rest := by
  generalize he : event :: rest = all at h
  cases h with
  | finished => cases he
  | start stream state index text =>
      obtain ⟨added, htext, whole⟩ := stream
      obtain ⟨rfl, rfl⟩ := List.cons.inj he
      cases event with
      | line data => exact added.elim
      | sse event data =>
          obtain ⟨heffects, c, hempty, hblock⟩ := applyEvent_added codec state hid added
          obtain ⟨m, hm, hblock⟩ := hasReasoning_apply hblock v
            ((OpenAIResponsesClient.ensure v.message).applyEvent codec event.type data).2
          refine ⟨_, _, rfl, by rw [heffects], by rw [heffects], ?_⟩
          rw [index] at hblock
          exact .inside hm hblock htext whole (by rw [hempty, String.empty_append, text])
  | inside message block rest whole text =>
      have hensure : OpenAIResponsesClient.ensure v.message = _ :=
        (congrArg OpenAIResponsesClient.ensure message).trans (if_neg block.state)
      cases rest with
      | nil =>
          obtain ⟨rfl, rfl⟩ := List.cons.inj he
          cases event with
          | line data => exact whole.elim
          | sse event data =>
              obtain ⟨heffects, c', htext, hblock⟩ := applyEvent_done codec block hid hitem whole
              obtain ⟨m', hm, hblock⟩ := hasReasoning_apply hblock v
                (OpenAIResponsesMessage.applyEvent codec _ event.type data).2
              refine ⟨_, _, ?_, by rw [heffects], by rw [heffects],
                .finished hm hblock (by rw [htext, ← text, String.join_nil, String.empty_append])⟩
              show received ((OpenAIResponsesClient.ensure v.message).applyEvent codec _ _) = _
              rw [hensure]
              rfl
      | cons first more =>
          obtain ⟨rfl, rfl⟩ := List.cons.inj he
          cases event with
          | line data => exact first.elim
          | sse event data =>
              obtain ⟨heffects, hblock⟩ := applyEvent_delta codec block first
              obtain ⟨m', hm, hblock⟩ := hasReasoning_apply hblock v
                (OpenAIResponsesMessage.applyEvent codec _ event.type data).2
              refine ⟨_, _, ?_, by rw [heffects], by rw [heffects],
                .inside hm hblock more whole ?_⟩
              · show received ((OpenAIResponsesClient.ensure v.message).applyEvent codec _ _) = _
                rw [hensure]
                rfl
              · rw [← text, String.join_cons, String.append_assoc, String.append_assoc]

theorem state_ensure (message : Option OpenAIResponsesMessage) :
    (OpenAIResponsesClient.ensure message).state ≠ .requiresToolExecution := by
  cases message with
  | none => exact nofun
  | some m =>
      unfold OpenAIResponsesClient.ensure ensureMessage
      dsimp only
      split
      · exact nofun
      · assumption

/-- The number of blocks the turn has before an event. -/
def blocksBefore (v : RequestView (openAIResponses codec reasoning definitions).provider) : Nat :=
  (OpenAIResponsesClient.ensure v.message).currentBlocks.length

variable {id itemId : String} {item : JsonObject}
  {v : RequestView (openAIResponses codec reasoning definitions).provider}
  {s : (openAIResponses codec reasoning definitions).State} {fragments : List String}
  {events : List StreamEvent}

/-- Whatever the deltas carry, the end of the item appends to it. -/
theorem reasoning_appended (h : BaseClient.Seen id v s) (hid : itemId ≠ "")
    (hitem : ReasoningItem itemId item) (hstream : ReasoningStream itemId item fragments events)
    (ref : Option StreamRef) :
    ∃ s' v' m c, ((openAIResponses codec reasoning definitions).dispatchEvents id ref events).run.alone
        ClientOut.returns s = some (.ok (), s') ∧
      BaseClient.Seen id v' s' ∧ v'.message = some m ∧ HasReasoning itemId (blocksBefore v) c m ∧
      c.thinking = String.join fragments ++ closingText item := by
  have hrun := BaseClient.dispatchEvents_seen
    (Reasons itemId item (blocksBefore v) (String.join fragments ++ closingText item))
    (fun v event rest hI => by
      obtain ⟨message, effects, hevent, herror, hready, hrest⟩ := hI.step hid hitem
      exact ⟨message, effects, hevent, herror, fun h => absurd h (by simp [hready]), hrest⟩)
    ref events h (.start hstream (state_ensure _) rfl rfl)
  obtain ⟨_, s', hrun, rfl, v', hseen, hI⟩ := yields_iff.mp hrun
  generalize he : ([] : List StreamEvent) = rest at hI
  cases hI with
  | finished message block text => exact ⟨s', v', _, _, hrun, hseen, message, block, text⟩
  | start stream _ _ _ =>
      obtain ⟨_, _, _⟩ := stream
      cases he
  | inside => simp at he

/-- The thinking that was announced of a request, and what its message has pending. -/
def announcements (v : RequestView (openAIResponses codec reasoning definitions).provider) :
    List PendingThinkingNotification :=
  v.emitted.thinking ++ (OpenAIResponsesClient.ensure v.message).takePendingThinkingNotifications.1

/-- The block of the item has its text, and once thinking is completed that is the one thing more
that was announced. -/
def CountedOnce (text : String)
    (v v' : RequestView (openAIResponses codec reasoning definitions).provider) : Prop :=
  ∃ (m : OpenAIResponsesMessage) (c : ThinkingContent), v'.message = some m ∧
    m.currentBlocks[blocksBefore v]? = some (.thinking c) ∧ c.thinking = text ∧
    v'.announce.emitted.thinking = announcements v ++ [⟨text, c.signature⟩]

/-- An item with an id is never counted once: its block ends in its text, or in the placeholder,
a second time. -/
theorem not_countedOnce {v v' : RequestView (openAIResponses codec reasoning definitions).provider}
    {m : OpenAIResponsesMessage} {c : ThinkingContent} (hm : v'.message = some m)
    (hblock : m.currentBlocks[blocksBefore v]? = some (.thinking c))
    (hc : c.thinking = reasoningTextOf item ++ closingText item) :
    ¬CountedOnce (reasoningTextOf item) v v' := by
  rintro ⟨m', c', hm', hblock', hc', -⟩
  obtain rfl := Option.some.inj (hm.symm.trans hm')
  have hsame : c = c' := TurnContent.thinking.inj (Option.some.inj (hblock.symm.trans hblock'))
  have hempty : closingText item = "" := by
    rw [← hsame, hc] at hc'
    simpa using hc'
  unfold closingText at hempty
  split at hempty
  · exact absurd hempty (by decide)
  · exact ‹¬_› (by simpa using hempty)

/-! ### The thinking of an item without an id -/

/-- The view of a request in the middle of an item without an id: `final` is the message its
deltas come to. -/
inductive Passes (item : JsonObject)
    (v : RequestView (openAIResponses codec reasoning definitions).provider)
    (final : OpenAIResponsesMessage) :
    RequestView (openAIResponses codec reasoning definitions).provider → List StreamEvent → Prop
  | start {fragments : List String} {events : List StreamEvent}
      (stream : ReasoningStream "" item fragments events)
      (deltas : fragments.foldl (fun m => m.handleReasoningDelta "")
        (OpenAIResponsesClient.ensure v.message) = final) : Passes item v final v events
  | inside {m : OpenAIResponsesMessage} {fragments : List String} {deltas : List StreamEvent}
      {done : StreamEvent} (state : m.state ≠ .requiresToolExecution)
      (rest : List.Forall₂ (ReasoningDelta "") fragments deltas) (whole : ItemDone "" item done)
      (text : fragments.foldl (fun m => m.handleReasoningDelta "") m = final) :
      Passes item v final { v with message := some m } (deltas ++ [done])
  | finished (state : final.state ≠ .requiresToolExecution) :
      Passes item v final { v with message := some final } []

theorem ensure_some {m : OpenAIResponsesMessage} (h : m.state ≠ .requiresToolExecution) :
    OpenAIResponsesClient.ensure (some m) = m :=
  if_neg h

/-- Each event of the item is read. -/
theorem Passes.step {item : JsonObject} (hitem : ReasoningItem "" item)
    {v v₁ : RequestView (openAIResponses codec reasoning definitions).provider}
    {final : OpenAIResponsesMessage} {event : StreamEvent} {rest : List StreamEvent}
    (h : Passes item v final v₁ (event :: rest)) :
    ∃ message, (openAIResponses codec reasoning definitions).provider.processEvent v₁.message event =
        .applied message {} ∧
      Passes item v final { v₁ with message := some message } rest := by
  generalize he : event :: rest = all at h
  cases h with
  | finished => cases he
  | start stream deltas =>
      obtain ⟨added, htext, whole⟩ := stream
      obtain ⟨rfl, rfl⟩ := List.cons.inj he
      cases event with
      | line data => exact added.elim
      | sse event data =>
          refine ⟨OpenAIResponsesClient.ensure v.message, ?_,
            .inside (state_ensure _) htext whole deltas⟩
          exact congrArg received (applyEvent_added_unnamed codec added)
  | @inside m fragments deltas done state text whole hfinal =>
      cases text with
      | nil =>
          obtain ⟨rfl, rfl⟩ := List.cons.inj he
          cases event with
          | line data => exact whole.elim
          | sse event data =>
              obtain rfl : m = final := hfinal
              refine ⟨m, ?_, .finished state⟩
              show received ((OpenAIResponsesClient.ensure (some m)).applyEvent codec _ _) = _
              rw [ensure_some state, applyEvent_done_unnamed codec hitem whole]
              rfl
      | @cons fragment _ fragments deltas first more =>
          obtain ⟨rfl, rfl⟩ := List.cons.inj he
          cases event with
          | line data => exact first.elim
          | sse event data =>
              have hstate := state_handleReasoningDelta m "" fragment
              refine ⟨m.handleReasoningDelta "" fragment, ?_,
                .inside (fun h => state (hstate.symm.trans h)) more whole hfinal⟩
              show received ((OpenAIResponsesClient.ensure (some m)).applyEvent codec _ _) = _
              rw [ensure_some state, applyEvent_delta_unnamed codec first]
              rfl

/-- The deltas of an item without an id are all that changes the message, and nothing is announced
yet. -/
theorem reasoning_unnamed (h : BaseClient.Seen id v s) (hitem : ReasoningItem "" item)
    (hstream : ReasoningStream "" item fragments events) (ref : Option StreamRef) :
    ∃ s' final, ((openAIResponses codec reasoning definitions).dispatchEvents id ref
        events).run.alone ClientOut.returns s = some (.ok (), s') ∧
      BaseClient.Seen id { v with message := some final } s' ∧
      final = fragments.foldl (fun m => m.handleReasoningDelta "")
        (OpenAIResponsesClient.ensure v.message) := by
  have hrun := BaseClient.dispatchEvents_seen
    (Passes item v (fragments.foldl (fun m => m.handleReasoningDelta "")
      (OpenAIResponsesClient.ensure v.message)))
    (fun v₁ event rest hI => by
      obtain ⟨message, hevent, hrest⟩ := hI.step hitem
      exact ⟨message, {}, hevent, rfl, fun h => absurd h Bool.false_ne_true, hrest⟩)
    ref events h (.start hstream rfl)
  obtain ⟨_, s', hrun, rfl, v', hseen, hI⟩ := yields_iff.mp hrun
  generalize he : ([] : List StreamEvent) = rest at hI
  cases hI with
  | finished _ => exact ⟨s', _, hrun, hseen, rfl⟩
  | start stream _ =>
      obtain ⟨_, _, _⟩ := stream
      cases he
  | inside => simp at he

/-- A new block at the end is what is announced last, unless it is blank. -/
theorem takePending_append {m m' : OpenAIResponsesMessage} {c : ThinkingContent}
    (hlt : ∀ i ∈ m.notifiedThinking, i < m.currentBlocks.length)
    (hnotified : m'.notifiedThinking = m.notifiedThinking)
    (hblocks : m'.currentBlocks = m.currentBlocks ++ [.thinking c]) :
    m'.takePendingThinkingNotifications.1 = m.takePendingThinkingNotifications.1 ++
      if (Text.trimmed c.thinking).isEmpty then [] else [⟨c.thinking, c.signature⟩] := by
  have hold : ∀ i ∈ List.range m.currentBlocks.length,
      NamedMessage.announces m'.toBaseMessage i = NamedMessage.announces m.toBaseMessage i := by
    intro i hi
    unfold NamedMessage.announces
    rw [hnotified, hblocks, List.getElem?_append_left (List.mem_range.mp hi)]
  have hnew : NamedMessage.announces m'.toBaseMessage m.currentBlocks.length =
      BaseMessage.pendingOf (.thinking c) := by
    unfold NamedMessage.announces
    rw [hnotified, if_neg fun h => lt_irrefl _ (hlt _ h), hblocks]
    simp
  rw [NamedMessage.takePending_announces, NamedMessage.takePending_announces, hblocks,
    List.length_append, List.length_singleton, List.range_succ, List.filterMap_append,
    List.filterMap_congr hold]
  congr 1
  simp only [List.filterMap_cons, List.filterMap_nil, hnew, BaseMessage.pendingOf]
  by_cases hblank : (Text.trimmed c.thinking).isEmpty
  · simp [hblank]
  · simp [hblank]

/-- The text of an item without an id is counted once just where it is not blank and the message
has no block filed under no id. -/
theorem countedOnce_unnamed
    {v : RequestView (openAIResponses codec reasoning definitions).provider}
    (hreceived : Received codec v.message) (text : String)
    (hjoin : String.join fragments = text) {final : OpenAIResponsesMessage}
    (hfinal : final = fragments.foldl (fun m => m.handleReasoningDelta "")
      (OpenAIResponsesClient.ensure v.message)) :
    CountedOnce text v { v with message := some final } ↔
      (Text.trimmed text).isEmpty = false ∧
        "" ∉ (OpenAIResponsesClient.ensure v.message).thinkingBlocks := by
  have hcount (n : Nat) (hlength : final.currentBlocks.length = n) (hn : n = blocksBefore v) :
      ¬CountedOnce text v { v with message := some final } := by
    rintro ⟨m, c, hm, hblock, -⟩
    obtain rfl := Option.some.inj hm
    have hlt := (List.getElem?_eq_some_iff.mp hblock).1
    exact absurd hlt (by rw [hlength, hn]; exact lt_irrefl _)
  by_cases hfiled : "" ∈ (OpenAIResponsesClient.ensure v.message).thinkingBlocks
  · refine iff_of_false (hcount _ ?_ rfl) fun h => h.2 hfiled
    rw [hfinal]
    exact length_deltas_filed hfiled fragments
  by_cases htext : text = ""
  · refine iff_of_false (hcount _ ?_ rfl) fun h => absurd h.1 (by rw [htext]; decide)
    rw [hfinal, deltas_empty fragments (hjoin.trans htext)]
    rfl
  · have hlast := deltas_unnamed hfiled fragments (by rwa [hjoin])
    rw [← hfinal, hjoin] at hlast
    have hnotified : final.notifiedThinking =
        (OpenAIResponsesClient.ensure v.message).notifiedThinking := by
      rw [hfinal]
      exact (extends_deltas _ "" fragments).notified
    have htold : ({ v with message := some final } : RequestView
          (openAIResponses codec reasoning definitions).provider).announce.emitted.thinking =
        announcements v ++ if (Text.trimmed text).isEmpty then [] else [⟨text, ""⟩] := by
      show v.emitted.thinking ++ final.takePendingThinkingNotifications.1 = _
      rw [takePending_append hreceived.lt_of_notified hnotified hlast.blocks, announcements,
        List.append_assoc]
    constructor
    · rintro ⟨m, c, -, -, -, hone⟩
      refine ⟨?_, hfiled⟩
      by_contra hblank
      rw [htold, if_pos (by simpa using hblank)] at hone
      simpa using List.append_cancel_left hone
    · rintro ⟨hblank, -⟩
      refine ⟨final, { thinking := text }, rfl, ?_, rfl, ?_⟩
      · rw [hlast.blocks]
        simp [blocksBefore]
      · rw [htold, hblank]
        rfl

/-- An item whose deltas carry its text is counted once just where it has no id, its text is not
blank, and no earlier item of the turn without an id had text. -/
theorem reasoning_once_iff (h : BaseClient.Seen id v s) (hreceived : Received codec v.message)
    (hitem : ReasoningItem itemId item) (hstream : ReasoningStream itemId item fragments events)
    (htext : String.join fragments = reasoningTextOf item) (ref : Option StreamRef) :
    ∃ s' v', ((openAIResponses codec reasoning definitions).dispatchEvents id ref events).run.alone
        ClientOut.returns s = some (.ok (), s') ∧ BaseClient.Seen id v' s' ∧
      (CountedOnce (reasoningTextOf item) v v' ↔
        itemId = "" ∧ (Text.trimmed (reasoningTextOf item)).isEmpty = false ∧
          "" ∉ (OpenAIResponsesClient.ensure v.message).thinkingBlocks) ∧
      (itemId ≠ "" → ∃ (m : OpenAIResponsesMessage) (c : ThinkingContent), v'.message = some m ∧
        m.currentBlocks[blocksBefore v]? = some (.thinking c) ∧
        c.thinking = reasoningTextOf item ++ closingText item) := by
  by_cases hid : itemId = ""
  · subst hid
    obtain ⟨s', final, hrun, hseen, hfinal⟩ := reasoning_unnamed h hitem hstream ref
    refine ⟨s', _, hrun, hseen, ?_, fun hid => absurd rfl hid⟩
    rw [countedOnce_unnamed hreceived _ htext hfinal, and_iff_right rfl]
  · obtain ⟨s', v', m, c, hrun, hseen, hm, hblock, hc⟩ :=
      reasoning_appended h hid hitem hstream ref
    rw [htext] at hc
    refine ⟨s', v', hrun, hseen, ?_, fun _ => ⟨m, c, hm, hblock.block, hc⟩⟩
    exact iff_of_false (not_countedOnce hm hblock.block hc) fun h => hid h.1

end Delivery

/-- An item with one text of a summary. -/
def summaryItem (itemId text : String) : JsonObject :=
  .ofFields
    [("type", .str "reasoning"), ("id", .str itemId),
      ("summary", .arr [.obj (JsonObject.ofFields
        [("type", .str "summary_text"), ("text", .str text)])])]

/-- The events of an item whose text comes in two fragments. -/
def summaryEvents (itemId first second : String) : List StreamEvent :=
  let delta (fragment : String) : StreamEvent :=
    .sse { type := "response.reasoning_content.delta" }
      (.ofFields [("item_id", .str itemId), ("delta", .str fragment)])
  .sse { type := "response.output_item.added" }
    (.ofFields [("item", .obj (summaryItem itemId ""))]) ::
  ([delta first, delta second] ++ [.sse { type := "response.output_item.done" }
    (.ofFields [("item", .obj (summaryItem itemId (first ++ second)))])])

theorem reasoningItem_summaryItem (itemId text : String) :
    OpenAIResponsesClient.ReasoningItem itemId (summaryItem itemId text) := by
  constructor <;> simp [summaryItem, JsonObject.ofFields, JsonObject.value_insert]

theorem reasoningTextOf_summaryItem (itemId text : String) :
    OpenAIResponsesMessage.reasoningTextOf (summaryItem itemId text) = text := by
  simp [OpenAIResponsesMessage.reasoningTextOf, summaryItem, JsonObject.ofFields,
    JsonObject.value_insert, OpenAIResponsesMessage.textOfType]

theorem reasoningStream_summary (itemId first second : String) :
    OpenAIResponsesClient.ReasoningStream itemId (summaryItem itemId (first ++ second))
      [first, second] (summaryEvents itemId first second) := by
  refine .events ?_ (.cons ?_ (.cons ?_ .nil)) ?_
  · exact ⟨rfl, by simpa [JsonObject.ofFields] using reasoningItem_summaryItem itemId ""⟩
  · exact ⟨rfl, by simp [JsonObject.ofFields, JsonObject.value_insert],
      by simp [JsonObject.ofFields, JsonObject.value_insert]⟩
  · exact ⟨rfl, by simp [JsonObject.ofFields, JsonObject.value_insert],
      by simp [JsonObject.ofFields, JsonObject.value_insert]⟩
  · exact ⟨rfl, by simp [JsonObject.ofFields],
      .inl (by simp [JsonObject.ofFields, JsonObject.value_insert])⟩

/-- The client in the examples. -/
def reasoningClient : BaseClient := openAIResponses responseCodec .off fun _ => []

/-- `"ab"` in two fragments, of an item without an id. -/
theorem reasoning_once_unnamed : ∃ s' v',
    (reasoningClient.dispatchEvents "r" none (summaryEvents "" "a" "b")).run.alone
      ClientOut.returns (BaseClient.askedState _) = some (.ok (), s') ∧
    BaseClient.Seen "r" v' s' ∧ CountedOnce "ab" ⟨none, "", "", none, {}⟩ v' := by
  obtain ⟨s', v', hrun, hseen, hiff, -⟩ :=
    @reasoning_once_iff responseCodec .off (fun _ => []) "r" "" _ _ _ _ _
      (BaseClient.seen_askedState _) .nothing (reasoningItem_summaryItem "" ("a" ++ "b"))
      (reasoningStream_summary "" "a" "b") (by rw [reasoningTextOf_summaryItem]; rfl) none
  rw [reasoningTextOf_summaryItem] at hiff
  exact ⟨s', v', hrun, hseen, hiff.mpr ⟨rfl, by decide, by decide⟩⟩

/-- The block of that item comes to `"abab"`. -/
theorem reasoning_doubled : ∃ s' v',
    (reasoningClient.dispatchEvents "r" none (summaryEvents "rs" "a" "b")).run.alone
      ClientOut.returns (BaseClient.askedState _) = some (.ok (), s') ∧
    BaseClient.Seen "r" v' s' ∧ ∃ (m : OpenAIResponsesMessage) (c : ThinkingContent),
      v'.message = some m ∧ m.currentBlocks[0]? = some (.thinking c) ∧ c.thinking = "abab" ∧
      ¬CountedOnce "ab" ⟨none, "", "", none, {}⟩ v' := by
  obtain ⟨s', v', m, c, hrun, hseen, hm, hblock, hc⟩ :=
    @reasoning_appended responseCodec .off (fun _ => []) "r" "rs" _ _ _ _ _
      (BaseClient.seen_askedState _) (by decide) (reasoningItem_summaryItem "rs" ("a" ++ "b"))
      (reasoningStream_summary "rs" "a" "b") none
  have htext : c.thinking = "abab" := by
    rw [hc, OpenAIResponsesMessage.closingText, reasoningTextOf_summaryItem]
    decide
  refine ⟨s', v', hrun, hseen, m, c, hm, hblock.block, htext, ?_⟩
  rintro ⟨m', c', hm', hblock', hc', -⟩
  obtain rfl := Option.some.inj (hm.symm.trans hm')
  have hsame : c = c' := TurnContent.thinking.inj (Option.some.inj (hblock.block.symm.trans hblock'))
  rw [← hsame, htext] at hc'
  exact absurd hc' (by decide)

end LLMQore
