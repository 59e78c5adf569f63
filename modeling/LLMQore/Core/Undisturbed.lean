import LLMQore.Core.BaseClient
import LLMQore.Reentrant.Alone

/-!
# LLMQore.Core.Undisturbed

What the client makes of a response while nobody enters it.

The slots of its signals return without a call of the client, so a visit does just what its code
does when it runs alone. `Seen` tells what there is to see of a request under way: its message, the
text of its earlier rounds and of the current one, and what was emitted for it. There is a lemma for
each step from the effects of an event to `requestCompleted` (`completes`).
-/

namespace LLMQore

open Reentrant Network Tools

theorem join_eq_empty_iff {texts : List String} :
    String.join texts = "" ↔ ∀ t ∈ texts, t = "" := by
  induction texts with
  | nil => simp
  | cons first rest ih => rw [String.join_cons, String.append_eq_empty_iff, ih, List.forall_mem_cons]

/-! ### Messages without tools -/

/-- The message calls no tool, and waits for none. -/
structure BaseMessage.Toolless (m : BaseMessage) : Prop where
  uses : m.currentToolUseContent = []
  state : m.state ≠ .requiresToolExecution

namespace BaseMessage.Toolless

variable {m : BaseMessage}

theorem fresh : ({} : BaseMessage).Toolless := ⟨rfl, nofun⟩

theorem changeBlock (h : m.Toolless) (index : Nat) {f : TurnContent → TurnContent}
    (hf : TurnContent.KeepsToolUse f) : (m.changeBlock index f).Toolless := by
  refine ⟨?_, h.state⟩
  by_contra hne
  obtain ⟨block, hmem, hsome⟩ := toolUses_ne_nil_iff.mp hne
  obtain ⟨i, hi⟩ := List.mem_iff_getElem?.mp hmem
  unfold BaseMessage.changeBlock at hi
  rw [List.getElem?_modify] at hi
  obtain ⟨old, hold, rfl⟩ := Option.map_eq_some_iff.mp hi
  have holduse : old.toolUse?.isSome := by
    split at hsome
    · rwa [hf] at hsome
    · exact hsome
  exact toolUses_ne_nil_iff.mpr ⟨old, List.mem_of_getElem? hold, holduse⟩ h.uses

theorem addCurrentContent (h : m.Toolless) {content : TurnContent}
    (hcontent : content.toolUse? = none) : (m.addCurrentContent content).2.Toolless := by
  refine ⟨?_, h.state⟩
  have huses : toolUses m.currentBlocks = [] := h.uses
  show toolUses (m.currentBlocks ++ [content]) = []
  rw [toolUses_append, huses]
  simp [toolUses, hcontent]

theorem setText (h : m.Toolless) (f : String → String) : (m.setText f).Toolless := by
  have hbase : m.ensureTextContentIndex.2.Toolless := by
    unfold ensureTextContentIndex
    split
    · exact h
    · exact h.addCurrentContent rfl
  exact hbase.changeBlock _ (TurnContent.keepsToolUse_onText _)

theorem appendThinkingDelta (h : m.Toolless) (delta : String) :
    (m.appendThinkingDelta delta).Toolless := by
  have hbase : m.ensureThinkingContentIndex.2.Toolless := by
    unfold ensureThinkingContentIndex
    split
    · exact h
    · split
      · exact ⟨h.uses, h.state⟩
      · have hadded : (m.addCurrentContent (.thinking {})).2.Toolless := h.addCurrentContent rfl
        exact ⟨hadded.uses, hadded.state⟩
  exact hbase.changeBlock _ (TurnContent.keepsToolUse_onThinking _)

theorem mem_keepBlocks {predicate : TurnContent → Bool} {block : Nat × TurnContent} :
    ∀ {blocks : List TurnContent} {i : Nat}, block ∈ keepBlocks predicate i blocks →
      block.2 ∈ blocks := by
  intro blocks
  induction blocks with
  | nil => exact nofun
  | cons first rest ih =>
      intro i h
      unfold keepBlocks at h
      split at h
      · exact List.mem_cons_of_mem _ (ih h)
      · rcases List.mem_cons.mp h with rfl | h
        · exact List.mem_cons_self
        · exact List.mem_cons_of_mem _ (ih h)

theorem removeBlocksIf (h : m.Toolless) (predicate : TurnContent → Bool) :
    (m.removeBlocksIf predicate).Toolless := by
  refine ⟨?_, h.state⟩
  by_contra hne
  obtain ⟨block, hmem, hsome⟩ := toolUses_ne_nil_iff.mp hne
  obtain ⟨kept, hkept, rfl⟩ := List.mem_map.mp hmem
  exact toolUses_ne_nil_iff.mpr ⟨kept.2, mem_keepBlocks hkept, hsome⟩ h.uses

theorem completeToolCall {Key : Type} [DecidableEq Key] (h : m.Toolless) (codec : JsonCodec)
    (a : ToolCallAccumulator Key) (key : Key) (finalArguments : String) :
    (a.complete codec m key finalArguments).2.Toolless := by
  unfold ToolCallAccumulator.complete
  split
  · exact h
  · dsimp only
    generalize (if finalArguments.isEmpty then _ else finalArguments) = json
    split
    · exact h
    · split
      · exact h
      · exact h.changeBlock _ (TurnContent.keepsToolUse_onToolUse _)

/-- No stop reason makes it wait for tools. -/
theorem recordStopReason (h : m.Toolless) (reason : String) {map : StopReasonMap}
    (hmap : map.fallback ≠ .requiresToolExecution) : (m.recordStopReason reason map).Toolless := by
  refine ⟨h.uses, fun hs => ?_⟩
  exact uses_of_recordStopReason m reason hmap hs h.uses

theorem takePending (h : m.Toolless) : m.takePendingThinkingNotifications.2.Toolless :=
  ⟨h.uses, h.state⟩

end BaseMessage.Toolless

/-! ### What there is to see -/

/-- Where nothing goes wrong in its surroundings, the client gets these answers. -/
def ClientOut.returns : (e : ClientOut) → Option e.Ans
  | .emit _ | .tools _ | .send .. => some ()
  | .gate _ | .executeAsync .. => some (.ok ())
  | .openStream .. => some true
  | .terminate => none

/-- What a caller was told of a request, oldest first. -/
structure Emitted where
  chunks : List String := []
  thinking : List PendingThinkingNotification := []
  finalized : List CompletionInfo := []
  completed : List String := []

/-- One observation more. -/
def Emitted.add (id : String) (e : Emitted) : ClientObservation → Emitted
  | .emitted (.chunkReceived id' chunk) =>
      if id' = id then { e with chunks := e.chunks ++ [chunk] } else e
  | .emitted (.thinkingBlockReceived id' thinking signature) =>
      if id' = id then { e with thinking := e.thinking ++ [⟨thinking, signature⟩] } else e
  | .emitted (.requestFinalized id' info) =>
      if id' = id then { e with finalized := e.finalized ++ [info] } else e
  | .emitted (.requestCompleted id' fullText) =>
      if id' = id then { e with completed := e.completed ++ [fullText] } else e
  | _ => e

/-- What the caller of a request was told. -/
def emittedFor (id : String) : List ClientObservation → Emitted
  | [] => {}
  | o :: earlier => (emittedFor id earlier).add id o

/-- The text of a round after the text effects of an event. -/
def MessageEffects.replaced (effects : MessageEffects) (text : String) : String :=
  if !effects.fullText.isEmpty then effects.fullText
  else if !effects.fallbackText.isEmpty && text = "" then effects.fallbackText
  else text

/-- What there is to see of a request under way. -/
structure RequestView (P : ProviderClient) where
  message : Option P.Msg
  /-- The text of the earlier rounds. -/
  closed : String
  /-- The text of the current round. -/
  text : String
  /-- The conversation up to this turn, if it is tracked. -/
  conversation : Option Conversation
  emitted : Emitted

namespace RequestView

variable {P : ProviderClient}

def setText (v : RequestView P) (text : String) : RequestView P := { v with text }

def addChunk (v : RequestView P) (chunk : String) : RequestView P :=
  { v with
    text := v.text ++ chunk
    emitted := { v.emitted with chunks := v.emitted.chunks ++ [chunk] } }

/-- The thinking blocks of the message are announced. -/
def announce (v : RequestView P) : RequestView P :=
  match v.message with
  | none => v
  | some m =>
      let taken := (P.base m).takePendingThinkingNotifications
      { v with
        message := some (P.withBase m taken.2)
        emitted := { v.emitted with thinking := v.emitted.thinking ++ taken.1 } }

/-- What `applyEffects` makes of the request, up to its usage. -/
def take (v : RequestView P) (effects : MessageEffects) : RequestView P :=
  let v := v.setText (effects.replaced v.text)
  let v := if effects.thinkingCompleted then v.announce else v
  if effects.chunk.isEmpty then v else v.addChunk effects.chunk

/-- The message after an event, and what its effects make of the request. -/
def apply (v : RequestView P) (message : P.Msg) (effects : MessageEffects) : RequestView P :=
  ({ v with message := some message } : RequestView P).take effects

@[simp] theorem text_announce (v : RequestView P) : v.announce.text = v.text := by
  unfold announce
  split <;> rfl

@[simp] theorem closed_announce (v : RequestView P) : v.announce.closed = v.closed := by
  unfold announce
  split <;> rfl

@[simp] theorem chunks_announce (v : RequestView P) :
    v.announce.emitted.chunks = v.emitted.chunks := by
  unfold announce
  split <;> rfl

@[simp] theorem completed_announce (v : RequestView P) :
    v.announce.emitted.completed = v.emitted.completed := by
  unfold announce
  split <;> rfl

theorem closed_take (v : RequestView P) (effects : MessageEffects) :
    (v.take effects).closed = v.closed := by
  unfold take
  dsimp only
  split <;> split <;> simp [setText, addChunk]

theorem completed_take (v : RequestView P) (effects : MessageEffects) :
    (v.take effects).emitted.completed = v.emitted.completed := by
  unfold take
  dsimp only
  split <;> split <;> simp [setText, addChunk]

theorem text_take (v : RequestView P) (effects : MessageEffects) :
    (v.take effects).text = effects.replaced v.text ++ effects.chunk := by
  unfold take
  dsimp only
  split <;> split <;> simp_all [setText, addChunk]

/-- The message after an event is the one the provider has made of it, perhaps with its thinking
blocks announced; what holds of both holds of it. -/
theorem message_apply {p : P.Msg → Prop} {message : P.Msg} (h : p message)
    (hp : p (P.withBase message (P.base message).takePendingThinkingNotifications.2))
    (v : RequestView P) (effects : MessageEffects) :
    ∃ m, (v.apply message effects).message = some m ∧ p m := by
  unfold apply take announce
  dsimp only
  split <;> split
  all_goals first
    | exact ⟨_, rfl, h⟩
    | exact ⟨_, rfl, hp⟩

/-- The chunks of a request make up one text. -/
theorem chunks_take (v : RequestView P) (effects : MessageEffects) :
    String.join (v.take effects).emitted.chunks =
      String.join v.emitted.chunks ++ effects.chunk := by
  unfold take
  dsimp only
  split <;> split <;> simp_all [setText, addChunk, String.join_append]

section Apply

variable (v : RequestView P) (message : P.Msg) (effects : MessageEffects)

theorem closed_apply : (v.apply message effects).closed = v.closed := closed_take _ effects

theorem completed_apply :
    (v.apply message effects).emitted.completed = v.emitted.completed :=
  completed_take _ effects

theorem text_apply :
    (v.apply message effects).text = effects.replaced v.text ++ effects.chunk :=
  text_take _ effects

theorem chunks_apply : String.join (v.apply message effects).emitted.chunks =
    String.join v.emitted.chunks ++ effects.chunk :=
  chunks_take _ effects

end Apply

end RequestView

namespace BaseClient

variable {B : BaseClient}

/-- What a request shows; its framer holds nothing back. -/
structure Shows (v : RequestView B.provider) (r : ActiveRequest B.provider) : Prop where
  message : r.message = v.message
  content : r.responseContent = v.closed ++ v.text
  offset : r.roundTextOffset = v.closed.length
  conversation : v.conversation = if r.tracksConversation then some r.conversation else none
  drained : (r.framer.flush B.codec).2 = []

/-- What there is to see of the request `id`. -/
structure Seen (id : String) (v : RequestView B.provider) (s : B.State) : Prop where
  request : ∃ r, s.requests.lookup id = some r ∧ Shows v r
  emitted : emittedFor id s.history = v.emitted

section Updates

variable {id : String} {v : RequestView B.provider} {s : B.State}

/-- The request changes, and nothing is emitted. -/
theorem Seen.update {v' : RequestView B.provider} (h : Seen id v s)
    {f : ActiveRequest B.provider → ActiveRequest B.provider}
    (hf : ∀ r, Shows v r → Shows v' (f r)) (hemitted : v'.emitted = v.emitted) :
    Seen id v' (s.update id f) := by
  obtain ⟨r, hl, hr⟩ := h.request
  refine ⟨⟨f r, ?_, hf r hr⟩, ?_⟩
  · rw [ClientState.lookup_update, hl]
    rfl
  · rw [ClientState.update_eq, hemitted]
    exact h.emitted

/-- A framer that was flushed holds nothing back. -/
theorem Framer.flush_flush (codec : JsonCodec) (f : Framer) :
    ((f.flush codec).1.flush codec).2 = [] := by
  cases f with
  | sse parser => rfl
  | lines framer =>
      unfold Framer.flush
      dsimp only
      by_cases h : framer.hasIncompleteData = true
      · rw [if_pos h]
        rfl
      · rw [if_neg h]
        dsimp only
        rw [if_neg h]

theorem Seen.flush (h : Seen id v s) (r : ActiveRequest B.provider) :
    Seen id v (s.update id fun r' => { r' with framer := (r.framer.flush B.codec).1 }) := by
  refine h.update (fun r' hr => ⟨hr.message, hr.content, hr.offset, hr.conversation, ?_⟩) rfl
  exact Framer.flush_flush B.codec r.framer

/-- Something is observed. -/
theorem Seen.observe (h : Seen id v s) (o : ClientObservation) :
    Seen id { v with emitted := v.emitted.add id o } (s.observe o) :=
  ⟨h.request.imp fun _ hr => ⟨hr.1, ⟨hr.2.message, hr.2.content, hr.2.offset,
    hr.2.conversation, hr.2.drained⟩⟩,
    congrArg (·.add id o) h.emitted⟩

/-- Nothing the caller is told of is observed. -/
theorem Seen.note (h : Seen id v s) {o : ClientObservation} (ho : v.emitted.add id o = v.emitted) :
    Seen id v (s.observe o) := by
  have hseen := h.observe o
  rwa [ho] at hseen

theorem Seen.hasRequest (h : Seen id v s) : (s.requests.lookup id).isSome = true := by
  obtain ⟨r, hl, -⟩ := h.request
  rw [hl]
  rfl

theorem Seen.messageFor (h : Seen id v s) : s.messageFor id = v.message := by
  obtain ⟨r, hl, hr⟩ := h.request
  rw [ClientState.messageFor, hl]
  exact hr.message

/-- The text of the current round. -/
theorem Shows.roundText {r : ActiveRequest B.provider} (h : Shows v r) : r.roundText = v.text := by
  rw [ActiveRequest.roundText, midChars, h.content, h.offset, String.toList_append,
    ← String.length_toList, List.drop_left, String.ofList_toList]

theorem Shows.replacedText {r : ActiveRequest B.provider} (h : Shows v r) (text : String) :
    r.replacedText text = v.closed ++ text := by
  rw [ActiveRequest.replacedText, leftChars, h.content, h.offset, String.toList_append,
    ← String.length_toList, List.take_left, String.ofList_toList]

end Updates

/-! ### The steps -/

section Steps

variable {id : String} {v : RequestView B.provider} {s : B.State}

/-- After a signal the code goes on where it was. -/
theorem emit_undisturbed {signal : ClientSignal} {Q : Unit → B.State → Prop}
    (h : Q () (s.observe (.emitted signal))) : Yields ClientOut.returns (B.emit signal) Q s :=
  ⟨(), rfl, h⟩

theorem replaceRoundText_seen (h : Seen id v s) (text : String) :
    Yields ClientOut.returns (B.replaceRoundText id text) (fun _ s' => Seen id (v.setText text) s')
      s := by
  obtain ⟨r, hl, hr⟩ := h.request
  refine Yields.read ?_
  rw [hl]
  show Yields ClientOut.returns (if r.replacedText text = r.responseContent then _ else _ :
    Proc B.Sig Unit) _ s
  by_cases hsame : r.replacedText text = r.responseContent
  · rw [if_pos hsame]
    have htext : text = v.text := by
      rw [hr.replacedText, hr.content] at hsame
      exact (String.append_right_inj _).mp hsame
    rw [htext]
    exact h
  · rw [if_neg hsame]
    have hreplaced : Seen id (v.setText text)
        (s.update id fun r => { r with responseContent := r.replacedText text }) :=
      h.update (fun r hr => ⟨hr.message, hr.replacedText text, hr.offset, hr.conversation, hr.drained⟩) rfl
    exact emit_undisturbed ((hreplaced.note rfl).note rfl)

theorem addChunk_seen (h : Seen id v s) (chunk : String) :
    Yields ClientOut.returns (B.addChunk id chunk) (fun _ s' => Seen id (v.addChunk chunk) s') s := by
  obtain ⟨r, hl, hr⟩ := h.request
  have hadded : Seen id { v with text := v.text ++ chunk }
      (s.update id fun r => { r with responseContent := r.responseContent ++ chunk }) := by
    refine h.update (fun r hr => ⟨hr.message, ?_, hr.offset, hr.conversation, hr.drained⟩) rfl
    show r.responseContent ++ chunk = v.closed ++ (v.text ++ chunk)
    rw [hr.content, String.append_assoc]
  have hseen : Seen id (v.addChunk chunk)
      ((s.appendText id chunk).observe (.emitted (.chunkReceived id chunk))) := by
    have hemitted := (hadded.note (o := .wrote id (.append chunk)) rfl).observe
      (.emitted (.chunkReceived id chunk))
    simpa [Emitted.add, RequestView.addChunk, ClientState.appendText] using hemitted
  refine Yields.read ?_
  rw [hl]
  refine (yields_bind (S := B.Sig)).mpr (emit_undisturbed ?_)
  show Yields ClientOut.returns (if (ClientState.requests _).lookup id |>.isSome then _ else _ :
    Proc B.Sig Unit) _ _
  rw [if_pos hseen.hasRequest]
  exact emit_undisturbed (hseen.note rfl)

theorem applyText_seen (h : Seen id v s) (effects : MessageEffects) :
    Yields ClientOut.returns (B.applyText id effects)
      (fun _ s' => Seen id (v.setText (effects.replaced v.text)) s') s := by
  obtain ⟨r, hl, hr⟩ := h.request
  show Yields ClientOut.returns (if !effects.fullText.isEmpty then _ else if
    !effects.fallbackText.isEmpty && ((s.requests.lookup id).map (·.roundText)).getD "" = ""
      then _ else _ : Proc B.Sig Unit) _ s
  rw [hl, Option.map_some, Option.getD_some, hr.roundText]
  unfold MessageEffects.replaced
  split
  · exact replaceRoundText_seen h _
  · split
    · exact replaceRoundText_seen h _
    · exact h

theorem announceThinking_seen (notifications : List PendingThinkingNotification) :
    ∀ {v : RequestView B.provider} {s : B.State}, Seen id v s →
      Yields ClientOut.returns (B.announceThinking id notifications) (fun _ s' => Seen id
        { v with emitted := { v.emitted with
            thinking := v.emitted.thinking ++ notifications } } s') s := by
  induction notifications with
  | nil =>
      intro v s h
      rw [List.append_nil]
      exact h
  | cons notification rest ih =>
      intro v s h
      have hemitted := h.observe
        (.emitted (.thinkingBlockReceived id notification.thinking notification.signature))
      refine (yields_bind (S := B.Sig)).mpr (emit_undisturbed ?_)
      show Yields ClientOut.returns (if (ClientState.requests _).lookup id |>.isSome then _ else _ :
        Proc B.Sig Unit) _ _
      rw [if_pos hemitted.hasRequest]
      have hrest := ih hemitted
      simpa [Emitted.add] using hrest

theorem notifyPendingThinkingBlocks_seen (h : Seen id v s) :
    Yields ClientOut.returns (B.notifyPendingThinkingBlocks id) (fun _ s' => Seen id v.announce s')
      s := by
  refine Yields.read ?_
  rw [h.messageFor]
  unfold RequestView.announce
  cases hm : v.message with
  | none => exact h
  | some m =>
      have htaken : Seen id
          { v with message := some (B.provider.withBase m
            (B.provider.base m).takePendingThinkingNotifications.2) }
          (s.update id fun r => { r with message := some (B.provider.withBase m
            (B.provider.base m).takePendingThinkingNotifications.2) }) :=
        h.update (fun r hr => ⟨rfl, hr.content, hr.offset, hr.conversation, hr.drained⟩) rfl
      exact announceThinking_seen _ htaken

theorem Seen.account (h : Seen id v s) (source : Source) (delta : UsageDelta) :
    Seen id v (s.account id source delta) := by
  have hused : Seen id v (s.update id fun r => r.applyUsage delta) := by
    refine h.update (fun r hr => ?_) rfl
    unfold ActiveRequest.applyUsage
    split
    · exact hr
    · exact ⟨hr.message, hr.content, hr.offset, hr.conversation, hr.drained⟩
  obtain ⟨r, hl, -⟩ := h.request
  have heq : s.account id source delta =
      (s.update id fun r => r.applyUsage delta).observe (.accounted id source delta) := by
    rw [ClientState.account, ClientState.update, hl]
  rw [heq]
  exact hused.note rfl

/-- A message that does not wait for tools calls none. -/
theorem executeToolsFromMessage_seen (h : Seen id v s)
    (hstate : ∀ m, v.message = some m → (B.provider.base m).state ≠ .requiresToolExecution) :
    Yields ClientOut.returns (B.executeToolsFromMessage id).run
      (fun r s' => r = .ok () ∧ Seen id v s') s := by
  refine Yields.run_read ?_
  rw [h.messageFor]
  cases hm : v.message with
  | none => exact ⟨rfl, h⟩
  | some m =>
      show Yields ClientOut.returns (if (B.provider.base m).state ≠ .requiresToolExecution then _
        else _ : B.Slot).run _ s
      rw [if_pos (hstate m hm)]
      exact ⟨rfl, h⟩

/-- The effects of an event that reports no error and leads to no tools. -/
theorem applyEffects_seen (h : Seen id v s) (source : Source) {effects : MessageEffects}
    (herror : effects.error = none)
    (hstate : effects.toolsReady = true → ∀ m, (v.take effects).message = some m →
      (B.provider.base m).state ≠ .requiresToolExecution) :
    Yields ClientOut.returns (B.applyEffects id source effects).run
      (fun r s' => r = .ok () ∧ Seen id (v.take effects) s') s := by
  refine Yields.run_bind (Yields.run_lift (applyText_seen h effects)) fun s₁ h₁ => ?_
  unfold RequestView.take at hstate ⊢
  dsimp only at hstate ⊢
  generalize v.setText (effects.replaced v.text) = v₁ at h₁ hstate ⊢
  have hthinking : Yields ClientOut.returns
      (if effects.thinkingCompleted then B.notifyPendingThinkingBlocks id else pure () :
        B.Slot).run (fun r s' => r = .ok () ∧
          Seen id (if effects.thinkingCompleted then v₁.announce else v₁) s') s₁ := by
    split
    · exact Yields.run_lift (notifyPendingThinkingBlocks_seen h₁)
    · exact ⟨rfl, h₁⟩
  refine Yields.run_bind hthinking fun s₂ h₂ => ?_
  generalize (if effects.thinkingCompleted then v₁.announce else v₁) = v₂ at h₂ hstate ⊢
  have hchunk : Yields ClientOut.returns
      (if !effects.chunk.isEmpty then B.addChunk id effects.chunk else pure () : B.Slot).run
      (fun r s' => r = .ok () ∧
        Seen id (if effects.chunk.isEmpty then v₂ else v₂.addChunk effects.chunk) s') s₂ := by
    cases effects.chunk.isEmpty with
    | true => exact ⟨rfl, h₂⟩
    | false => exact Yields.run_lift (addChunk_seen h₂ _)
  refine Yields.run_bind hchunk fun s₃ h₃ => ?_
  generalize (if effects.chunk.isEmpty then v₂ else v₂.addChunk effects.chunk) = v₃
    at h₃ hstate ⊢
  have hused : Yields ClientOut.returns
      (B.applyUsage id source effects.usage B.provider.usageSchema) (fun _ s' => Seen id v₃ s') s₃ :=
    h₃.account source (parseUsage effects.usage B.provider.usageSchema)
  refine Yields.run_bind (Yields.run_lift hused) fun s₄ h₄ => ?_
  rw [herror]
  show Yields ClientOut.returns (if effects.toolsReady then _ else _ : B.Slot).run _ s₄
  split
  · exact executeToolsFromMessage_seen h₄ (hstate ‹_›)
  · exact ⟨rfl, h₄⟩

/-- An event a provider has read, which reports no error and leads to no tools. -/
theorem receive_seen (h : Seen id v s) (source : Source) {message : B.provider.Msg}
    {effects : MessageEffects} (herror : effects.error = none)
    (hstate : effects.toolsReady = true → ∀ m, (v.apply message effects).message = some m →
      (B.provider.base m).state ≠ .requiresToolExecution) :
    Yields ClientOut.returns (B.receive id source (.applied message effects)).run
      (fun r s' => r = .ok () ∧ Seen id (v.apply message effects) s') s := by
  have hread : Seen id { v with message := some message }
      (s.update id fun r => { r with message := some message }) :=
    h.update (fun r hr => ⟨rfl, hr.content, hr.offset, hr.conversation, hr.drained⟩) rfl
  have hmodify : Yields ClientOut.returns (B.modify fun s =>
      (s.update id fun r => { r with message := some message }).observe (.applied id source))
      (fun _ s' => Seen id { v with message := some message } s') s :=
    hread.note (o := .applied id source) rfl
  refine Yields.run_bind (Yields.run_lift hmodify) fun s₁ h₁ => ?_
  exact applyEffects_seen h₁ source herror hstate

/-- Events that report no error and lead to no tools, where `I` says what each finds. -/
theorem dispatchEvents_seen (I : RequestView B.provider → List StreamEvent → Prop)
    (hstep : ∀ v event rest, I v (event :: rest) → ∃ message effects,
      B.provider.processEvent v.message event = .applied message effects ∧
      effects.error = none ∧
      (effects.toolsReady = true → ∀ m, (v.apply message effects).message = some m →
        (B.provider.base m).state ≠ .requiresToolExecution) ∧
      I (v.apply message effects) rest) (ref : Option StreamRef) (events : List StreamEvent) :
    ∀ {v : RequestView B.provider} {s : B.State}, Seen id v s → I v events →
      Yields ClientOut.returns (B.dispatchEvents id ref events).run
        (fun r s' => r = .ok () ∧ ∃ v', Seen id v' s' ∧ I v' []) s := by
  induction events with
  | nil => exact fun h hI => ⟨rfl, _, h, hI⟩
  | cons event rest ih =>
      intro v s h hI
      obtain ⟨message, effects, hevent, herror, hstate, hrest⟩ := hstep v event rest hI
      show Yields ClientOut.returns (B.receive id (ref.map fun ref => (ref, event))
        (B.provider.processEvent (s.messageFor id) event) >>= fun _ => _ : B.Slot).run _ s
      rw [h.messageFor, hevent]
      refine Yields.run_bind (receive_seen h _ herror hstate) fun s₁ h₁ => ?_
      show Yields ClientOut.returns (if (s₁.requests.lookup id).isSome then _ else _ :
        B.Slot).run _ s₁
      rw [if_pos h₁.hasRequest]
      exact ih h₁ hrest

/-! ### The end of a turn -/

/-- What the caller is told of a request that completes from `v`. -/
structure Completed (v : RequestView B.provider) (e : Emitted) : Prop where
  chunks : e.chunks = v.emitted.chunks
  thinking : e.thinking = v.emitted.thinking
  completed : e.completed = v.emitted.completed ++ [v.closed ++ v.text]
  finalized : ∃ info, e.finalized = v.emitted.finalized ++ [info] ∧
    info.fullText = v.closed ++ v.text ∧
    ∀ conversation m, v.conversation = some conversation → v.message = some m →
      (B.provider.base m).currentBlocks ≠ [] →
      info.conversation = conversation.addAssistant (B.provider.base m).currentBlocks

theorem Completed.of_apply {message : B.provider.Msg} {effects : MessageEffects} {e : Emitted}
    (h : Completed (v.apply message effects) e) : e.completed =
      v.emitted.completed ++ [v.closed ++ (effects.replaced v.text ++ effects.chunk)] := by
  rw [h.completed, RequestView.completed_apply, RequestView.closed_apply, RequestView.text_apply]

@[simp] theorem history_update (s : B.State) (id : String)
    (f : ActiveRequest B.provider → ActiveRequest B.provider) :
    (s.update id f).history = s.history := by
  rw [ClientState.update_eq]

@[simp] theorem history_cleanupRequest (s : B.State) (id : String) :
    (s.cleanupRequest id).history = s.history := by
  unfold ClientState.cleanupRequest ClientState.dropStream
  split
  · rfl
  · exact history_update s id _

theorem emittedFor_finishOneShot (s : B.State) (id id' : String) (outcome : OneShotOutcome) :
    emittedFor id (s.finishOneShot id' outcome).history = emittedFor id s.history := by
  unfold ClientState.finishOneShot
  split <;> rfl

theorem lookup_finishOneShot (s : B.State) (id id' : String) (outcome : OneShotOutcome) :
    (s.finishOneShot id' outcome).requests.lookup id = s.requests.lookup id := by
  unfold ClientState.finishOneShot
  split <;> rfl

@[simp] theorem conversation_finalizeTurn (r : ActiveRequest B.provider) :
    r.finalizeTurn.finalConversation = r.finalConversation := by
  unfold ActiveRequest.finalizeTurn
  split <;> rfl

/-- The conversation that is reported has the blocks of the last message. -/
theorem Shows.finalConversation {r : ActiveRequest B.provider} (h : Shows v r)
    {conversation : Conversation} {m : B.provider.Msg} (hv : v.conversation = some conversation)
    (hm : v.message = some m) (hne : (B.provider.base m).currentBlocks ≠ []) :
    r.retire.finalConversation = conversation.addAssistant (B.provider.base m).currentBlocks := by
  have htracked := h.conversation
  rw [hv] at htracked
  split at htracked
  · have hconversation : r.conversation = conversation := (Option.some.inj htracked).symm
    simp [ActiveRequest.finalConversation, ActiveRequest.retire, h.message, *]
  · cases htracked

theorem completeRequest_told {r : ActiveRequest B.provider} (hl : s.requests.lookup id = some r)
    {info : CompletionInfo} (hinfo : r.finalizeTurn.completionInfo s.settings.model = info) :
    Yields ClientOut.returns (B.completeRequest id) (fun _ s' =>
      s'.requests.lookup id = none ∧ emittedFor id s'.history =
        { emittedFor id s.history with
          finalized := (emittedFor id s.history).finalized ++ [info]
          completed := (emittedFor id s.history).completed ++ [info.fullText] }) s := by
  refine Yields.read ?_
  rw [hl]
  subst hinfo
  show Yields ClientOut.returns (B.emit _ >>= fun _ => _) _ (s.cleanupRequest id)
  refine (yields_bind (S := B.Sig)).mpr (emit_undisturbed ?_)
  refine (yields_bind (S := B.Sig)).mpr (emit_undisturbed ?_)
  show AList.lookup id (ClientState.finishOneShot _ id _).requests = none ∧
    emittedFor id (ClientState.finishOneShot _ id _).history = _
  rw [lookup_finishOneShot, emittedFor_finishOneShot]
  refine ⟨ClientState.lookup_cleanupRequest s id, ?_⟩
  simp [emittedFor, Emitted.add]

/-- A message that waits for no tools ends its request with its turn. -/
theorem finishTurn_completed (h : Seen id v s)
    (hstate : ∀ m, v.message = some m → (B.provider.base m).state ≠ .requiresToolExecution) :
    Yields ClientOut.returns (B.finishTurn id) (fun _ s' =>
      s'.requests.lookup id = none ∧ Completed v (emittedFor id s'.history)) s := by
  show Yields ClientOut.returns (if (s.messageFor id).any fun m =>
    (B.provider.base m).state = .requiresToolExecution then _ else _ : Proc B.Sig Unit) _ s
  have hnotools : ¬((v.message.any fun m =>
      (B.provider.base m).state = .requiresToolExecution) = true) := by
    cases hm : v.message with
    | none => simp
    | some m => simpa using hstate m hm
  rw [h.messageFor, if_neg hnotools]
  -- whatever stop reason is kept
  suffices hcompleted : ∀ stopped : ActiveRequest B.provider → ActiveRequest B.provider,
      (∀ r, Shows v r → Shows v (stopped r)) →
        Yields ClientOut.returns (B.completeRequest id) (fun _ s' =>
          s'.requests.lookup id = none ∧ Completed v (emittedFor id s'.history))
          ((s.update id stopped).cleanupFullRequest id) from
    hcompleted _ fun r hr => ⟨hr.message, hr.content, hr.offset, hr.conversation, hr.drained⟩
  intro stopped hstops
  obtain ⟨r, hl, hr⟩ := h.request
  have hstopped : Shows v (stopped r) := hstops r hr
  have hretired : ((s.update id stopped).cleanupFullRequest id).requests.lookup id =
      some (stopped r).retire := by
    show ((s.update id stopped).update id ActiveRequest.retire).requests.lookup id = _
    rw [ClientState.lookup_update, ClientState.lookup_update, hl]
    rfl
  have hemitted : emittedFor id ((s.update id stopped).cleanupFullRequest id).history =
      v.emitted := by
    show emittedFor id ((s.update id stopped).update id ActiveRequest.retire).history = v.emitted
    rw [history_update, history_update, h.emitted]
  refine Yields.mono (completeRequest_told hretired rfl) fun _ s' h' => ⟨h'.1, ?_⟩
  rw [h'.2, hemitted]
  have hinfo : (stopped r).retire.finalizeTurn.responseContent = v.closed ++ v.text := by
    rw [ActiveRequest.responseContent_finalizeTurn]
    exact hstopped.content
  refine ⟨rfl, rfl, congrArg (fun text => v.emitted.completed ++ [text]) hinfo, _, rfl, hinfo,
    fun conversation m hv hm hne => ?_⟩
  show (stopped r).retire.finalizeTurn.finalConversation = _
  rw [conversation_finalizeTurn]
  exact hstopped.finalConversation hv hm hne

/-- The end of a stream that reports no error and holds nothing back. -/
theorem streamDrained_completed (h : Seen id v s) (ref : Option StreamRef)
    (hpending : (B.provider.takePendingStreamError (s.derivedFor id)).1 = none)
    (hdrained : B.provider.onStreamDrained = none)
    (hstate : ∀ m, v.message = some m → (B.provider.base m).state ≠ .requiresToolExecution) :
    Yields ClientOut.returns (B.streamDrained id ref).run (fun r s' =>
      r = .ok () ∧ s'.requests.lookup id = none ∧ Completed v (emittedFor id s'.history)) s := by
  refine Yields.run_read ?_
  generalize B.provider.takePendingStreamError (s.derivedFor id) = pending at hpending
  obtain ⟨_, derived⟩ := pending
  subst hpending
  obtain ⟨r, hl, hr⟩ := h.request
  have hflushed : Yields ClientOut.returns (B.flushStreamBuffers id ref).run
      (fun r s' => r = .ok () ∧ Seen id v s') s := by
    refine Yields.run_read ?_
    rw [hl]
    show Yields ClientOut.returns (B.dispatchEvents id ref (r.framer.flush B.codec).2).run _
      (s.update id fun _ => _)
    rw [hr.drained]
    exact ⟨rfl, h.flush r⟩
  refine Yields.run_bind hflushed fun s₁ h₁ => ?_
  show Yields ClientOut.returns (if (s₁.requests.lookup id).isSome then _ else _ : B.Slot).run _ s₁
  rw [if_pos h₁.hasRequest]
  show Yields ClientOut.returns (B.onStreamDrained id >>= fun _ => _ : B.Slot).run _ s₁
  unfold onStreamDrained
  rw [hdrained]
  show Yields ClientOut.returns (if (s₁.requests.lookup id).isSome then _ else _ : B.Slot).run _ s₁
  rw [if_pos h₁.hasRequest]
  exact Yields.run_lift (finishTurn_completed h₁ hstate)

/-- The provider sees no error at the end of a stream, and adds nothing to it. -/
structure EndsPlainly (P : ProviderClient) : Prop where
  pending : ∀ d, (P.takePendingStreamError d).1 = none
  drained : P.onStreamDrained = none

/-- The request is over, and the caller was told what came of `v`. -/
def Over (id : String) (v : RequestView B.provider) (s : B.State) : Prop :=
  s.requests.lookup id = none ∧ Completed v (emittedFor id s.history)

/-- The events of a stream reach the client, and then its end. -/
def streamed (B : BaseClient) (id : String) (ref : Option StreamRef) (events : List StreamEvent) :
    B.Slot := do
  B.dispatchEvents id ref events
  B.onStreamFinished id ref none

theorem streamed_completed (hends : EndsPlainly B.provider)
    (I : RequestView B.provider → List StreamEvent → Prop)
    (hstep : ∀ v event rest, I v (event :: rest) → ∃ message effects,
      B.provider.processEvent v.message event = .applied message effects ∧
      effects.error = none ∧
      (effects.toolsReady = true → ∀ m, (v.apply message effects).message = some m →
        (B.provider.base m).state ≠ .requiresToolExecution) ∧
      I (v.apply message effects) rest)
    (hend : ∀ v, I v [] → ∀ m, v.message = some m →
      (B.provider.base m).state ≠ .requiresToolExecution)
    (ref : Option StreamRef) {events : List StreamEvent} (h : Seen id v s) (hI : I v events) :
    Yields ClientOut.returns (B.streamed id ref events).run
      (fun r s' => r = .ok () ∧ ∃ v', I v' [] ∧ Over id v' s') s := by
  refine Yields.run_bind (dispatchEvents_seen I hstep ref events h hI) fun s₁ h₁ => ?_
  obtain ⟨v', h', hI'⟩ := h₁
  refine Yields.mono (streamDrained_completed h' ref (hends.pending _) hends.drained
    (hend v' hI')) fun _ s' hs' => ?_
  exact ⟨hs'.1, v', hI', hs'.2⟩

/-- A buffered answer that reports no error and leads to no tools. -/
theorem sendContinuation_completed (hends : EndsPlainly B.provider) (h : Seen id v s)
    {response : HttpResponse} {body : JsonObject} (hsuccess : response.isSuccess = true)
    (hbody : B.codec.fromJson response.body = .object body) (hplain : errorIn body = none)
    {message : B.provider.Msg} {effects : MessageEffects}
    (hread : B.provider.processBufferedBody v.message body = .applied message effects)
    (herror : effects.error = none)
    (hstate : ∀ m, (v.apply message effects).message = some m →
      (B.provider.base m).state ≠ .requiresToolExecution) :
    Yields ClientOut.returns (B.sendContinuation id response).run
      (fun r s' => r = .ok () ∧ Over id (v.apply message effects) s') s := by
  show Yields ClientOut.returns (if (s.requests.lookup id).isSome then _ else _ : B.Slot).run _ s
  rw [if_pos h.hasRequest, hsuccess]
  have hprocessed : Yields ClientOut.returns (B.processBufferedResponse id response.body).run
      (fun r s' => r = .ok () ∧ Seen id (v.apply message effects) s') s := by
    unfold processBufferedResponse
    rw [hbody]
    dsimp only
    rw [hplain]
    show Yields ClientOut.returns
      (B.receive id none (B.provider.processBufferedBody (s.messageFor id) body)).run _ s
    rw [h.messageFor, hread]
    exact receive_seen h none herror fun _ => hstate
  refine Yields.run_bind hprocessed fun s₁ h₁ => ?_
  exact streamDrained_completed h₁ none (hends.pending _) hends.drained hstate

end Steps

/-- A request has been sent, and nothing has come back. -/
def askedState (B : BaseClient) : B.State := { requests := AList.insert "r" {} ∅ }

theorem seen_askedState (B : BaseClient) : Seen "r" ⟨none, "", "", none, {}⟩ (askedState B) := by
  refine ⟨⟨{}, AList.lookup_insert ∅, rfl, rfl, rfl, rfl, ?_⟩, rfl⟩
  unfold Framer.fresh
  dsimp only
  cases B.provider.streamFraming <;> rfl

end BaseClient

end LLMQore
