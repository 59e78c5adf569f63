import Mathlib.Data.Option.Basic
import LLMQore.Core.BaseClient

/-!
# LLMQore.Core.ClientRules

How the client's code runs, for any contract of the client.

`Sends`, `Continues`, `Serves` and `Receives` list what a contract must say of the single
updates the client makes between its call-outs, and of the ends of a request: to send a
request, after a round of tools, of the text and the tools of a request, and of what is
received. That the code of the API, of the rounds of tools and of the slots keeps the contract
follows, whatever the contract claims. A contract that does not speak of the tools manager is
kept by the manager's code (`Continues.hosted`); `Enters` brings all events together.
-/

namespace LLMQore

open Reentrant Network Tools

namespace ClientState

variable {P : ProviderClient} (s : ClientState P)

/-- No request has had the id. -/
def Fresh (id : String) : Prop := ∀ promise, .started id promise ∉ s.history

/-- `trackOneShot` has made a promise for the next request. -/
def promised : ClientState P :=
  { s with nextPromise := s.nextPromise + 1, pendingOneShot := some s.nextPromise }

/-- The request is about to be sent over HTTP. -/
def sendingTo (id url : String) (payload : JsonObject) (mode : RequestMode) : ClientState P :=
  (s.update id fun r => { r.storeContext url payload with mode }).observe (.sent id)

end ClientState

/-- The signals that show the progress of a request, besides its chunks. -/
def ClientSignal.Progress (id : String) : ClientSignal → Prop
  | .accumulatedReceived id' _ | .thinkingBlockReceived id' _ _ => id' = id
  | .chunkReceived .. | .requestFinalized .. | .requestCompleted .. | .requestFailed .. => False

/-- The ids of new requests are new. -/
def ClientEvent.FreshIn {P : ProviderClient} (s : ClientState P) : ClientEvent → Prop
  | .sendMessage id .. | .ask id .. | .askOnce id .. => s.Fresh id
  | _ => True

namespace BaseClient

variable {B : BaseClient}

/-- The answers of the surroundings. -/
abbrev Answers (B : BaseClient) := B.State → (e : ClientOut) → e.Ans → Prop

/-- What a contract says of the updates the client makes to send a request and to end one. -/
structure Sends (B : BaseClient) (C : Contract B.Sig) (ans : Answers B) : Prop
    extends C.Preorder where
  pending : ∀ {s}, C.inv s → s.pendingOneShot = none
  fail : ∀ id error, C.Keeps ans (B.failRequest id error)
  dropStream : ∀ {s} id, C.inv s → C.Moves s (s.dropStream id)
  firstTurn : ∀ {s s' id} url payload mode, C.inv s → s' = s ∨ s' = s.promised → s.Fresh id →
    C.Moves s ((s'.createRequest id).sendingTo id url payload mode)
  connect : ∀ {s id}, C.inv s → (s.requests.lookup id).isSome → C.Moves s (s.connectStream id)
  watchSend : ∀ {s} id, C.inv s → C.Moves s (s.watchSend id)
  track : ∀ {s} id conversation, C.inv s →
    C.Moves s (s.update id fun r => { r with conversation, tracksConversation := true })

section Steps

variable {C : Contract B.Sig} {ans : Answers B} {s s₀ : B.State} {α : Type}

theorem after_read {g : B.State → Proc B.Sig α} (h : C.KeepsFrom ans s₀ (g s) s) :
    C.KeepsFrom ans s₀ (B.read >>= g) s := h

theorem after_modify {f : B.State → B.State} {g : Unit → Proc B.Sig α}
    (h : C.KeepsFrom ans s₀ (g ()) (f s)) : C.KeepsFrom ans s₀ (B.modify f >>= g) s := h

end Steps

namespace Sends

variable {C : Contract B.Sig} {ans : Answers B} {s s' s₀ : B.State} {id : String}

theorem moves_trans (hS : Sends B C ans) {s₁ s₂ s₃ : B.State} (h₁ : C.Moves s₁ s₂)
    (h₂ : C.Moves s₂ s₃) : C.Moves s₁ s₃ :=
  h₁.trans hS.toPreorder h₂

theorem moves_refl (hS : Sends B C ans) (hs : C.inv s) : C.Moves s s := ⟨hs, hS.refl s⟩

/-- Code that keeps the contract, in the middle of a visit. -/
theorem keepsFrom (hS : Sends B C ans) {α : Type} {p : Proc B.Sig α} (hp : C.Keeps ans p)
    (h : C.Moves s₀ s) : C.KeepsFrom ans s₀ p s :=
  wp_mono (hp s h.1) fun _ _ h' => hS.moves_trans h h'

theorem query (hS : Sends B C ans) (h : C.Moves s₀ s) (e : ClientOut) :
    C.KeepsFrom ans s₀ (B.query e) s :=
  Contract.KeepsFrom.query hS.toPreorder h e

theorem failRequest (hS : Sends B C ans) (h : C.Moves s₀ s) (id error : String) :
    C.KeepsFrom ans s₀ (B.failRequest id error) s :=
  hS.keepsFrom (hS.fail id error) h

theorem abortRequest (hS : Sends B C ans) (h : C.Moves s₀ s) (id error : String) :
    C.KeepsFrom ans s₀ (B.abortRequest id error) s := by
  show C.KeepsFrom ans s₀ (if (s.requests.lookup id).isSome then _ else _ : Proc B.Sig Unit) s
  by_cases hid : (s.requests.lookup id).isSome
  · rw [if_pos hid]
    exact hS.failRequest (hS.moves_trans h (hS.dropStream id h.1)) id error
  · rw [if_neg hid]
    exact h

/-! ### Sending -/

/-- The request is there and about to be sent. -/
theorem startHttpRequest (hS : Sends B C ans) (h : C.Moves s₀ (s.observe (.sent id)))
    (hid : (s.requests.lookup id).isSome) (url : String) (payload : JsonObject)
    (mode : RequestMode) : C.KeepsFrom ans s₀ (B.startHttpRequest id url payload mode) s := by
  show C.KeepsFrom ans s₀ (if (s.requests.lookup id).isSome then _ else _ : Proc B.Sig Unit) s
  rw [if_pos hid]
  cases mode with
  | buffered =>
      refine after_modify (.bind (hS.query h (.send id url payload)) fun _ s₁ h₁ => ?_)
      exact hS.moves_trans h₁ (hS.watchSend id h₁.1)
  | streaming =>
      refine after_modify (.bind (hS.query h (.openStream id url payload)) fun stream s₁ h₁ => ?_)
      show C.KeepsFrom ans s₀ (if (s₁.requests.lookup id).isSome then _ else _ :
        Proc B.Sig Unit) s₁
      by_cases hid₁ : (s₁.requests.lookup id).isSome
      · rw [if_pos hid₁]
        cases (stream : Bool) with
        | true => exact hS.moves_trans h₁ (hS.connect h₁.1 hid₁)
        | false => exact hS.failRequest h₁ id _
      · rw [if_neg hid₁]
        exact h₁

/-- A request with a fresh id is made and sent, maybe for a promise. -/
theorem postJson (hS : Sends B C ans) (hs : C.inv s) (hs' : s' = s ∨ s' = s.promised)
    (hfresh : s.Fresh id) (payload : JsonObject) (endpoint : String) (mode : RequestMode) :
    C.KeepsFrom ans s (B.postJson id payload endpoint mode) s' := by
  refine hS.startHttpRequest (hS.firstTurn _ payload mode hs hs' hfresh) ?_ _ payload mode
  rw [ClientState.lookup_update]
  simp [ClientState.createRequest, ClientState.observe]

theorem sendMessage (hS : Sends B C ans) (hs : C.inv s) (hs' : s' = s ∨ s' = s.promised)
    (hfresh : s.Fresh id) (payload : JsonObject) (endpoint : String) (mode : RequestMode) :
    C.KeepsFrom ans s (B.sendMessage id payload endpoint mode) s' :=
  hS.postJson hs hs' hfresh _ _ mode

theorem ask (hS : Sends B C ans) (hs : C.inv s) (hs' : s' = s ∨ s' = s.promised)
    (hfresh : s.Fresh id) (conversation : Conversation) (extra : JsonObject)
    (mode : RequestMode) : C.KeepsFrom ans s (B.ask id conversation extra mode) s' := by
  refine after_read (.bind (hS.sendMessage hs hs' hfresh _ _ mode) fun _ s₁ h₁ => ?_)
  exact hS.moves_trans h₁ (hS.track id conversation h₁.1)

/-- The promise is the request's by the time the request has been sent. -/
theorem askOnce (hS : Sends B C ans) (hs : C.inv s) (hfresh : s.Fresh id)
    (conversation : Conversation) (extra : JsonObject) (mode : RequestMode) :
    C.KeepsFrom ans s (B.askOnce id conversation extra mode) s := by
  refine after_read (after_modify (.bind (hS.ask hs (.inr rfl) hfresh conversation extra mode)
    fun _ s₁ h₁ => ?_))
  have hnone := hS.pending h₁.1
  have heq : { s₁ with pendingOneShot := none } = s₁ := by rw [← hnone]
  show C.KeepsFrom ans s (if s₁.pendingOneShot.isSome then _ else _ : Proc B.Sig Unit)
    { s₁ with pendingOneShot := none }
  rw [heq, hnone]
  exact h₁

end Sends

/-! ### Rounds of tools -/

/-- What a contract says of the updates the client makes when a round of tools is complete, and
of the named procedures. -/
structure Continues (B : BaseClient) (C : Contract B.Sig) (ans : Answers B) : Prop
    extends Sends B C ans where
  enter : ∀ {s f}, C.inv s → C.pre f s
  leave : ∀ {s f r s'}, C.post f s r s' → C.Moves s s'
  countRound : ∀ {s} id, C.inv s →
    C.Moves s (s.update id fun r => { r with toolRounds := r.toolRounds + 1 })
  continued : ∀ {s id r m} toolResults, C.inv s → s.requests.lookup id = some r →
    r.message = some m →
    C.Moves s ((s.update id fun r => (r.buildReplayContinuation toolResults).1).observe
      (.continued id (B.provider.base m) toolResults))
  nextTurn : ∀ {s id r} payload, C.inv s → s.requests.lookup id = some r →
    C.Moves s ((s.update id ActiveRequest.beginNextTurn).sendingTo id r.url payload r.mode)

namespace Continues

variable {C : Contract B.Sig} {ans : Answers B} {s s₀ : B.State}

theorem continueRequest (hS : Continues B C ans) (h : C.Moves s₀ s) (id : String)
    (payload : JsonObject) : C.KeepsFrom ans s₀ (B.continueRequest id payload) s := by
  refine Contract.KeepsFrom.read ?_
  cases hl : s.requests.lookup id with
  | none => exact hS.failRequest h id _
  | some r =>
      show C.KeepsFrom ans s₀ (if r.url.isEmpty then _ else _ : Proc B.Sig Unit) s
      by_cases hurl : r.url.isEmpty
      · rw [if_pos hurl]
        exact hS.failRequest h id _
      · rw [if_neg hurl]
        have hsend := hS.nextTurn payload h.1 hl
        refine hS.startHttpRequest (hS.moves_trans h hsend) ?_ r.url payload r.mode
        rw [ClientState.lookup_update, ClientState.lookup_update, hl]
        rfl

/-- With the continuation built, the request is as it was or has the round tracked. -/
theorem buildReplayContinuation (hS : Continues B C ans) (h : C.Moves s₀ s) (id : String)
    (toolResults : ToolResults) :
    C.KeepsFrom ans s₀ (B.buildReplayContinuation id toolResults) s := by
  refine Contract.KeepsFrom.read ?_
  cases hl : s.requests.lookup id with
  | none => exact h
  | some r =>
      dsimp only
      cases hm : r.message with
      | none => exact h
      | some m => exact hS.moves_trans h (hS.continued toolResults h.1 hl hm)

theorem handleToolsCompleted (hS : Continues B C ans) (h : C.Moves s₀ s) (id : String)
    (toolResults : ToolResults) :
    C.KeepsFrom ans s₀ (B.handleToolsCompleted id toolResults) s := by
  refine Contract.KeepsFrom.read ?_
  cases hl : s.requests.lookup id with
  | none => exact h
  | some r =>
      have hcount := hS.moves_trans h (hS.countRound id h.1)
      show C.KeepsFrom ans s₀ (if s.maxToolRounds < r.toolRounds + 1 then _ else _ :
        Proc B.Sig Unit) (s.update id fun r => { r with toolRounds := r.toolRounds + 1 })
      by_cases hmax : s.maxToolRounds < r.toolRounds + 1
      · rw [if_pos hmax]
        exact hS.abortRequest hcount id _
      · rw [if_neg hmax]
        refine Contract.KeepsFrom.bind (hS.buildReplayContinuation hcount id toolResults)
          fun payload s₁ h₁ => ?_
        show C.KeepsFrom ans s₀ (if payload.isEmpty then _ else _ : Proc B.Sig Unit) s₁
        by_cases hempty : payload.isEmpty
        · rw [if_pos hempty]
          exact hS.abortRequest h₁ id _
        · rw [if_neg hempty]
          exact hS.continueRequest h₁ id payload

/-- What the tools manager calls out for keeps the contract. -/
theorem hostedOut (hS : Continues B C ans) (e : ToolsOut) : C.Keeps ans (B.hostedTools.out e) := by
  intro s hs
  have hrefl := hS.moves_refl hs
  cases e with
  | emit signal =>
      refine Contract.KeepsFrom.bind ?_ fun _ s₁ h₁ => hS.query h₁ (.tools signal)
      cases signal with
      | toolExecutionComplete id toolResults => exact hS.handleToolsCompleted hrefl id toolResults
      | toolExecutionStarted args => exact hrefl
      | toolExecutionResult requestId toolId toolName result => exact hrefl
      | toolsChanged => exact hrefl
  | gate args => exact hS.query hrefl (.gate args)
  | executeAsync tool input => exact hS.query hrefl (.executeAsync tool input)

/-- The code of the tools manager keeps a contract that does not speak of the manager. -/
theorem hosted (hS : Continues B C ans)
    (hmanager : ∀ s toolsManager, C.inv s → C.Moves s { s with toolsManager }) {α : Type}
    (p : Proc ToolsSig α) : C.Keeps ans (p.implement B.hostedTools) :=
  Contract.Keeps.implement hS.toPreorder (fun s m hs => hmanager s m hs) hS.hostedOut
    (fun _ _ hs => ⟨hS.enter hs, fun _ _ h => hS.leave h⟩) p

end Continues

/-- What a contract says of the updates the client makes of the text, the thinking and the tools
of a request. -/
structure Serves (B : BaseClient) (C : Contract B.Sig) (ans : Answers B) : Prop
    extends Sends B C ans where
  chunk : ∀ {s id r} chunk, C.inv s → s.requests.lookup id = some r →
    C.Moves s ((s.appendText id chunk).observe (.emitted (.chunkReceived id chunk)))
  replaced : ∀ {s id r} text, C.inv s → s.requests.lookup id = some r →
    C.Moves s (s.replaceText id text)
  thinking : ∀ {s} id m base, C.inv s → s.messageFor id = some m →
    base.state = (B.provider.base m).state → base.currentBlocks = (B.provider.base m).currentBlocks →
    C.Moves s (s.update id fun r => { r with message := some (B.provider.withBase m base) })
  signal : ∀ {s id signal}, C.inv s → (s.requests.lookup id).isSome → signal.Progress id →
    C.Moves s (s.observe (.emitted signal))
  begun : ∀ {s id m}, C.inv s → s.messageFor id = some m →
    (B.provider.base m).state = .requiresToolExecution →
    C.Moves s (s.observe (.begun id (B.provider.base m).currentToolUseContent))

namespace Serves

variable {C : Contract B.Sig} {ans : Answers B} {s s₀ : B.State} {id : String}

/-- A signal that shows progress is emitted for a request that is there. -/
theorem emit (hS : Serves B C ans) (h : C.Moves s₀ s) (hid : (s.requests.lookup id).isSome)
    {signal : ClientSignal} (hsig : signal.Progress id) : C.KeepsFrom ans s₀ (B.emit signal) s :=
  hS.query (hS.moves_trans h (hS.signal h.1 hid hsig)) _

/-! ### Text and thinking -/

theorem replaceRoundText (hS : Serves B C ans) (h : C.Moves s₀ s) (id text : String) :
    C.KeepsFrom ans s₀ (B.replaceRoundText id text) s := by
  refine Contract.KeepsFrom.read ?_
  cases hl : s.requests.lookup id with
  | none => exact h
  | some r =>
      show C.KeepsFrom ans s₀ (if r.replacedText text = r.responseContent then _ else _ :
        Proc B.Sig Unit) s
      by_cases hsame : r.replacedText text = r.responseContent
      · rw [if_pos hsame]
        exact h
      · rw [if_neg hsame]
        refine after_modify (hS.emit (hS.moves_trans h (hS.replaced text h.1 hl))
          (?_ : ((_ : ClientState _).requests.lookup id).isSome) rfl)
        rw [ClientState.lookup_replaceText, hl]
        rfl

theorem applyText (hS : Serves B C ans) (h : C.Moves s₀ s) (id : String)
    (effects : MessageEffects) : C.KeepsFrom ans s₀ (B.applyText id effects) s := by
  refine after_read ?_
  split
  · exact hS.replaceRoundText h id _
  · split
    · exact hS.replaceRoundText h id _
    · exact h

theorem announceThinking (hS : Serves B C ans) (id : String)
    (notifications : List PendingThinkingNotification) : ∀ {s : B.State}, C.Moves s₀ s →
    (s.requests.lookup id).isSome →
    C.KeepsFrom ans s₀ (B.announceThinking id notifications) s := by
  induction notifications with
  | nil => exact fun h _ => h
  | cons notification rest ih =>
      intro s h hid
      refine Contract.KeepsFrom.bind (hS.emit h hid rfl) fun _ s₁ h₁ => ?_
      show C.KeepsFrom ans s₀ (if (s₁.requests.lookup id).isSome then _ else _ :
        Proc B.Sig Unit) s₁
      by_cases hid₁ : (s₁.requests.lookup id).isSome
      · rw [if_pos hid₁]
        exact ih h₁ hid₁
      · rw [if_neg hid₁]
        exact h₁

theorem notifyPendingThinkingBlocks (hS : Serves B C ans) (h : C.Moves s₀ s) (id : String) :
    C.KeepsFrom ans s₀ (B.notifyPendingThinkingBlocks id) s := by
  refine Contract.KeepsFrom.read ?_
  cases hm : s.messageFor id with
  | none => exact h
  | some m =>
      obtain ⟨r, hl, -⟩ := ClientState.lookup_of_messageFor s hm
      refine after_modify (hS.announceThinking id _
        (hS.moves_trans h (hS.thinking id m _ h.1 hm rfl rfl)) ?_)
      rw [ClientState.lookup_update, hl]
      rfl

theorem addChunk (hS : Serves B C ans) (h : C.Moves s₀ s) (id chunk : String) :
    C.KeepsFrom ans s₀ (B.addChunk id chunk) s := by
  refine Contract.KeepsFrom.read ?_
  cases hl : s.requests.lookup id with
  | none => exact h
  | some r =>
      refine after_modify (.bind (hS.query (hS.moves_trans h (hS.chunk chunk h.1 hl)) _)
        fun _ s₁ h₁ => ?_)
      show C.KeepsFrom ans s₀ (if (s₁.requests.lookup id).isSome then _ else _ :
        Proc B.Sig Unit) s₁
      by_cases hid₁ : (s₁.requests.lookup id).isSome
      · rw [if_pos hid₁]
        exact hS.emit h₁ hid₁ rfl
      · rw [if_neg hid₁]
        exact h₁

/-- The tools a message asks for are called, where `beginRound` keeps the contract. -/
theorem executeToolsFromMessage (hS : Serves B C ans)
    (hround : ∀ id calls,
      C.Keeps ans (Proc.implement B.hostedTools (toolsHost.beginRound id calls).run))
    (h : C.Moves s₀ s) (id : String) :
    C.KeepsFrom ans s₀ (B.executeToolsFromMessage id).run s := by
  refine Contract.KeepsFrom.run_read ?_
  cases hm : s.messageFor id with
  | none => exact h
  | some m =>
      show C.KeepsFrom ans s₀ (if (B.provider.base m).state ≠ .requiresToolExecution then _
        else _ : B.Slot).run s
      by_cases hstate : (B.provider.base m).state = .requiresToolExecution
      · rw [if_neg (not_not.mpr hstate)]
        split
        · exact h
        · refine Contract.KeepsFrom.run_bind ?_ fun _ s₁ h₁ => hS.keepsFrom (hround id _) h₁
          exact Contract.KeepsFrom.lift (hS.moves_trans h (hS.begun h.1 hm hstate))
      · rw [if_pos hstate]
        exact h

end Serves

/-! ### What is received -/

/-- The source is an event from `ref`, or no event. -/
def FromStream (ref : Option StreamRef) (source : Source) : Prop :=
  source = none ∨ ∃ event, source = ref.map fun ref => (ref, event)

/-- What a contract says of the updates the client makes with what a request receives from
`ref`, while the condition `G` is met. -/
structure Receives (B : BaseClient) (C : Contract B.Sig) (ans : Answers B) (id : String)
    (ref : Option StreamRef) (G : B.State → Prop) : Prop extends Serves B C ans where
  guard : ∀ {s s'}, C.Moves s s' → G s → G s'
  beginRound : ∀ id calls,
    C.Keeps ans (Proc.implement B.hostedTools (toolsHost.beginRound id calls).run)
  finish : ∀ f : ActiveRequest B.provider → ActiveRequest B.provider,
    (∀ r, ∃ stopReason, f r = { r with stopReason }) →
    C.Keeps ans (B.modify (fun s => (s.update id f).cleanupFullRequest id) >>= fun _ =>
      B.completeRequest id)
  stop : C.Keeps ans (B.modify (fun s => s.cleanupFullRequest id) >>= fun _ =>
    B.completeRequest id)
  applied : ∀ {s source} message, C.inv s → G s → FromStream ref source → C.Moves s
    ((s.update id fun r => { r with message := some message }).observe (.applied id source))
  account : ∀ {s source} delta, C.inv s → G s → FromStream ref source →
    C.Moves s (s.account id source delta)
  framer : ∀ {s} framer, C.inv s → G s → C.Moves s (s.update id fun r => { r with framer })
  derived : ∀ {s} derived, C.inv s → G s →
    C.Moves s { s with derived := s.derived.insert id derived }

namespace Receives

variable {C : Contract B.Sig} {ans : Answers B} {s s₀ : B.State} {id : String}
  {ref : Option StreamRef} {G : B.State → Prop}

theorem applyUsage (hR : Receives B C ans id ref G) (h : C.Moves s₀ s) (hG : G s₀)
    {source : Source} (hsource : FromStream ref source) (root : JsonObject)
    (schema : UsageSchema) : C.KeepsFrom ans s₀ (B.applyUsage id source root schema) s :=
  hR.moves_trans h (hR.account _ h.1 (hR.guard h hG) hsource)

/-- The part of `applyEffects` after the usage. -/
theorem applyOutcome (hR : Receives B C ans id ref G) (h : C.Moves s₀ s)
    (effects : MessageEffects) :
    C.KeepsFrom ans s₀ (match effects.error with
      | some error => liftM (B.failRequest id (B.describeError error))
      | none => if effects.toolsReady then B.executeToolsFromMessage id else return :
        B.Slot).run s := by
  cases effects.error with
  | some error => exact .lift (hR.failRequest h id _)
  | none =>
      show C.KeepsFrom ans s₀ (if effects.toolsReady then _ else _ : B.Slot).run s
      split
      · exact hR.executeToolsFromMessage hR.beginRound h id
      · exact h

theorem applyEffects (hR : Receives B C ans id ref G) (h : C.Moves s₀ s) (hG : G s₀)
    {source : Source} (hsource : FromStream ref source) (effects : MessageEffects) :
    C.KeepsFrom ans s₀ (B.applyEffects id source effects).run s := by
  refine Contract.KeepsFrom.run_bind (.lift (hR.applyText h id effects)) fun _ s₁ h₁ => ?_
  refine Contract.KeepsFrom.run_bind ?_ fun _ s₂ h₂ => ?_
  · split
    · exact .lift (hR.notifyPendingThinkingBlocks h₁ id)
    · exact h₁
  refine Contract.KeepsFrom.run_bind ?_ fun _ s₃ h₃ => ?_
  · split
    · exact .lift (hR.addChunk h₂ id _)
    · exact h₂
  refine Contract.KeepsFrom.run_bind (.lift (hR.applyUsage h₃ hG hsource _ _)) fun _ s₄ h₄ => ?_
  exact hR.applyOutcome h₄ effects

theorem receive (hR : Receives B C ans id ref G) (h : C.Moves s₀ s) (hG : G s₀)
    {source : Source} (hsource : FromStream ref source) (reception : Reception B.provider.Msg) :
    C.KeepsFrom ans s₀ (B.receive id source reception).run s := by
  cases reception with
  | dropped => exact .lift (hR.moves_trans h (hR.account _ h.1 (hR.guard h hG) hsource))
  | applied message effects =>
      refine Contract.KeepsFrom.run_bind (.lift (hR.moves_trans h
        (hR.applied message h.1 (hR.guard h hG) hsource))) fun _ s₁ h₁ => ?_
      exact hR.applyEffects h₁ hG hsource effects
  | native content usage schema stop =>
      refine Contract.KeepsFrom.run_bind ?_ fun _ s₁ h₁ => ?_
      · split
        · exact .lift (hR.addChunk h id content)
        · exact h
      refine Contract.KeepsFrom.run_bind (.lift (hR.applyUsage h₁ hG hsource usage schema))
        fun _ s₂ h₂ => ?_
      split
      · exact .lift (p := B.modify (fun s => s.cleanupFullRequest id) >>= fun _ =>
          B.completeRequest id) (hR.keepsFrom hR.stop h₂)
      · exact h₂

theorem dispatchEvents (hR : Receives B C ans id ref G) (hG : G s₀) (events : List StreamEvent) :
    ∀ {s : B.State}, C.Moves s₀ s → C.KeepsFrom ans s₀ (B.dispatchEvents id ref events).run s := by
  induction events with
  | nil => exact fun h => h
  | cons event rest ih =>
      intro s h
      show C.KeepsFrom ans s₀ (B.receive id (ref.map fun ref => (ref, event))
        (B.provider.processEvent (s.messageFor id) event) >>= fun _ => _).run s
      refine Contract.KeepsFrom.run_bind (hR.receive h hG (.inr ⟨event, rfl⟩) _) fun _ s₁ h₁ => ?_
      show C.KeepsFrom ans s₀ (if (s₁.requests.lookup id).isSome then _ else _ : B.Slot).run s₁
      split
      · exact ih h₁
      · exact h₁

theorem flushStreamBuffers (hR : Receives B C ans id ref G) (h : C.Moves s₀ s) (hG : G s₀) :
    C.KeepsFrom ans s₀ (B.flushStreamBuffers id ref).run s := by
  refine Contract.KeepsFrom.run_read ?_
  cases hl : s.requests.lookup id with
  | none => exact h
  | some r => exact hR.dispatchEvents hG _ (hR.moves_trans h (hR.framer _ h.1 (hR.guard h hG)))

theorem onStreamDrained (hR : Receives B C ans id ref G) (h : C.Moves s₀ s) (hG : G s₀) :
    C.KeepsFrom ans s₀ (B.onStreamDrained id).run s := by
  unfold BaseClient.onStreamDrained
  cases B.provider.onStreamDrained with
  | none => exact h
  | some effects => exact hR.applyEffects h hG (.inl rfl) effects

theorem finishTurn (hR : Receives B C ans id ref G) (h : C.Moves s₀ s) :
    C.KeepsFrom ans s₀ (B.finishTurn id) s := by
  refine after_read ?_
  split
  · exact h
  · refine hR.keepsFrom (hR.finish _ fun r => ?_) h
    exact ⟨_, rfl⟩

theorem streamDrained (hR : Receives B C ans id ref G) (h : C.Moves s₀ s) (hG : G s₀) :
    C.KeepsFrom ans s₀ (B.streamDrained id ref).run s := by
  refine Contract.KeepsFrom.run_read ?_
  rcases B.provider.takePendingStreamError (s.derivedFor id) with ⟨error, derived⟩
  cases error with
  | some error =>
      exact .lift (hR.failRequest (hR.moves_trans h (hR.derived derived h.1 (hR.guard h hG))) id error)
  | none =>
      refine Contract.KeepsFrom.run_bind (hR.flushStreamBuffers h hG) fun _ s₁ h₁ => ?_
      show C.KeepsFrom ans s₀ (if (s₁.requests.lookup id).isSome then _ else _ : B.Slot).run s₁
      split
      · refine Contract.KeepsFrom.run_bind (hR.onStreamDrained h₁ hG) fun _ s₂ h₂ => ?_
        show C.KeepsFrom ans s₀ (if (s₂.requests.lookup id).isSome then _ else _ : B.Slot).run s₂
        split
        · exact .lift (hR.finishTurn h₂)
        · exact h₂
      · exact h₁

theorem onStreamFinished (hR : Receives B C ans id ref G) (h : C.Moves s₀ s) (hG : G s₀)
    (error : Option String) : C.KeepsFrom ans s₀ (B.onStreamFinished id ref error).run s := by
  cases error with
  | some error => exact .lift (hR.failRequest h id error)
  | none => exact hR.streamDrained h hG

theorem processData (hR : Receives B C ans id (some ref') G) (h : C.Moves s₀ s) (hG : G s₀)
    (data : Bytes) : C.KeepsFrom ans s₀ (B.processData id ref' data).run s := by
  refine Contract.KeepsFrom.run_read ?_
  cases hl : s.requests.lookup id with
  | none => exact h
  | some r =>
      have hderived := hR.moves_trans h
        (hR.derived (B.provider.processData (s.derivedFor id) data).1 h.1 (hR.guard h hG))
      show C.KeepsFrom ans s₀ (if (B.provider.processData (s.derivedFor id) data).2 then _ else _ :
        B.Slot).run _
      split
      · exact hR.dispatchEvents hG _
          (hR.moves_trans hderived (hR.framer _ hderived.1 (hR.guard hderived hG)))
      · exact hderived

/-! ### Buffered posts -/

theorem processBufferedResponse (hR : Receives B C ans id none G) (h : C.Moves s₀ s) (hG : G s₀)
    (data : Bytes) : C.KeepsFrom ans s₀ (B.processBufferedResponse id data).run s := by
  unfold BaseClient.processBufferedResponse
  split
  · split
    · exact .lift (hR.failRequest h id _)
    · show C.KeepsFrom ans s₀ (B.receive id none
        (B.provider.processBufferedBody (s.messageFor id) _)).run s
      exact hR.receive h hG (.inl rfl) _
  · exact .lift (hR.failRequest h id _)

theorem sendContinuation (hR : Receives B C ans id none G) (h : C.Moves s₀ s) (hG : G s₀)
    (response : HttpResponse) :
    C.KeepsFrom ans s₀ (B.sendContinuation id response).run s := by
  show C.KeepsFrom ans s₀ (if (s.requests.lookup id).isSome then _ else _ : B.Slot).run s
  split
  · split
    · exact hR.onStreamFinished h hG _
    · refine Contract.KeepsFrom.run_bind (hR.processBufferedResponse h hG _) fun _ s₁ h₁ => ?_
      exact hR.onStreamFinished h₁ hG none
  · exact h

end Receives

/-! ### Every event -/

/-- What a contract says of the updates the slots of streams and the ends of posts make, and of
the events that are not for one request. -/
structure Enters (B : BaseClient) (C : Contract B.Sig) (ans : Answers B) : Prop where
  receives : ∀ id ref, Receives B C ans id ref fun _ => True
  settings : ∀ {s} settings, C.inv s → C.Moves s { s with settings }
  hosted : ∀ call, C.Keeps ans (Proc.implement B.hostedTools (toolsHost.call call))
  transport : ∀ {s} id (f : ActiveRequest B.provider → ActiveRequest B.provider),
    (∀ r, ∃ stream errorMode errorBody, f r = { r with stream, errorMode, errorBody }) →
    C.inv s → C.Moves s (s.update id f)
  tables : ∀ {s} streams sends failedSends, C.inv s →
    C.Moves s { s with streams, sends, failedSends }
  received : ∀ {s} ref data, C.inv s → C.Moves s (s.observe (.received ref data))
  ended : ∀ {s} ref, C.inv s → C.Moves s (s.observe (.ended ref))

namespace Enters

variable {C : Contract B.Sig} {ans : Answers B} {s s₀ : B.State} {id : String} {ref : StreamRef}

theorem sends (hE : Enters B C ans) : Sends B C ans := (hE.receives "" none).toSends

theorem slot (hE : Enters B C ans) (p : B.Slot) (h : C.KeepsFrom ans s₀ p.run s) :
    C.KeepsFrom ans s₀ (B.slot p) s := by
  refine Contract.KeepsFrom.bind h fun r s₁ h₁ => ?_
  cases r with
  | ok a => exact h₁
  | error e => exact Contract.KeepsFrom.bind (hE.sends.query h₁ .terminate) fun never => never.elim

/-- A signal of a stream. -/
theorem ofStream (hE : Enters B C ans) (hs : C.inv s) (ref : StreamRef) {p : String → B.Slot}
    (hp : ∀ id, C.KeepsFrom ans s (p id).run s) : C.KeepsFrom ans s (B.ofStream ref p) s := by
  refine Contract.KeepsFrom.read ?_
  cases s.streams.lookup ref with
  | none => exact hE.sends.moves_refl hs
  | some id => exact hE.slot _ (hp id)

theorem ifCurrent {p q : B.Slot} (hp : C.KeepsFrom ans s₀ p.run s)
    (hq : C.KeepsFrom ans s₀ q.run s) : C.KeepsFrom ans s₀ (B.ifCurrent id ref p q).run s := by
  show C.KeepsFrom ans s₀ (if _ then p else q : B.Slot).run s
  split
  · exact hp
  · exact hq

theorem closeStream (hE : Enters B C ans) (h : C.Moves s₀ s) (id : String) (ref : StreamRef) :
    C.KeepsFrom ans s₀ (liftM (B.closeStream id ref) : B.Slot).run s := by
  have hclose := hE.sends.moves_trans h
    (hE.transport id ActiveRequest.closeStream (fun r => ⟨_, _, _, rfl⟩) h.1)
  exact .lift (hE.sends.moves_trans hclose (hE.tables (s.streams.erase ref) _ _ hclose.1))

theorem deleteStream (hE : Enters B C ans) (h : C.Moves s₀ s) (ref : StreamRef) :
    C.KeepsFrom ans s₀ (liftM (B.deleteStream ref) : B.Slot).run s :=
  .lift (hE.sends.moves_trans h (hE.tables (s.streams.erase ref) _ _ h.1))

theorem headersReceived (hE : Enters B C ans) (hs : C.inv s) (statusCode : Int) :
    C.KeepsFrom ans s (B.headersReceived id ref statusCode).run s := by
  refine ifCurrent ?_ (hE.sends.moves_refl hs)
  split
  · exact .lift (hE.transport id _ (fun r => ⟨_, _, _, rfl⟩) hs)
  · exact hE.sends.moves_refl hs

theorem chunkReceived (hE : Enters B C ans) (hs : C.inv s) (chunk : Bytes) :
    C.KeepsFrom ans s (B.chunkReceived id ref chunk).run s := by
  refine Contract.KeepsFrom.run_bind (.lift (hE.received ref chunk hs)) fun _ s₁ h₁ => ?_
  refine ifCurrent ?_ h₁
  show C.KeepsFrom ans s (if _ then _ else _ : B.Slot).run s₁
  split
  · exact .lift (hE.sends.moves_trans h₁ (hE.transport id _ (fun r => ⟨_, _, _, rfl⟩) h₁.1))
  · exact (hE.receives id (some ref)).processData h₁ trivial chunk

theorem streamFinished (hE : Enters B C ans) (hs : C.inv s) (statusCode : Int) :
    C.KeepsFrom ans s (B.streamFinished id ref statusCode).run s := by
  refine Contract.KeepsFrom.run_bind (.lift (hE.ended ref hs)) fun _ s₁ h₁ => ?_
  refine ifCurrent ?_ (hE.deleteStream h₁ ref)
  show C.KeepsFrom ans s (liftM (B.closeStream id ref) >>= fun _ => _ : B.Slot).run s₁
  refine Contract.KeepsFrom.run_bind (hE.closeStream h₁ id ref) fun _ s₂ h₂ => ?_
  exact (hE.receives id (some ref)).onStreamFinished h₂ trivial _

theorem errorOccurred (hE : Enters B C ans) (hs : C.inv s) (message : String) :
    C.KeepsFrom ans s (B.errorOccurred id ref message).run s := by
  have hrefl := hE.sends.moves_refl hs
  refine ifCurrent ?_ (hE.deleteStream hrefl ref)
  refine Contract.KeepsFrom.run_bind (hE.closeStream hrefl id ref) fun _ s₂ h₂ => ?_
  exact (hE.receives id (some ref)).onStreamFinished h₂ trivial _

theorem failSend (hE : Enters B C ans) (h : C.Moves s₀ s) (ref : SendRef) (id : String)
    (what : Option String) : C.KeepsFrom ans s₀ (B.failSend ref id what) s :=
  hE.sends.moves_trans h (hE.tables _ _ (s.failedSends.insert ref (id, what)) h.1)

theorem sendFinished (hE : Enters B C ans) (hs : C.inv s) (ref : SendRef)
    (outcome : Except String HttpResponse) :
    C.KeepsFrom ans s (B.sendFinished ref outcome) s := by
  refine Contract.KeepsFrom.read ?_
  cases s.sends.lookup ref with
  | none => exact hE.sends.moves_refl hs
  | some id =>
      have herase : C.Moves s { s with sends := s.sends.erase ref } := hE.tables _ _ _ hs
      cases outcome with
      | error message => exact hE.failSend herase ref id (some message)
      | ok response =>
          refine after_modify (.bind
            ((hE.receives id none).sendContinuation herase trivial response) fun r s₁ h₁ => ?_)
          cases r with
          | ok a => exact h₁
          | error e => exact hE.failSend h₁ ref id e.what

theorem sendFailed (hE : Enters B C ans) (hs : C.inv s) (ref : SendRef) :
    C.KeepsFrom ans s (B.sendFailed ref).run s := by
  refine Contract.KeepsFrom.run_read ?_
  rcases s.failedSends.lookup ref with _ | ⟨id, what⟩
  · exact hE.sends.moves_refl hs
  · have herase : C.Moves s { s with failedSends := s.failedSends.erase ref } :=
      hE.tables _ _ _ hs
    cases what with
    | none => exact herase
    | some message =>
        show C.KeepsFrom ans s (if (s.requests.lookup id).isSome then _ else _ :
          B.Slot).run { s with failedSends := s.failedSends.erase ref }
        split
        · exact (hE.receives id none).onStreamFinished herase trivial (some message)
        · exact herase

/-- Every event keeps the contract, where a new limit of rounds does. -/
theorem entry (hE : Enters B C ans) (hs : C.inv s) (e : ClientEvent) (hfresh : e.FreshIn s)
    (hlimit : ∀ limit, e = .setMaxToolContinuations limit →
      C.Moves s { s with maxToolRounds := if 0 < limit then limit else 1 }) :
    C.KeepsFrom ans s (B.entry e) s := by
  cases e with
  | configure settings => exact hE.settings settings hs
  | setMaxToolContinuations limit => exact hlimit limit rfl
  | sendMessage id payload endpoint mode =>
      exact hE.sends.sendMessage hs (.inl rfl) hfresh payload endpoint mode
  | ask id conversation extra mode =>
      exact hE.sends.ask hs (.inl rfl) hfresh conversation extra mode
  | askOnce id conversation extra mode => exact hE.sends.askOnce hs hfresh conversation extra mode
  | cancelRequest id => exact hE.sends.abortRequest (hE.sends.moves_refl hs) id _
  | tools call => exact hE.hosted call s hs
  | headersReceived ref statusCode =>
      exact hE.ofStream hs ref fun _ => hE.headersReceived hs statusCode
  | chunkReceived ref chunk => exact hE.ofStream hs ref fun _ => hE.chunkReceived hs chunk
  | streamFinished ref statusCode =>
      exact hE.ofStream hs ref fun _ => hE.streamFinished hs statusCode
  | errorOccurred ref message => exact hE.ofStream hs ref fun _ => hE.errorOccurred hs message
  | sendFinished ref outcome => exact hE.sendFinished hs ref outcome
  | sendFailed ref => exact hE.slot _ (hE.sendFailed hs ref)

end Enters

end BaseClient

end LLMQore
