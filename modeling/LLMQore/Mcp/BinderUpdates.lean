import LLMQore.Mcp.McpToolBinder
import LLMQore.Reentrant.Implement

/-!
# LLMQore.Mcp.BinderUpdates

What the code of the binder does to the tools of its bindings.

Most of it leaves them alone, or clears one binding: timers and attempts come and go, and flags of
a binding change. Only the answer to a listing brings tools, and only `attach` a binding.
-/

namespace LLMQore.Mcp

open Reentrant McpTypes

namespace ToolBinder

/-! ### The tools a binding has -/

section Current

variable {s : ToolBinder} {binding : Binding}

theorem currentTools_eq (s : ToolBinder) (binding : Binding) : s.currentTools binding =
    binding.tools.foldl (fun current ref => (s.tools.lookup ref).elim current fun tool =>
      current.insert tool.id ref) ∅ := by
  unfold currentTools
  congr 1
  funext current ref
  cases s.tools.lookup ref <;> rfl

theorem currentTools_spec {name : String} {ref : ToolRef}
    (h : (s.currentTools binding).lookup name = some ref) :
    ref ∈ binding.tools ∧ ∃ tool, s.tools.lookup ref = some tool ∧ tool.id = name := by
  have hloop : ∀ (refs : List ToolRef) (current : AList (fun _ : String => ToolRef)),
      (refs.foldl (fun current ref => (s.tools.lookup ref).elim current fun tool =>
        current.insert tool.id ref) current).lookup name = some ref →
      current.lookup name = some ref ∨
        (ref ∈ refs ∧ ∃ tool, s.tools.lookup ref = some tool ∧ tool.id = name) := by
    intro refs
    induction refs with
    | nil => exact fun _ h => .inl h
    | cons r refs ih =>
        intro current h
        rcases ih _ h with h | ⟨hmem, htool⟩
        · dsimp only at h
          cases hr : s.tools.lookup r with
          | none =>
              rw [hr] at h
              exact .inl h
          | some tool =>
              rw [hr, Option.elim_some] at h
              by_cases hn : name = tool.id
              · rw [hn, AList.lookup_insert] at h
                obtain rfl := Option.some.inj h
                exact .inr ⟨List.mem_cons_self, tool, hr, hn.symm⟩
              · rw [AList.lookup_insert_ne hn] at h
                exact .inl h
        · exact .inr ⟨List.mem_cons_of_mem _ hmem, htool⟩
  rw [currentTools_eq] at h
  exact (hloop binding.tools ∅ h).resolve_left (by simp)

theorem currentTools_isSome {ref : ToolRef} (hmem : ref ∈ binding.tools) {tool : McpRemoteTool}
    (htool : s.tools.lookup ref = some tool) :
    ((s.currentTools binding).lookup tool.id).isSome := by
  have hloop : ∀ (refs : List ToolRef) (current : AList (fun _ : String => ToolRef)),
      ref ∈ refs ∨ (current.lookup tool.id).isSome →
      ((refs.foldl (fun current ref => (s.tools.lookup ref).elim current fun tool =>
        current.insert tool.id ref) current).lookup tool.id).isSome := by
    intro refs
    induction refs with
    | nil => exact fun _ h => h.resolve_left List.not_mem_nil
    | cons r refs ih =>
        intro current h
        refine ih _ ?_
        dsimp only
        rcases h with h | h
        · rcases List.mem_cons.mp h with rfl | h
          · right
            rw [htool, Option.elim_some, AList.lookup_insert]
            rfl
          · exact .inl h
        · right
          cases s.tools.lookup r with
          | none => exact h
          | some other =>
              rw [Option.elim_some]
              by_cases hn : tool.id = other.id
              · rw [hn, AList.lookup_insert]
                rfl
              · rwa [AList.lookup_insert_ne hn]
  rw [currentTools_eq]
  exact hloop binding.tools ∅ (.inl hmem)

end Current

/-! ### Updates -/

/-- An update that leaves the tools of the bindings and the registry alone. -/
structure SameTools (s s' : ToolBinder) : Prop where
  registry : s'.registry = s.registry
  tools : s'.tools = s.tools
  doomed : s'.doomed = s.doomed
  nextTool : s'.nextTool = s.nextTool
  history : s'.history = s.history
  alive : s'.alive = s.alive
  nextClient : s'.nextClient = s.nextClient
  bindings : ∀ c b', s'.bindings.lookup c = some b' →
    ∃ b, s.bindings.lookup c = some b ∧ b'.name = b.name ∧ b'.tools = b.tools
  mem : ∀ c b, s.bindings.lookup c = some b →
    ∃ b', s'.bindings.lookup c = some b' ∧ b'.tools = b.tools

section Updates

variable {s s' : ToolBinder}

theorem mem_of_lookup {client : ClientId} {binding : Binding}
    (h : s.bindings.lookup client = some binding) : client ∈ s.bindings :=
  AList.lookup_isSome.mp (by rw [h]; rfl)

theorem lookup_of_mem {client : ClientId} (h : client ∈ s.bindings) :
    ∃ binding, s.bindings.lookup client = some binding :=
  Option.isSome_iff_exists.mp (AList.lookup_isSome.mpr h)

/-- A change of a binding that keeps its name and its tools. -/
theorem sameTools_insert {client : ClientId} {binding b : Binding}
    (hb : s.bindings.lookup client = some binding) (hname : b.name = binding.name)
    (htools : b.tools = binding.tools) :
    SameTools s { s with bindings := s.bindings.insert client b } := by
  refine ⟨rfl, rfl, rfl, rfl, rfl, rfl, rfl, fun c b' hc => ?_, fun c b₀ hc => ?_⟩
  · have hc : (s.bindings.insert client b).lookup c = some b' := hc
    by_cases hcc : c = client
    · rw [hcc, AList.lookup_insert] at hc
      obtain rfl := Option.some.inj hc
      exact ⟨binding, hcc ▸ hb, hname, htools⟩
    · rw [AList.lookup_insert_ne hcc] at hc
      exact ⟨b', hc, rfl, rfl⟩
  · by_cases hcc : c = client
    · subst hcc
      obtain rfl := Option.some.inj (hb.symm.trans hc)
      exact ⟨b, AList.lookup_insert _, htools⟩
    · exact ⟨b₀, (AList.lookup_insert_ne hcc).trans hc, rfl⟩

theorem SameTools.trans {s₁ s₂ s₃ : ToolBinder} (h₁ : SameTools s₁ s₂) (h₂ : SameTools s₂ s₃) :
    SameTools s₁ s₃ where
  registry := h₂.registry.trans h₁.registry
  tools := h₂.tools.trans h₁.tools
  doomed := h₂.doomed.trans h₁.doomed
  nextTool := h₂.nextTool.trans h₁.nextTool
  history := h₂.history.trans h₁.history
  alive := h₂.alive.trans h₁.alive
  nextClient := h₂.nextClient.trans h₁.nextClient
  bindings c b'' hc := by
    obtain ⟨b', hb', hname', htools'⟩ := h₂.bindings c b'' hc
    obtain ⟨b, hb, hname, htools⟩ := h₁.bindings c b' hb'
    exact ⟨b, hb, hname'.trans hname, htools'.trans htools⟩
  mem c b hc := by
    obtain ⟨b', hb', htools'⟩ := h₁.mem c b hc
    obtain ⟨b'', hb'', htools⟩ := h₂.mem c b' hb'
    exact ⟨b'', hb'', htools.trans htools'⟩

/-- An update of neither the bindings, the tools nor the clients. -/
theorem SameTools.of_eq (hregistry : s'.registry = s.registry) (htools : s'.tools = s.tools)
    (hdoomed : s'.doomed = s.doomed) (hnext : s'.nextTool = s.nextTool)
    (hhistory : s'.history = s.history) (halive : s'.alive = s.alive)
    (hclient : s'.nextClient = s.nextClient) (hbindings : s'.bindings = s.bindings) :
    SameTools s s' :=
  ⟨hregistry, htools, hdoomed, hnext, hhistory, halive, hclient,
    fun _ b hc => ⟨b, hbindings ▸ hc, rfl, rfl⟩, fun _ b hc => ⟨b, hbindings.symm ▸ hc, rfl⟩⟩

theorem SameTools.refl (s : ToolBinder) : SameTools s s := .of_eq rfl rfl rfl rfl rfl rfl rfl rfl

theorem sameTools_scheduleReconnect (client : ClientId) (s : ToolBinder) :
    SameTools s (s.scheduleReconnect client) := by
  unfold ToolBinder.scheduleReconnect
  split
  · exact .refl s
  · rename_i binding hb
    split
    · exact .refl s
    · have hset := sameTools_insert (b := { binding with reconnectPending := true }) hb rfl rfl
      exact hset.trans (.of_eq rfl rfl rfl rfl rfl rfl rfl rfl)

theorem sameTools_updateBinding (client : ClientId) {f : Binding → Binding}
    (hname : ∀ b, (f b).name = b.name) (htools : ∀ b, (f b).tools = b.tools) (s : ToolBinder) :
    SameTools s (s.updateBinding client f) := by
  unfold ToolBinder.updateBinding
  split
  · exact .refl s
  · rename_i binding hb
    exact sameTools_insert hb (hname binding) (htools binding)

theorem sameTools_setPhase (attempt : AttemptId) (phase : AttemptPhase) (s : ToolBinder) :
    SameTools s (s.setPhase attempt phase) := by
  unfold ToolBinder.setPhase
  split
  · exact .refl s
  · exact .of_eq rfl rfl rfl rfl rfl rfl rfl rfl

theorem sameTools_initFailed (client : ClientId) (s : ToolBinder) :
    SameTools s (s.initFailed client) := by
  unfold ToolBinder.initFailed
  split
  · exact .refl s
  · have hcleared := sameTools_updateBinding client
      (f := fun b => { b with reconnectPending := false }) (fun _ => rfl) (fun _ => rfl) s
    dsimp only
    split
    · have hbacked := sameTools_updateBinding client
        (f := fun b => { b with backoffMs := min (b.backoffMs * 2) kMaxBackoffMs })
        (fun _ => rfl) (fun _ => rfl)
      exact (hcleared.trans (hbacked _)).trans (sameTools_scheduleReconnect client _)
    · exact hcleared

end Updates

/-- An update that leaves the tools of the bindings alone, once those of one may be cleared. -/
def Tidies (s s' : ToolBinder) : Prop :=
  SameTools s s' ∨ ∃ client, SameTools (s.clearTools client) s'

/-- Every property of the tools that clearing a binding keeps is kept. -/
theorem Tidies.keeps {I : ToolBinder → Prop} (hsame : ∀ s s', I s → SameTools s s' → I s')
    (hclear : ∀ s client, I s → I (s.clearTools client)) {s s' : ToolBinder} (hs : I s)
    (h : Tidies s s') : I s' := by
  rcases h with h | ⟨client, h⟩
  · exact hsame s s' hs h
  · exact hsame _ s' (hclear s client hs) h

/-! ### The code -/

section Code

/-- Code that brings no tools. -/
abbrev Tidy {α : Type} (p : Proc BinderSig α) : Prop :=
  p.Within Tidies fun _ => True

theorem tidy_composes : Composes (S := BinderSig) fun _ p => Tidy p := Proc.Within.composes

theorem tidy_query (e : BinderOut) : Tidy (Proc.query (S := BinderSig) e) :=
  Proc.Within.query (S := BinderSig) trivial

theorem tidy_same {f : ToolBinder → ToolBinder} (h : ∀ s, SameTools s (f s)) :
    Tidy (Proc.modify (S := BinderSig) f) :=
  Proc.Within.modify (S := BinderSig) fun s => .inl (h s)

theorem tidy_setPhase (attempt : AttemptId) (phase : AttemptPhase) :
    Tidy (Proc.modify (S := BinderSig) (setPhase attempt phase)) :=
  tidy_same fun s => sameTools_setPhase attempt phase s

theorem tidy_initializeClient (client : ClientId) : Tidy (initializeClient client) := by
  refine tidy_composes.bind (tidy_composes.reads _) fun attempt => ?_
  refine tidy_composes.bind (tidy_same fun s => ?_) fun _ => ?_
  · exact .of_eq rfl rfl rfl rfl rfl rfl rfl rfl
  · exact tidy_composes.bind (tidy_query _) fun _ => tidy_setPhase attempt .connecting

theorem tidy_resyncClient (client : ClientId) : Tidy (resyncClient client) := by
  refine tidy_composes.bind (tidy_composes.reads _) fun bindings => ?_
  cases bindings.lookup client with
  | none => exact tidy_composes.pure ()
  | some binding =>
      refine tidy_composes.bind (tidy_composes.reads _) fun listing => ?_
      refine tidy_composes.bind
        (tidy_same fun s => .of_eq rfl rfl rfl rfl rfl rfl rfl rfl) fun _ => ?_
      exact tidy_composes.bind (tidy_query _) fun _ =>
        tidy_same fun s => .of_eq rfl rfl rfl rfl rfl rfl rfl rfl

theorem tidy_onDisconnected (client : ClientId) : Tidy (onDisconnected client) := by
  refine tidy_composes.bind (tidy_composes.reads _) fun bindings => ?_
  cases bindings.lookup client with
  | none => exact tidy_composes.pure ()
  | some binding =>
      refine tidy_composes.bind (tidy_query _) fun _ => ?_
      refine tidy_composes.bind (tidy_composes.reads id) fun s => ?_
      cases s.bindings.lookup client with
      | none => exact tidy_composes.pure ()
      | some binding =>
          refine tidy_composes.ite _ (Proc.Within.modify (S := BinderSig) fun s => ?_)
            (tidy_composes.pure ())
          exact .inr ⟨client, sameTools_scheduleReconnect client _⟩

theorem tidy_onReconnectTimer (timer : TimerId) : Tidy (onReconnectTimer timer) := by
  refine tidy_composes.bind (tidy_composes.reads _) fun timers => ?_
  cases timers.lookup timer with
  | none => exact tidy_composes.pure ()
  | some client =>
      refine tidy_composes.bind
        (tidy_same fun s => .of_eq rfl rfl rfl rfl rfl rfl rfl rfl) fun _ => ?_
      refine tidy_composes.bind (tidy_composes.reads id) fun s => ?_
      exact tidy_composes.ite _ (tidy_composes.pure ()) (tidy_initializeClient client)

theorem tidy_onConnected (attempt : AttemptId) : Tidy (onConnected attempt) := by
  refine tidy_composes.bind (tidy_composes.reads id) fun s => ?_
  cases s.attempts.lookup attempt with
  | none => exact tidy_composes.pure ()
  | some a =>
      refine tidy_composes.ite _ (tidy_composes.pure ()) ?_
      refine tidy_composes.ite _ (tidy_setPhase attempt _) ?_
      exact tidy_composes.bind (tidy_setPhase attempt _) fun _ =>
        tidy_composes.bind (tidy_query _) fun _ => tidy_setPhase attempt _

theorem tidy_onInitFailed (attempt : AttemptId) (error : String) :
    Tidy (onInitFailed attempt error) := by
  refine tidy_composes.bind (tidy_composes.reads _) fun attempts => ?_
  cases attempts.lookup attempt with
  | none => exact tidy_composes.pure ()
  | some a =>
      refine tidy_composes.ite _ (tidy_composes.pure ()) ?_
      refine tidy_composes.bind (tidy_setPhase attempt _) fun _ => ?_
      refine tidy_composes.bind (tidy_query _) fun _ => tidy_same fun s => ?_
      have hended : SameTools s (s.endAttempt attempt) := .of_eq rfl rfl rfl rfl rfl rfl rfl rfl
      exact hended.trans (sameTools_initFailed a.client _)

theorem tidy_shutdown : Tidy shutdown := by
  have hclients : ∀ clients, Tidy (shutdownClients clients) := by
    intro clients
    induction clients with
    | nil => exact tidy_composes.pure ()
    | cons client rest ih =>
        refine tidy_composes.bind (tidy_composes.reads _) fun bindings => ?_
        cases bindings.lookup client with
        | none => exact ih
        | some binding =>
            exact tidy_composes.ite _ (tidy_composes.bind (tidy_query _) fun _ => ih) ih
  refine tidy_composes.bind
    (tidy_same fun s => .of_eq rfl rfl rfl rfl rfl rfl rfl rfl) fun _ => ?_
  exact tidy_composes.bind (tidy_composes.reads _) fun _ => hclients _

/-! The answers to listings. -/

section Answers

variable {I : ToolBinder → Prop} {ans : ToolBinder → (e : BinderOut) → BinderSig.Ans e → Prop}

/-- The contract of a property of the tools. -/
abbrev toolContract (I : ToolBinder → Prop) : Contract BinderSig := .plain I fun _ _ => True

theorem toolContract_preorder (I : ToolBinder → Prop) : (toolContract I).Preorder :=
  ⟨fun _ => trivial, fun _ _ => trivial⟩

/-- Code that brings no tools keeps what clearing a binding keeps. -/
theorem keeps_tidy (hsame : ∀ s s', I s → SameTools s s' → I s')
    (hclear : ∀ s client, I s → I (s.clearTools client)) {α : Type} {p : Proc BinderSig α}
    (h : Tidy p) : (toolContract I).Keeps ans p := by
  refine Proc.Within.keeps_plain (S := BinderSig) (fun s s' hs htidies => ?_) h
  exact Tidies.keeps hsame hclear hs htidies

theorem keepsAt_onListed (hsame : ∀ s s', I s → SameTools s s' → I s') {s : ToolBinder} (hs : I s)
    {attempt : AttemptId} {tools : List ToolInfo}
    (happly : ∀ a, s.attempts.lookup attempt = some a → ∀ s', I s' →
      I (s'.applyTools a.client tools)) :
    (toolContract I).KeepsAt ans (onListed attempt tools) s := by
  have hcomposes : Composes fun _ p => (toolContract I).Keeps ans p :=
    Contract.Keeps.composes (toolContract_preorder I)
  have hquery : ∀ e, (toolContract I).Keeps ans (Proc.query (S := BinderSig) e) := fun e =>
    Contract.Keeps.query (S := BinderSig) e
  refine Contract.KeepsAt.read ?_
  cases ha : s.attempts.lookup attempt with
  | none => exact hcomposes.pure () s hs
  | some a =>
      have hlist : (toolContract I).Keeps ans (if (s.guarded a.client).isNone then pure () else do
          Proc.modify (S := BinderSig) fun s =>
            (s.updateBinding a.client fun b =>
              { b with reconnectPending := false, backoffMs := kInitialBackoffMs }).applyTools
                a.client tools
          Proc.query (S := BinderSig) (.toolsSynced a.name tools.length)
          Proc.query (S := BinderSig) (.serverInitialized a.name)) := by
        refine hcomposes.ite _ (hcomposes.pure ()) ?_
        refine hcomposes.bind (Contract.Keeps.modify (S := BinderSig) fun s hs => ?_) fun _ => ?_
        · have hupdated := sameTools_updateBinding a.client
            (f := fun b => { b with reconnectPending := false, backoffMs := kInitialBackoffMs })
            (fun _ => rfl) (fun _ => rfl) s
          exact ⟨happly a ha _ (hsame _ _ hs hupdated), trivial⟩
        · exact hcomposes.bind (hquery _) fun _ => hquery _
      have hrest := hcomposes.ite (a.phase ≠ .listing) (hcomposes.pure ())
        (hcomposes.bind (Contract.Keeps.modify (S := BinderSig) (f := endAttempt attempt)
          fun s hs => ⟨hsame s _ hs (.of_eq rfl rfl rfl rfl rfl rfl rfl rfl), trivial⟩)
          fun _ => hlist)
      exact hrest s hs

theorem keepsAt_onResynced (hsame : ∀ s s', I s → SameTools s s' → I s') {s : ToolBinder}
    (hs : I s) {listing : ListingId} {tools : Option (List ToolInfo)}
    (happly : ∀ list, tools = some list → ∀ l, s.listings.lookup listing = some l → ∀ s', I s' →
      I (s'.applyTools l.client list)) :
    (toolContract I).KeepsAt ans (onResynced listing tools) s := by
  have hcomposes : Composes fun _ p => (toolContract I).Keeps ans p :=
    Contract.Keeps.composes (toolContract_preorder I)
  refine Contract.KeepsAt.read ?_
  cases hl : s.listings.lookup listing with
  | none => exact hcomposes.pure () s hs
  | some l =>
      have herased : (toolContract I).Keeps ans (Proc.modify (S := BinderSig)
          fun s => { s with listings := s.listings.erase listing }) :=
        Contract.Keeps.modify (S := BinderSig) fun s hs =>
          ⟨hsame s _ hs (.of_eq rfl rfl rfl rfl rfl rfl rfl rfl), trivial⟩
      cases tools with
      | none =>
          exact hcomposes.ite (l.busy = true) (hcomposes.pure ())
            (hcomposes.bind herased fun _ => hcomposes.pure ()) s hs
      | some list =>
          refine hcomposes.ite (l.busy = true) (hcomposes.pure ())
            (hcomposes.bind herased fun _ => hcomposes.ite _ (hcomposes.pure ()) ?_) s hs
          exact hcomposes.bind (Contract.Keeps.modify (S := BinderSig) fun s hs =>
            ⟨happly list rfl l hl s hs, trivial⟩) fun _ => Contract.Keeps.query (S := BinderSig) _

end Answers

end Code

end ToolBinder

end LLMQore.Mcp
