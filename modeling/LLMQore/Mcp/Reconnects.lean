import LLMQore.Mcp.McpToolBinder

/-!
# LLMQore.Mcp.Reconnects

The reconnect timers and the connection attempts of a binding.

A binding says with `reconnectPending` that a timer runs or the attempt it began goes on. The
first attempt of a binding begins without it, and the continuation of an attempt that has failed
clears it whatever it stands for. So a client that says it has disconnected while its first
attempt goes on is given a timer, and another when the attempt fails. What is proved is that
this is the only way to a second timer or attempt (`one_reconnect`).
-/

namespace LLMQore.Mcp

open Reentrant McpTypes

namespace ToolBinder

/-! ### What leaves the timers and attempts alone -/

/-- An update of the tools and the registry. -/
structure SameBindings (s s' : ToolBinder) : Prop where
  bindings : s'.bindings = s.bindings
  stopping : s'.stopping = s.stopping
  alive : s'.alive = s.alive
  timers : s'.timers = s.timers
  attempts : s'.attempts = s.attempts
  nextClient : s'.nextClient = s.nextClient
  nextAttempt : s'.nextAttempt = s.nextAttempt

theorem SameBindings.refl (s : ToolBinder) : SameBindings s s := ⟨rfl, rfl, rfl, rfl, rfl, rfl, rfl⟩

theorem SameBindings.trans {s₁ s₂ s₃ : ToolBinder} (h₁ : SameBindings s₁ s₂)
    (h₂ : SameBindings s₂ s₃) : SameBindings s₁ s₃ where
  bindings := h₂.bindings.trans h₁.bindings
  stopping := h₂.stopping.trans h₁.stopping
  alive := h₂.alive.trans h₁.alive
  timers := h₂.timers.trans h₁.timers
  attempts := h₂.attempts.trans h₁.attempts
  nextClient := h₂.nextClient.trans h₁.nextClient
  nextAttempt := h₂.nextAttempt.trans h₁.nextAttempt

/-- A loop whose body leaves the bindings alone does so. -/
theorem sameBindings_foldl {α : Type} {f : ToolBinder → α → ToolBinder}
    (h : ∀ s a, SameBindings s (f s a)) (xs : List α) (s : ToolBinder) :
    SameBindings s (xs.foldl f s) := by
  induction xs generalizing s with
  | nil => exact .refl s
  | cons x xs ih => exact (h s x).trans (ih (f s x))

theorem sameBindings_removeTool (name : String) (s : ToolBinder) :
    SameBindings s (s.removeTool name) := by
  unfold removeTool
  split
  · exact .refl s
  · exact ⟨rfl, rfl, rfl, rfl, rfl, rfl, rfl⟩

theorem sameBindings_clearTool (s : ToolBinder) (ref : ToolRef) :
    SameBindings s (s.clearTool ref) := by
  unfold clearTool
  split
  · exact .refl s
  · split
    · exact sameBindings_removeTool _ s
    · exact .refl s

theorem sameBindings_dropStale (incoming : List String) (s : ToolBinder)
    (entry : Sigma fun _ : String => ToolRef) : SameBindings s (dropStale incoming s entry) := by
  unfold dropStale
  split
  · exact sameBindings_removeTool _ s
  · exact .refl s

theorem sameBindings_addTool (tool : McpRemoteTool) (s : ToolBinder) :
    SameBindings s (s.addTool tool) := ⟨rfl, rfl, rfl, rfl, rfl, rfl, rfl⟩

theorem sameBindings_applyTool (client : ClientId) (binding : Binding)
    (current : AList (fun _ : String => ToolRef)) (acc : ToolBinder × List ToolRef)
    (info : ToolInfo) : SameBindings acc.1 (applyTool client binding current acc info).1 := by
  unfold applyTool
  dsimp only
  split
  · exact .refl _
  · split
    · exact .refl _
    · refine SameBindings.trans ?_ (sameBindings_addTool _ _)
      split
      · exact sameBindings_removeTool _ _
      · exact .refl _

theorem sameBindings_applyTools_loop (client : ClientId) (binding : Binding)
    (current : AList (fun _ : String => ToolRef)) (tools : List ToolInfo)
    (acc : ToolBinder × List ToolRef) :
    SameBindings acc.1 (tools.foldl (applyTool client binding current) acc).1 := by
  induction tools generalizing acc with
  | nil => exact .refl _
  | cons info tools ih =>
      exact (sameBindings_applyTool client binding current acc info).trans (ih _)

/-- No timer runs for the client, and no attempt goes on. -/
def Quiet (s : ToolBinder) (client : ClientId) : Prop :=
  (∀ t, s.timers.lookup t ≠ some client) ∧
    ∀ k a, s.attempts.lookup k = some a → a.client ≠ client

/-- At most one reconnect timer runs for each client, and at most one of its attempts goes on. -/
def OneReconnect (s : ToolBinder) : Prop :=
  ∀ client,
    (∀ t₁ t₂, s.timers.lookup t₁ = some client → s.timers.lookup t₂ = some client → t₁ = t₂) ∧
      ∀ k₁ k₂ a₁ a₂, s.attempts.lookup k₁ = some a₁ → s.attempts.lookup k₂ = some a₂ →
        a₁.client = client → a₂.client = client → k₁ = k₂

/-- A binding that connects again by itself, and that has no reconnect pending, has no timer and
no attempt. -/
def Steady (s : ToolBinder) (client : ClientId) : Prop :=
  ∀ binding, s.bindings.lookup client = some binding → binding.autoReconnect = true →
    binding.reconnectPending = false → s.stopping = false → s.Quiet client

end ToolBinder

/-- Whenever a client says it has disconnected, its binding is steady by the time the slots of
`serverDisconnected` have returned. -/
def steady : Surroundings binderMachine :=
  .guarded binderMachine (fun _ _ => True) fun s e _ => match e with
    | .serverDisconnected client _ => s.Steady client
    | _ => True

namespace ToolBinder

/-! ### The contract -/

structure ReconnectInv (s : ToolBinder) : Prop where
  one : s.OneReconnect
  apart : ∀ t k a, s.attempts.lookup k = some a → s.timers.lookup t ≠ some a.client
  timed : ∀ t client, s.timers.lookup t = some client → client < s.nextClient
  tried : ∀ k a, s.attempts.lookup k = some a → k < s.nextAttempt ∧ a.client < s.nextClient
  alive : ∀ client ∈ s.alive, client < s.nextClient
  bound : ∀ client ∈ s.bindings, client < s.nextClient

/-- An attempt whose code runs is left alone by others. -/
structure ReconnectRely (s s' : ToolBinder) : Prop where
  nextAttempt : s.nextAttempt ≤ s'.nextAttempt
  busy : ∀ k a, s.attempts.lookup k = some a → a.phase = .busy → s'.attempts.lookup k = some a

theorem ReconnectRely.refl (s : ToolBinder) : ReconnectRely s s := ⟨Nat.le_refl _, fun _ _ h _ => h⟩

theorem ReconnectRely.trans {s₁ s₂ s₃ : ToolBinder} (h₁ : ReconnectRely s₁ s₂)
    (h₂ : ReconnectRely s₂ s₃) : ReconnectRely s₁ s₃ where
  nextAttempt := h₁.nextAttempt.trans h₂.nextAttempt
  busy k a hk hbusy := h₂.busy k a (h₁.busy k a hk hbusy) hbusy

def reconnectContract : Contract BinderSig := .plain ReconnectInv ReconnectRely

theorem reconnectContract_preorder : reconnectContract.Preorder := ⟨.refl, fun h₁ h₂ => h₁.trans h₂⟩

/-- An update that leaves the timers and the attempts alone. -/
theorem ReconnectInv.same {s t : ToolBinder} (hs : ReconnectInv s) (htimers : t.timers = s.timers)
    (hattempts : t.attempts = s.attempts) (hclient : t.nextClient = s.nextClient)
    (hattempt : t.nextAttempt = s.nextAttempt) (halive : ∀ c ∈ t.alive, c ∈ s.alive)
    (hbound : ∀ c ∈ t.bindings, c ∈ s.bindings ∨ c ∈ s.alive) :
    ReconnectInv t ∧ ReconnectRely s t := by
  refine ⟨⟨?_, ?_, ?_, ?_, fun c hc => ?_, fun c hc => ?_⟩, hattempt.ge, ?_⟩
  · rw [OneReconnect, htimers, hattempts]
    exact hs.one
  · rw [htimers, hattempts]
    exact hs.apart
  · rw [htimers, hclient]
    exact hs.timed
  · rw [hattempts, hclient, hattempt]
    exact hs.tried
  · rw [hclient]
    exact hs.alive c (halive c hc)
  · rw [hclient]
    exact (hbound c hc).elim (hs.bound c) (hs.alive c)
  · rw [hattempts]
    exact fun _ _ h _ => h

theorem ReconnectInv.sameBindings {s s' : ToolBinder} (hs : ReconnectInv s)
    (h : SameBindings s s') : ReconnectInv s' ∧ ReconnectRely s s' :=
  hs.same h.timers h.attempts h.nextClient h.nextAttempt (by rw [h.alive]; exact fun _ hc => hc)
    (by rw [h.bindings]; exact fun _ hc => .inl hc)

/-- A timer is started for a client that has no other and no attempt. -/
theorem ReconnectInv.startTimer {s : ToolBinder} (hs : ReconnectInv s) {client : ClientId}
    (hquiet : s.Quiet client) (hclient : client < s.nextClient) (t : TimerId) (n : TimerId) :
    ReconnectInv { s with timers := s.timers.insert t client, nextTimer := n } ∧
      ReconnectRely s { s with timers := s.timers.insert t client, nextTimer := n } := by
  have hlookup : ∀ {t' c}, (s.timers.insert t client).lookup t' = some c →
      (t' = t ∧ c = client) ∨ s.timers.lookup t' = some c := by
    intro t' c h
    by_cases ht : t' = t
    · subst ht
      rw [AList.lookup_insert] at h
      exact .inl ⟨rfl, (Option.some.inj h).symm⟩
    · exact .inr ((AList.lookup_insert_ne ht).symm.trans h)
  refine ⟨⟨fun c => ⟨fun t₁ t₂ h₁ h₂ => ?_, (hs.one c).2⟩, fun t' k a hk ht' => ?_,
    fun t' c h => ?_, hs.tried, hs.alive, hs.bound⟩, Nat.le_refl _, fun _ _ h _ => h⟩
  · rcases hlookup h₁ with ⟨rfl, rfl⟩ | hold₁
    · rcases hlookup h₂ with ⟨rfl, -⟩ | hold₂
      · rfl
      · exact absurd hold₂ (hquiet.1 t₂)
    · rcases hlookup h₂ with ⟨rfl, rfl⟩ | hold₂
      · exact absurd hold₁ (hquiet.1 t₁)
      · exact (hs.one c).1 t₁ t₂ hold₁ hold₂
  · rcases hlookup ht' with ⟨-, hc⟩ | ht'
    · exact hquiet.2 k a hk hc
    · exact hs.apart t' k a hk ht'
  · rcases hlookup h with ⟨-, rfl⟩ | h
    · exact hclient
    · exact hs.timed t' c h

/-- A timer fires. -/
theorem ReconnectInv.dropTimer {s : ToolBinder} (hs : ReconnectInv s) (t : TimerId) :
    ReconnectInv { s with timers := s.timers.erase t } ∧
      ReconnectRely s { s with timers := s.timers.erase t } := by
  have hlookup : ∀ {t' c}, (s.timers.erase t).lookup t' = some c →
      s.timers.lookup t' = some c := by
    intro t' c h
    by_cases ht : t' = t
    · rw [ht, AList.lookup_erase] at h
      cases h
    · exact (AList.lookup_erase_ne ht).symm.trans h
  exact ⟨⟨fun c => ⟨fun t₁ t₂ h₁ h₂ => (hs.one c).1 t₁ t₂ (hlookup h₁) (hlookup h₂), (hs.one c).2⟩,
    fun t' k a hk ht' => hs.apart t' k a hk (hlookup ht'), fun t' c h => hs.timed t' c (hlookup h),
    hs.tried, hs.alive, hs.bound⟩, Nat.le_refl _, fun _ _ h _ => h⟩

/-- The client of a timer that fires has nothing else. -/
theorem ReconnectInv.quiet_dropTimer {s : ToolBinder} (hs : ReconnectInv s) {t : TimerId}
    {client : ClientId} (ht : s.timers.lookup t = some client) :
    Quiet { s with timers := s.timers.erase t } client := by
  refine ⟨fun t' h => ?_, fun k a hk hc => hs.apart t k a hk (hc ▸ ht)⟩
  have h : (s.timers.erase t).lookup t' = some client := h
  by_cases heq : t' = t
  · rw [heq, AList.lookup_erase] at h
    cases h
  · rw [AList.lookup_erase_ne heq] at h
    exact heq ((hs.one client).1 t' t h ht)

/-- An attempt begins for a client that has no other and no timer. -/
theorem ReconnectInv.begin {s : ToolBinder} (hs : ReconnectInv s) {client : ClientId}
    (hquiet : s.Quiet client) (hclient : client < s.nextClient) :
    ReconnectInv (s.beginAttempt client) ∧ ReconnectRely s (s.beginAttempt client) := by
  generalize hname : ((s.bindings.lookup client).map (·.name)).getD "" = name
  have heq : s.beginAttempt client =
      { s with
        nextAttempt := s.nextAttempt + 1
        attempts := s.attempts.insert s.nextAttempt ⟨client, name, .busy⟩ } := by
    rw [← hname]
    rfl
  rw [heq]
  have hlookup : ∀ {k a}, (s.attempts.insert s.nextAttempt ⟨client, name, .busy⟩).lookup k =
      some a → (k = s.nextAttempt ∧ a.client = client) ∨ s.attempts.lookup k = some a := by
    intro k a h
    by_cases hk : k = s.nextAttempt
    · subst hk
      rw [AList.lookup_insert] at h
      exact .inl ⟨rfl, congrArg Attempt.client (Option.some.inj h).symm⟩
    · exact .inr ((AList.lookup_insert_ne hk).symm.trans h)
  refine ⟨⟨fun c => ⟨(hs.one c).1, fun k₁ k₂ a₁ a₂ h₁ h₂ hc₁ hc₂ => ?_⟩, fun t k a hk ht => ?_,
    hs.timed, fun k a hk => ?_, hs.alive, hs.bound⟩, Nat.le_succ _, fun k a hk _ => ?_⟩
  · rcases hlookup h₁ with ⟨rfl, hnew⟩ | h₁
    · rcases hlookup h₂ with ⟨rfl, -⟩ | h₂
      · rfl
      · exact absurd (hc₂.trans (hc₁.symm.trans hnew)) (hquiet.2 k₂ a₂ h₂)
    · rcases hlookup h₂ with ⟨rfl, hnew⟩ | h₂
      · exact absurd (hc₁.trans (hc₂.symm.trans hnew)) (hquiet.2 k₁ a₁ h₁)
      · exact (hs.one c).2 k₁ k₂ a₁ a₂ h₁ h₂ hc₁ hc₂
  · rcases hlookup hk with ⟨-, hnew⟩ | hk
    · exact hquiet.1 t (hnew ▸ ht)
    · exact hs.apart t k a hk ht
  · rcases hlookup hk with ⟨rfl, hnew⟩ | hk
    · exact ⟨Nat.lt_succ_self _, hnew ▸ hclient⟩
    · exact ⟨(hs.tried k a hk).1.trans (Nat.lt_succ_self _), (hs.tried k a hk).2⟩
  · exact (AList.lookup_insert_ne (hs.tried k a hk).1.ne).trans hk

theorem lookup_setPhase {s : ToolBinder} {attempt k : AttemptId} {phase : AttemptPhase}
    {a : Attempt} (h : (s.setPhase attempt phase).attempts.lookup k = some a) :
    ∃ a₀, s.attempts.lookup k = some a₀ ∧ a.client = a₀.client := by
  unfold setPhase at h
  split at h
  · exact ⟨a, h, rfl⟩
  · rename_i a₀ h₀
    have h : (s.attempts.insert attempt { a₀ with phase }).lookup k = some a := h
    by_cases hk : k = attempt
    · subst hk
      rw [AList.lookup_insert] at h
      exact ⟨a₀, h₀, (congrArg Attempt.client (Option.some.inj h)).symm⟩
    · exact ⟨a, (AList.lookup_insert_ne hk).symm.trans h, rfl⟩

theorem setPhase_other (attempt : AttemptId) (phase : AttemptPhase) (s : ToolBinder) :
    (s.setPhase attempt phase).timers = s.timers ∧
      (s.setPhase attempt phase).nextClient = s.nextClient ∧
      (s.setPhase attempt phase).nextAttempt = s.nextAttempt ∧
      (s.setPhase attempt phase).alive = s.alive ∧
      (s.setPhase attempt phase).bindings = s.bindings := by
  unfold setPhase
  split
  · exact ⟨rfl, rfl, rfl, rfl, rfl⟩
  · exact ⟨rfl, rfl, rfl, rfl, rfl⟩

/-- An attempt goes on. -/
theorem ReconnectInv.setPhase {s : ToolBinder} (hs : ReconnectInv s) (attempt : AttemptId)
    (phase : AttemptPhase) : ReconnectInv (s.setPhase attempt phase) := by
  obtain ⟨htimers, hclient, hnext, halive, hbindings⟩ := setPhase_other attempt phase s
  refine ⟨fun c => ⟨?_, fun k₁ k₂ a₁ a₂ h₁ h₂ hc₁ hc₂ => ?_⟩, fun t k a hk => ?_, ?_,
    fun k a hk => ?_, ?_, ?_⟩
  · rw [htimers]
    exact (hs.one c).1
  · obtain ⟨b₁, hb₁, he₁⟩ := lookup_setPhase h₁
    obtain ⟨b₂, hb₂, he₂⟩ := lookup_setPhase h₂
    exact (hs.one c).2 k₁ k₂ b₁ b₂ hb₁ hb₂ (he₁.symm.trans hc₁) (he₂.symm.trans hc₂)
  · obtain ⟨b, hb, he⟩ := lookup_setPhase hk
    rw [htimers, he]
    exact hs.apart t k b hb
  · rw [htimers, hclient]
    exact hs.timed
  · obtain ⟨b, hb, he⟩ := lookup_setPhase hk
    rw [hclient, hnext, he]
    exact hs.tried k b hb
  · rw [halive, hclient]
    exact hs.alive
  · rw [hbindings, hclient]
    exact hs.bound

/-- The attempts whose code runs are left alone where the attempt that goes on is not one of
them. -/
theorem setPhase_rely {s₀ s : ToolBinder} {attempt : AttemptId} (phase : AttemptPhase)
    (hr : ReconnectRely s₀ s)
    (hidle : ∀ a, s₀.attempts.lookup attempt = some a → a.phase ≠ .busy) :
    ReconnectRely s₀ (s.setPhase attempt phase) := by
  refine ⟨hr.nextAttempt.trans (setPhase_other attempt phase s).2.2.1.ge, fun k a hk hbusy => ?_⟩
  have hne : k ≠ attempt := by
    rintro rfl
    exact hidle a hk hbusy
  have hlater := hr.busy k a hk hbusy
  unfold ToolBinder.setPhase
  split
  · exact hlater
  · exact (AList.lookup_insert_ne hne).trans hlater

theorem lookup_endAttempt {s : ToolBinder} {attempt k : AttemptId} {a : Attempt}
    (h : (s.endAttempt attempt).attempts.lookup k = some a) :
    k ≠ attempt ∧ s.attempts.lookup k = some a := by
  have h : (s.attempts.erase attempt).lookup k = some a := h
  by_cases hk : k = attempt
  · rw [hk, AList.lookup_erase] at h
    cases h
  · exact ⟨hk, (AList.lookup_erase_ne hk).symm.trans h⟩

/-- An attempt ends. -/
theorem ReconnectInv.endAttempt {s : ToolBinder} (hs : ReconnectInv s) (attempt : AttemptId) :
    ReconnectInv (s.endAttempt attempt) where
  one c := ⟨(hs.one c).1, fun k₁ k₂ a₁ a₂ h₁ h₂ hc₁ hc₂ =>
    (hs.one c).2 k₁ k₂ a₁ a₂ (lookup_endAttempt h₁).2 (lookup_endAttempt h₂).2 hc₁ hc₂⟩
  apart t k a hk := hs.apart t k a (lookup_endAttempt hk).2
  timed := hs.timed
  tried k a hk := hs.tried k a (lookup_endAttempt hk).2
  alive := hs.alive
  bound := hs.bound

theorem endAttempt_rely {s₀ s : ToolBinder} {attempt : AttemptId} (hr : ReconnectRely s₀ s)
    (hidle : ∀ a, s₀.attempts.lookup attempt = some a → a.phase ≠ .busy) :
    ReconnectRely s₀ (s.endAttempt attempt) := by
  refine ⟨hr.nextAttempt, fun k a hk hbusy => ?_⟩
  have hne : k ≠ attempt := by
    rintro rfl
    exact hidle a hk hbusy
  exact (AList.lookup_erase_ne hne).trans (hr.busy k a hk hbusy)

/-- The client of an attempt that has ended has nothing else. -/
theorem ReconnectInv.quiet_endAttempt {s : ToolBinder} (hs : ReconnectInv s) {attempt : AttemptId}
    {a : Attempt} (ha : s.attempts.lookup attempt = some a) :
    (s.endAttempt attempt).Quiet a.client := by
  refine ⟨fun t => hs.apart t attempt a ha, fun k b hk hc => ?_⟩
  obtain ⟨hne, hk⟩ := lookup_endAttempt hk
  exact hne ((hs.one a.client).2 k attempt b a hk ha hc rfl)

/-! ### The code -/

abbrev KeepsReconnect {α : Type} (p : Proc BinderSig α) : Prop :=
  reconnectContract.Keeps steady.answer p

abbrev KeepsReconnectAt {α : Type} (p : Proc BinderSig α) (s : ToolBinder) : Prop :=
  reconnectContract.KeepsAt steady.answer p s

theorem keepsReconnect_composes : Composes (S := BinderSig) fun _ p => KeepsReconnect p :=
  Contract.Keeps.composes reconnectContract_preorder

theorem keepsReconnect_query (e : BinderOut) : KeepsReconnect (Proc.query (S := BinderSig) e) :=
  Contract.Keeps.query (S := BinderSig) e

/-- `initializeClient`, of a client that has no timer and no attempt. -/
theorem keepsReconnect_initializeClient {s : ToolBinder} (hs : ReconnectInv s) {client : ClientId}
    (hquiet : s.Quiet client) (hclient : client < s.nextClient) :
    KeepsReconnectAt (initializeClient client) s := by
  obtain ⟨hbegun, hr⟩ := hs.begin hquiet hclient
  refine ⟨hbegun, fun s₁ (hr₁ : ReconnectRely _ s₁) (hs₁ : ReconnectInv s₁) _ _ => ?_⟩
  have hrely : ReconnectRely s s₁ := hr.trans hr₁
  refine ⟨hs₁.setPhase _ _, setPhase_rely _ hrely fun a ha => ?_⟩
  exact absurd (hs.tried _ a ha).1 (Nat.lt_irrefl _)

theorem keepsReconnect_resyncClient (client : ClientId) : KeepsReconnect (resyncClient client) := by
  refine keepsReconnect_composes.bind (keepsReconnect_composes.reads _) fun bindings => ?_
  cases bindings.lookup client with
  | none => exact keepsReconnect_composes.pure ()
  | some binding =>
      have hlisting : ∀ f : ToolBinder → ToolBinder, (∀ s, SameBindings s (f s)) →
          KeepsReconnect (Proc.modify (S := BinderSig) f) :=
        fun f h s hs => ReconnectInv.sameBindings hs (h s)
      refine keepsReconnect_composes.bind (keepsReconnect_composes.reads _) fun listing => ?_
      refine keepsReconnect_composes.bind (hlisting _ fun s => ⟨rfl, rfl, rfl, rfl, rfl, rfl, rfl⟩)
        fun _ => keepsReconnect_composes.bind (keepsReconnect_query _) fun _ => ?_
      exact hlisting _ fun s => ⟨rfl, rfl, rfl, rfl, rfl, rfl, rfl⟩

theorem mem_bindings_insert {s : ToolBinder} {client : ClientId} {binding b : Binding}
    (h : s.bindings.lookup client = some b) {c : ClientId}
    (hc : c ∈ s.bindings.insert client binding) : c ∈ s.bindings := by
  rcases (AList.mem_insert _).mp hc with rfl | hc
  · exact AList.lookup_isSome.mp (by rw [h]; rfl)
  · exact hc

/-- What becomes of the tools of a binding leaves the timers and the attempts alone. -/
theorem ReconnectInv.tools {s s' : ToolBinder} (hs : ReconnectInv s) (h : SameBindings s s')
    {client : ClientId} {b : Binding} (hb : s.bindings.lookup client = some b) (binding : Binding)
    (history : List BinderObservation) :
    ReconnectInv { s' with bindings := s.bindings.insert client binding, history } ∧
      ReconnectRely s { s' with bindings := s.bindings.insert client binding, history } :=
  hs.same h.timers h.attempts h.nextClient h.nextAttempt
    (fun c hc => by
      have hc : c ∈ s'.alive := hc
      rwa [h.alive] at hc)
    fun _ hc => .inl (mem_bindings_insert hb hc)

theorem ReconnectInv.clearTools {s : ToolBinder} (hs : ReconnectInv s) (client : ClientId) :
    ReconnectInv (s.clearTools client) ∧ ReconnectRely s (s.clearTools client) := by
  unfold ToolBinder.clearTools
  split
  · exact ⟨hs, .refl s⟩
  · rename_i binding hb
    exact hs.tools (sameBindings_foldl sameBindings_clearTool _ _) hb _ _

theorem ReconnectInv.applyTools {s : ToolBinder} (hs : ReconnectInv s) (client : ClientId)
    (tools : List ToolInfo) :
    ReconnectInv (s.applyTools client tools) ∧ ReconnectRely s (s.applyTools client tools) := by
  unfold ToolBinder.applyTools
  split
  · exact ⟨hs, .refl s⟩
  · rename_i binding hb
    have hloop := sameBindings_applyTools_loop client binding (s.currentTools binding) tools (s, [])
    exact hs.tools (hloop.trans (sameBindings_foldl (sameBindings_dropStale _) _ _)) hb _ _

theorem ReconnectInv.updateBinding {s : ToolBinder} (hs : ReconnectInv s) (client : ClientId)
    (f : Binding → Binding) :
    ReconnectInv (s.updateBinding client f) ∧ ReconnectRely s (s.updateBinding client f) := by
  unfold ToolBinder.updateBinding
  split
  · exact ⟨hs, .refl s⟩
  · rename_i binding hb
    exact hs.tools (.refl s) hb _ _

theorem ReconnectInv.removeClient {s : ToolBinder} (hs : ReconnectInv s) (client : ClientId) :
    ReconnectInv (s.removeClient client) ∧ ReconnectRely s (s.removeClient client) := by
  unfold ToolBinder.removeClient
  split
  · exact ⟨hs, .refl s⟩
  · obtain ⟨hcleared, hr⟩ := hs.clearTools client
    obtain ⟨herased, hr'⟩ := hcleared.same (t := { s.clearTools client with
      bindings := (s.clearTools client).bindings.erase client }) rfl rfl rfl rfl
      (fun _ hc => hc) fun _ hc => .inl (AList.mem_erase.mp hc).2
    exact ⟨herased, hr.trans hr'⟩

/-- `scheduleReconnect`, where the client has no timer and no attempt if its binding has no
reconnect pending. -/
theorem ReconnectInv.scheduleReconnect {s : ToolBinder} (hs : ReconnectInv s) (client : ClientId)
    (hquiet : ∀ b, s.bindings.lookup client = some b → b.reconnectPending = false →
      s.stopping = false → s.Quiet client) :
    ReconnectInv (s.scheduleReconnect client) ∧ ReconnectRely s (s.scheduleReconnect client) := by
  unfold ToolBinder.scheduleReconnect
  split
  · exact ⟨hs, .refl s⟩
  · rename_i binding hb
    split
    · exact ⟨hs, .refl s⟩
    · rename_i hfree
      obtain ⟨hpending, hstopping⟩ : binding.reconnectPending = false ∧ s.stopping = false := by
        simpa using hfree
      have hbound : client < s.nextClient :=
        hs.bound client (AList.lookup_isSome.mp (by rw [hb]; rfl))
      obtain ⟨htimed, hr⟩ := hs.startTimer (hquiet binding hb hpending hstopping) hbound
        s.nextTimer (s.nextTimer + 1)
      obtain ⟨hset, hr'⟩ := htimed.tools (.refl _) hb
        { binding with reconnectPending := true } s.history
      exact ⟨hset, hr.trans hr'⟩

/-- What is left to do of an attempt that has failed and ended. -/
theorem ReconnectInv.initFailed {s : ToolBinder} (hs : ReconnectInv s) {client : ClientId}
    (hquiet : s.Quiet client) :
    ReconnectInv (s.initFailed client) ∧ ReconnectRely s (s.initFailed client) := by
  have hupdate : ∀ f s, (ToolBinder.updateBinding client f s).timers = s.timers ∧
      (ToolBinder.updateBinding client f s).attempts = s.attempts := by
    intro f s
    unfold ToolBinder.updateBinding
    split
    · exact ⟨rfl, rfl⟩
    · exact ⟨rfl, rfl⟩
  unfold ToolBinder.initFailed
  split
  · exact ⟨hs, .refl s⟩
  · obtain ⟨hcleared, hr₁⟩ := hs.updateBinding client fun b => { b with reconnectPending := false }
    dsimp only
    split
    · obtain ⟨hbacked, hr₂⟩ := hcleared.updateBinding client fun b =>
        { b with backoffMs := min (b.backoffMs * 2) kMaxBackoffMs }
      obtain ⟨hscheduled, hr₃⟩ := hbacked.scheduleReconnect client fun _ _ _ _ => by
        rw [Quiet, (hupdate _ _).1, (hupdate _ _).1, (hupdate _ _).2, (hupdate _ _).2]
        exact hquiet
      exact ⟨hscheduled, (hr₁.trans hr₂).trans hr₃⟩
    · exact ⟨hcleared, hr₁⟩

/-- What `clearTools` leaves of a binding. -/
theorem clearTools_eq {s : ToolBinder} {client : ClientId} {binding : Binding}
    (hb : s.bindings.lookup client = some binding) :
    (s.clearTools client).bindings.lookup client = some { binding with tools := [] } ∧
      (s.clearTools client).stopping = s.stopping ∧ (s.clearTools client).timers = s.timers ∧
      (s.clearTools client).attempts = s.attempts := by
  have hsame := sameBindings_foldl sameBindings_clearTool binding.tools s
  unfold ToolBinder.clearTools
  rw [hb]
  exact ⟨AList.lookup_insert _, hsame.stopping, hsame.timers, hsame.attempts⟩

/-! ### The events -/

theorem keepsReconnect_onDisconnected (client : ClientId) :
    KeepsReconnect (onDisconnected client) := by
  refine keepsReconnect_composes.bind (keepsReconnect_composes.reads _) fun bindings => ?_
  cases bindings.lookup client with
  | none => exact keepsReconnect_composes.pure ()
  | some binding =>
      refine fun s hs => ⟨hs, fun s₁ (hr₁ : ReconnectRely s s₁) (hs₁ : ReconnectInv s₁) _
        (hsteady : s₁.Steady client) => ?_⟩
      refine Contract.KeepsAt.after reconnectContract_preorder ⟨hs₁, hr₁⟩ ?_
      refine wp_of_read ?_
      cases hb : s₁.bindings.lookup client with
      | none => exact keepsReconnect_composes.pure () s₁ hs₁
      | some binding =>
          refine (wp_ite (S := BinderSig) _ _ _ _ _).mpr ⟨fun hauto => ?_, fun _ =>
            keepsReconnect_composes.pure () s₁ hs₁⟩
          obtain ⟨hreconnects, -⟩ := Bool.and_eq_true_iff.mp hauto
          obtain ⟨hcleared, hr₂⟩ := hs₁.clearTools client
          obtain ⟨hlookup, hstopping, htimers, hattempts⟩ := clearTools_eq hb
          obtain ⟨hscheduled, hr₃⟩ := hcleared.scheduleReconnect client
            fun b hb' hpending hnot => by
              obtain rfl := Option.some.inj (hlookup.symm.trans hb')
              rw [Quiet, htimers, hattempts]
              exact hsteady binding hb hreconnects hpending (hstopping.symm.trans hnot)
          exact ⟨hscheduled, hr₂.trans hr₃⟩

theorem keepsReconnect_onReconnectTimer (timer : TimerId) :
    KeepsReconnect (onReconnectTimer timer) := by
  intro s hs
  refine wp_of_reads ?_
  dsimp only
  cases ht : s.timers.lookup timer with
  | none => exact keepsReconnect_composes.pure () s hs
  | some client =>
      have hdropped := ReconnectInv.dropTimer hs timer
      have hquiet := ReconnectInv.quiet_dropTimer hs ht
      have hrest : KeepsReconnectAt (if s.stopping ∨ client ∉ s.alive ∨ client ∉ s.bindings then
          pure () else initializeClient client) { s with timers := s.timers.erase timer } :=
        (wp_ite (S := BinderSig) _ _ _ _ _).mpr
          ⟨fun _ => keepsReconnect_composes.pure () _ hdropped.1, fun _ =>
            keepsReconnect_initializeClient hdropped.1 hquiet (hs.timed timer client ht)⟩
      have hvisit := Contract.KeepsAt.after reconnectContract_preorder hdropped hrest
      exact hvisit

theorem keepsReconnect_onConnected (attempt : AttemptId) : KeepsReconnect (onConnected attempt) := by
  intro s hs
  refine wp_of_read ?_
  cases ha : s.attempts.lookup attempt with
  | none => exact keepsReconnect_composes.pure () s hs
  | some a =>
      refine (wp_ite (S := BinderSig) _ _ _ _ _).mpr
        ⟨fun _ => keepsReconnect_composes.pure () s hs, fun hphase => ?_⟩
      have hphase : a.phase = .connecting := not_not.mp hphase
      have hidle : ∀ b, s.attempts.lookup attempt = some b → b.phase ≠ .busy := by
        intro b hb hbusy
        obtain rfl := Option.some.inj (ha.symm.trans hb)
        exact absurd (hphase.symm.trans hbusy) nofun
      refine (wp_ite (S := BinderSig) _ _ _ _ _).mpr ⟨fun _ => ?_, fun _ => ?_⟩
      · exact ⟨hs.setPhase _ _, setPhase_rely _ (.refl s) hidle⟩
      · have hr := setPhase_rely .busy (.refl s) hidle
        refine ⟨hs.setPhase attempt .busy, fun s₁ (hr₁ : ReconnectRely _ s₁)
          (hs₁ : ReconnectInv s₁) _ _ => ?_⟩
        exact ⟨hs₁.setPhase _ _, setPhase_rely _ (hr.trans hr₁) hidle⟩

theorem keepsReconnect_onListed (attempt : AttemptId) (tools : List ToolInfo) :
    KeepsReconnect (onListed attempt tools) := by
  intro s hs
  refine wp_of_read ?_
  cases ha : s.attempts.lookup attempt with
  | none => exact keepsReconnect_composes.pure () s hs
  | some a =>
      refine (wp_ite (S := BinderSig) _ _ _ _ _).mpr
        ⟨fun _ => keepsReconnect_composes.pure () s hs, fun hphase => ?_⟩
      have hphase : a.phase = .listing := not_not.mp hphase
      have hended : ReconnectInv (s.endAttempt attempt) := hs.endAttempt attempt
      have hr : ReconnectRely s (s.endAttempt attempt) := by
        refine endAttempt_rely (.refl s) fun b hb hbusy => ?_
        obtain rfl := Option.some.inj (ha.symm.trans hb)
        exact absurd (hphase.symm.trans hbusy) nofun
      have happly : KeepsReconnect (Proc.modify (S := BinderSig) fun s =>
          (s.updateBinding a.client fun b =>
            { b with reconnectPending := false, backoffMs := kInitialBackoffMs }).applyTools
              a.client tools) := by
        intro s hs
        obtain ⟨hupdated, hr₁⟩ := ReconnectInv.updateBinding hs a.client fun b =>
          { b with reconnectPending := false, backoffMs := kInitialBackoffMs }
        obtain ⟨happlied, hr₂⟩ := hupdated.applyTools a.client tools
        exact ⟨happlied, hr₁.trans hr₂⟩
      have hrest : KeepsReconnectAt (if (s.guarded a.client).isNone then pure () else do
          Proc.modify (S := BinderSig) fun s =>
            (s.updateBinding a.client fun b =>
              { b with reconnectPending := false, backoffMs := kInitialBackoffMs }).applyTools
                a.client tools
          Proc.query (S := BinderSig) (.toolsSynced a.name tools.length)
          Proc.query (S := BinderSig) (.serverInitialized a.name)) (s.endAttempt attempt) :=
        keepsReconnect_composes.ite _ (keepsReconnect_composes.pure ())
          (keepsReconnect_composes.bind happly fun _ =>
            keepsReconnect_composes.bind (keepsReconnect_query _) fun _ => keepsReconnect_query _)
          _ hended
      have hvisit := Contract.KeepsAt.after reconnectContract_preorder ⟨hended, hr⟩ hrest
      exact hvisit

theorem keepsReconnect_onInitFailed (attempt : AttemptId) (error : String) :
    KeepsReconnect (onInitFailed attempt error) := by
  intro s hs
  refine wp_of_reads ?_
  dsimp only
  cases ha : s.attempts.lookup attempt with
  | none => exact keepsReconnect_composes.pure () s hs
  | some a =>
      refine (wp_ite (S := BinderSig) _ _ _ _ _).mpr
        ⟨fun _ => keepsReconnect_composes.pure () s hs, fun hphase => ?_⟩
      have hidle : ∀ b, s.attempts.lookup attempt = some b → b.phase ≠ .busy := by
        intro b hb hbusy
        obtain rfl := Option.some.inj (ha.symm.trans hb)
        exact hphase hbusy
      have hr := setPhase_rely .busy (.refl s) hidle
      refine ⟨hs.setPhase attempt .busy, fun s₁ (hr₁ : ReconnectRely _ s₁)
        (hs₁ : ReconnectInv s₁) _ _ => ?_⟩
      -- the attempt is still there when the slots have returned
      have hbusy : s₁.attempts.lookup attempt = some { a with phase := .busy } := by
        refine hr₁.busy attempt { a with phase := .busy } ?_ rfl
        unfold ToolBinder.setPhase
        rw [ha]
        exact AList.lookup_insert _
      have hended : ReconnectInv (s₁.endAttempt attempt) := hs₁.endAttempt attempt
      have hquiet := hs₁.quiet_endAttempt hbusy
      have hr₂ := endAttempt_rely (hr.trans hr₁) hidle
      obtain ⟨hfailed, hr₃⟩ := hended.initFailed hquiet
      exact ⟨hfailed, hr₂.trans hr₃⟩

theorem keepsReconnect_onResynced (listing : ListingId) (tools : Option (List ToolInfo)) :
    KeepsReconnect (onResynced listing tools) := by
  have happly : ∀ client tools,
      KeepsReconnect (Proc.modify (S := BinderSig) (applyTools client tools)) :=
    fun client tools s hs => ReconnectInv.applyTools hs client tools
  refine keepsReconnect_composes.bind (keepsReconnect_composes.reads id) fun s => ?_
  cases s.listings.lookup listing with
  | none => exact keepsReconnect_composes.pure ()
  | some l =>
      refine keepsReconnect_composes.ite _ (keepsReconnect_composes.pure ()) ?_
      refine keepsReconnect_composes.bind
        (fun s hs => ReconnectInv.sameBindings hs ⟨rfl, rfl, rfl, rfl, rfl, rfl, rfl⟩) fun _ => ?_
      cases tools with
      | none => exact keepsReconnect_composes.pure ()
      | some tools =>
          refine keepsReconnect_composes.ite _ (keepsReconnect_composes.pure ()) ?_
          exact keepsReconnect_composes.bind (happly _ _) fun _ => keepsReconnect_query _

theorem keepsReconnect_shutdown : KeepsReconnect shutdown := by
  have hclients : ∀ clients, KeepsReconnect (shutdownClients clients) := by
    intro clients
    induction clients with
    | nil => exact keepsReconnect_composes.pure ()
    | cons client rest ih =>
        refine keepsReconnect_composes.bind (keepsReconnect_composes.reads _) fun bindings => ?_
        cases bindings.lookup client with
        | none => exact ih
        | some binding =>
            exact keepsReconnect_composes.ite _
              (keepsReconnect_composes.bind (keepsReconnect_query _) fun _ => ih) ih
  refine keepsReconnect_composes.bind (fun s hs => ?_) fun _ =>
    keepsReconnect_composes.bind (keepsReconnect_composes.reads _) fun bindings => hclients _
  exact ReconnectInv.same hs rfl rfl rfl rfl (fun _ hc => hc) fun _ hc => .inl hc

/-- A client is made. -/
theorem ReconnectInv.newClient {s : ToolBinder} (hs : ReconnectInv s) :
    ReconnectInv s.newClient ∧ ReconnectRely s s.newClient := by
  have hlt : ∀ c, c < s.nextClient → c < s.nextClient + 1 := fun _ hc => hc.trans (Nat.lt_succ_self _)
  refine ⟨⟨hs.one, hs.apart, fun t c ht => hlt c (hs.timed t c ht), fun k a hk =>
    ⟨(hs.tried k a hk).1, hlt _ (hs.tried k a hk).2⟩, fun c hc => ?_, fun c hc =>
    hlt c (hs.bound c hc)⟩, Nat.le_refl _, fun _ _ h _ => h⟩
  rcases Finset.mem_insert.mp hc with rfl | hc
  · exact Nat.lt_succ_self _
  · exact hlt c (hs.alive c hc)

/-- Nothing runs for a client that was not made yet. -/
theorem ReconnectInv.quiet_new {s : ToolBinder} (hs : ReconnectInv s) : s.Quiet s.nextClient :=
  ⟨fun t ht => absurd (hs.timed t _ ht) (Nat.lt_irrefl _), fun k a hk hc =>
    absurd (hc ▸ (hs.tried k a hk).2) (Nat.lt_irrefl _)⟩

theorem ReconnectInv.attach {s : ToolBinder} (hs : ReconnectInv s) {client : ClientId}
    (hclient : client ∈ s.alive) (name : String) (owned autoReconnect : Bool) :
    ReconnectInv (s.attach client name owned autoReconnect) ∧
      ReconnectRely s (s.attach client name owned autoReconnect) := by
  refine hs.same rfl rfl rfl rfl (fun _ hc => hc) fun c hc => ?_
  rcases (AList.mem_insert _).mp hc with rfl | hc
  · exact .inr hclient
  · exact .inl hc

theorem keepsReconnect_addServer (endpoint : ServerEndpoint) :
    KeepsReconnect (addServer endpoint) := by
  refine keepsReconnect_composes.ite _ (fun s hs => ?_) (keepsReconnect_composes.pure false)
  obtain ⟨hnew, hr₁⟩ := ReconnectInv.newClient hs
  obtain ⟨hattached, hr₂⟩ := hnew.attach (Finset.mem_insert_self s.nextClient _)
    endpoint.name true true
  have hquiet : (s.newClient.attach s.nextClient endpoint.name true true).Quiet s.nextClient :=
    ReconnectInv.quiet_new hs
  have hrest := keepsReconnect_initializeClient hattached hquiet (Nat.lt_succ_self _)
  have hvisit := Contract.KeepsAt.after reconnectContract_preorder ⟨hattached, hr₁.trans hr₂⟩ hrest
  exact (wp_bind (S := BinderSig) _ _ _ _).mpr hvisit

theorem keepsReconnect_addClient (client : ClientId) (serverName : String) (autoReconnect : Bool) :
    KeepsReconnect (addClient client serverName autoReconnect) := by
  refine fun s hs => (wp_ite (S := BinderSig) _ _ _ _ _).mpr
    ⟨fun _ => keepsReconnect_composes.pure () s hs, fun hnew => ?_⟩
  have halive : client ∈ s.alive := not_not.mp fun h => hnew (.inl h)
  have hattached := ReconnectInv.attach hs halive serverName false autoReconnect
  have hvisit := Contract.KeepsAt.after reconnectContract_preorder hattached
    (keepsReconnect_resyncClient client _ hattached.1)
  exact hvisit

/-- No event starts a second timer or attempt. -/
theorem keepsReconnect_entry (e : BinderEvent) : KeepsReconnect (binderEntry e) := by
  have htools : ∀ f : ToolBinder → ToolBinder, (∀ s, SameBindings s (f s)) →
      KeepsReconnect (Proc.modify (S := BinderSig) f) :=
    fun f h s hs => ReconnectInv.sameBindings hs (h s)
  cases e with
  | addServer endpoint =>
      exact keepsReconnect_composes.bind (keepsReconnect_addServer endpoint) fun _ =>
        keepsReconnect_composes.pure ()
  | addClient client serverName autoReconnect =>
      exact keepsReconnect_addClient client serverName autoReconnect
  | removeClient client => exact fun s hs => ReconnectInv.removeClient hs client
  | shutdown => exact keepsReconnect_shutdown
  | clientCreated => exact fun s hs => ReconnectInv.newClient hs
  | clientDestroyed client =>
      intro s hs
      have hgone := ReconnectInv.same hs (t := { s with alive := s.alive.erase client })
        rfl rfl rfl rfl (fun _ hc => Finset.mem_of_mem_erase hc) fun _ hc => .inl hc
      obtain ⟨hremoved, hr⟩ := hgone.1.removeClient client
      exact ⟨hremoved, hgone.2.trans hr⟩
  | toolsChanged client => exact keepsReconnect_resyncClient client
  | disconnected client => exact keepsReconnect_onDisconnected client
  | reconnectTimer timer => exact keepsReconnect_onReconnectTimer timer
  | connected attempt => exact keepsReconnect_onConnected attempt
  | listed attempt tools => exact keepsReconnect_onListed attempt tools
  | initFailed attempt error => exact keepsReconnect_onInitFailed attempt error
  | resynced listing tools => exact keepsReconnect_onResynced listing tools
  | toolAdded name => exact htools _ fun s => ⟨rfl, rfl, rfl, rfl, rfl, rfl, rfl⟩
  | toolRemoved name => exact htools _ fun s => sameBindings_removeTool name s
  | toolDeleted tool =>
      refine htools _ fun s => ?_
      split
      · exact ⟨rfl, rfl, rfl, rfl, rfl, rfl, rfl⟩
      · exact .refl s

end ToolBinder

/-! ### Runs -/

open ToolBinder

theorem reconnect_valid : reconnectContract.Valid steady :=
  .of_guarded reconnectContract_preorder (fun _ e hs _ => keepsReconnect_entry e _ hs) nofun

theorem reconnectInv_init : ReconnectInv {} where
  one _ := ⟨fun _ _ h => absurd h nofun, fun _ _ _ _ h => absurd h nofun⟩
  apart _ _ _ h := absurd h nofun
  timed _ _ h := absurd h nofun
  tried _ _ h := absurd h nofun
  alive _ h := absurd h (Finset.notMem_empty _)
  bound _ h := absurd h nofun

/-- In every run in which a client that says it has disconnected finds its binding steady, at
most one reconnect timer runs for each client, and at most one of its attempts goes on. -/
theorem one_reconnect {c : Config BinderSig} (hrun : Reaches steady (.idle {}) c)
    (hw : c.Waiting) : c.state.OneReconnect :=
  (reconnect_valid.waiting reconnectInv_init hrun hw).one

/-- A server is added, and its client begins to connect. -/
def connectMoves : List (Move binderMachine) :=
  [.event (.addServer { name := "srv", command := "serve" }), .answer fun _ => ()]

/-- The first attempt fails. -/
def failMoves : List (Move binderMachine) :=
  [.event (.initFailed 0 "no answer"), .answer fun _ => ()]

theorem one_reconnect_failed :
    ∃ c : Config BinderSig, c.Waiting ∧ c.state.OneReconnect ∧
      c.state.timers.lookup 0 = some 0 ∧ c.state.attempts.lookup 0 = none := by
  have hplay : Playable steady 0 (connectMoves ++ failMoves) (.idle {}) :=
    ⟨trivial, trivial, trivial, trivial, trivial⟩
  have hw : (play binderMachine 0 (connectMoves ++ failMoves) (.idle {})).Waiting := Or.inl rfl
  exact ⟨_, hw, one_reconnect (reaches_play hplay) hw, rfl, rfl⟩

/-- A first connection that fails because its transport closed is retried twice. -/
theorem one_reconnect_fails :
    ∃ c : Config BinderSig, Reaches (Surroundings.any binderMachine) (.idle {}) c ∧ c.Waiting ∧
      0 ∈ c.state.bindings ∧ ¬ c.state.OneReconnect := by
  have hplay : Playable (Surroundings.any binderMachine) 0
      (connectMoves ++ [.event (.disconnected 0), .answer fun _ => ()] ++ failMoves) (.idle {}) :=
    ⟨trivial, trivial, trivial, trivial, trivial, trivial, trivial⟩
  refine ⟨_, reaches_play hplay, Or.inl rfl, ?_, fun h => ?_⟩
  · exact AList.lookup_isSome.mp rfl
  · exact absurd ((h 0).1 0 1 rfl rfl) (by decide)

end LLMQore.Mcp
