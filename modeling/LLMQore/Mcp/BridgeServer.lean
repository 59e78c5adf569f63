import Mathlib.Data.List.Perm.Subperm
import LLMQore.Mcp.McpToolBinder
import LLMQore.Reentrant.Implement

/-!
# LLMQore.Mcp.BridgeServer

The bridge (`BridgeServer.cpp`): one server over the tools of many upstream servers, which a
`McpToolBinder` connects to. It is ready when as many answers of upstreams have come as upstreams
were added.

The slots of the binder's signals are code of the bridge. What the clients of the binder do, and
when, is up to the surroundings; they may enter the binder while `start` is still adding servers.
-/

namespace LLMQore.McpBridge

open Reentrant Mcp

inductive BridgeObservation where
  /-- `m_server->start()` -/
  | serverStarted
  | ready (url : String)
  | startFailed (reason : String)
  deriving DecidableEq

structure BridgeServer where
  /-- `m_config.upstreams` -/
  upstreams : List ServerEndpoint
  binder : ToolBinder := {}
  pendingInits : Nat := 0
  completedInits : Nat := 0
  isReady : Bool := false
  /-- `start` was called. No code reads it, or anything that follows. -/
  started : Bool := false
  /-- `start` has added its servers. -/
  returned : Bool := false
  /-- The names of the upstreams that were added. -/
  added : List String := []
  /-- The names under which upstreams have answered. -/
  answers : List String := []
  /-- Every answer has come in order. -/
  inOrder : Bool := true
  history : List BridgeObservation := []

/-- What the bridge calls out to. -/
inductive BridgeOut where
  | binder (e : BinderOut)
  /-- `m_server->start()`; the answer is the URL of its transport. -/
  | startServer
  /-- `m_server->stop()` -/
  | stopServer
  | ready (url : String)
  | startFailed (reason : String)

def BridgeOut.Ans : BridgeOut → Type
  | .startServer => String
  | _ => Unit

abbrev BridgeSig : Sig where
  State := BridgeServer
  Out := BridgeOut
  Ans := BridgeOut.Ans
  Fn := Empty
  Res := nofun

namespace BridgeServer

/-- The names of the upstreams that can be added. -/
def names (s : BridgeServer) : List String := (s.upstreams.filter (·.isValid)).map (·.name)

/-- An answer comes in order: it is the first of its upstream, and while servers are being added it
leaves some of those that were added without one, or none of all. -/
def answerInOrder (s : BridgeServer) (name : String) : Bool :=
  s.isReady || (decide ((name :: s.answers).Subperm s.names) &&
    (s.returned || decide (s.answers.length + 1 < s.added.length) ||
      decide (s.answers.length + 1 = s.names.length)))

def observe (o : BridgeObservation) (s : BridgeServer) : BridgeServer :=
  { s with history := o :: s.history }

/-- `++m_completedInits` -/
def countAnswer (name : String) (s : BridgeServer) : BridgeServer :=
  { s with
    completedInits := s.completedInits + 1
    answers := name :: s.answers
    inOrder := s.inOrder && s.answerInOrder name }

/-- `++m_pendingInits` -/
def countServer (name : String) (s : BridgeServer) : BridgeServer :=
  { s with pendingInits := s.pendingInits + 1, added := s.added ++ [name] }

/-- `checkAllReady`. -/
def checkAllReady : Proc BridgeSig Unit := do
  let s ← Proc.read (S := BridgeSig)
  if s.isReady || decide (s.completedInits < s.pendingInits) then
    pure ()
  else
    Proc.modify (S := BridgeSig) fun s => { s with isReady := true }.observe .serverStarted
    let url ← Proc.query (S := BridgeSig) .startServer
    Proc.modify (S := BridgeSig) (observe (.ready url))
    Proc.query (S := BridgeSig) (.ready url)

/-- The slots of `serverInitialized` and `serverInitFailed`. -/
def onAnswer (name : String) : Proc BridgeSig Unit := do
  Proc.modify (S := BridgeSig) (countAnswer name)
  checkAllReady

/-- The binder, with the slots of its signals. Two of them only log. -/
def ofBinder : Implementation BinderSig BridgeSig where
  part s := s.binder
  withPart s binder := { s with binder }
  part_withPart _ _ := rfl
  out
    | .serverInitialized name => onAnswer name
    | .serverInitFailed name _ => onAnswer name
    | .toolsSynced .. => pure ()
    | .serverDisconnected .. => pure ()
    | e => Proc.query (S := BridgeSig) (.binder e)
  fn := nofun
  res := nofun

/-- The loop of `start`. -/
def addServers : List ServerEndpoint → Proc BridgeSig Unit
  | [] => pure ()
  | endpoint :: rest => do
      let added ← (ToolBinder.addServer endpoint).implement ofBinder
      if added then
        Proc.modify (S := BridgeSig) (countServer endpoint.name)
        addServers rest
      else
        addServers rest

/-- `start`. -/
def start : Proc BridgeSig Unit := do
  Proc.modify (S := BridgeSig) fun s => { s with started := true }
  addServers (← Proc.reads (S := BridgeSig) (·.upstreams))
  Proc.modify (S := BridgeSig) fun s => { s with returned := true }
  let s ← Proc.read (S := BridgeSig)
  if s.pendingInits = 0 then
    let reason := "No valid upstream servers to connect."
    Proc.modify (S := BridgeSig) (observe (.startFailed reason))
    Proc.query (S := BridgeSig) (.startFailed reason)
  else
    pure ()

/-- `shutdown`. -/
def shutdown : Proc BridgeSig Unit := do
  ToolBinder.shutdown.implement ofBinder
  Proc.query (S := BridgeSig) .stopServer

end BridgeServer

inductive BridgeEvent where
  | start
  | shutdown
  /-- What happens to the binder. -/
  | binder (e : BinderEvent)

def bridgeEntry : BridgeEvent → Proc BridgeSig Unit
  | .start => BridgeServer.start
  | .shutdown => BridgeServer.shutdown
  | .binder e => (binderEntry e).implement BridgeServer.ofBinder

def bridgeMachine : Machine BridgeSig where
  Event := BridgeEvent
  entry := bridgeEntry
  body := nofun

/-- `start` is called once. -/
def startedOnce : Surroundings bridgeMachine :=
  .guarded bridgeMachine
    (fun s e => match e with
      | .start => s.started = false
      | _ => True)
    fun _ _ _ => True

namespace BridgeServer

/-! ### What is asked of the bridge -/

/-- How often the server of the bridge was started. -/
def starts (s : BridgeServer) : Nat := s.history.countP fun
  | .serverStarted => true
  | _ => false

/-- How often the bridge has said it is ready. -/
def readies (s : BridgeServer) : Nat := s.history.countP fun
  | .ready _ => true
  | _ => false

@[simp] theorem starts_serverStarted (s : BridgeServer) :
    (s.observe .serverStarted).starts = s.starts + 1 := by
  simp [starts, observe]

@[simp] theorem readies_serverStarted (s : BridgeServer) :
    (s.observe .serverStarted).readies = s.readies := by
  simp [readies, observe]

@[simp] theorem starts_ready (s : BridgeServer) (url : String) :
    (s.observe (.ready url)).starts = s.starts := by
  simp [starts, observe]

@[simp] theorem readies_ready (s : BridgeServer) (url : String) :
    (s.observe (.ready url)).readies = s.readies + 1 := by
  simp [readies, observe]

/-- Every upstream that was added has answered; upstreams of one name as often as there are. -/
def AllAnswered (s : BridgeServer) : Prop := s.added.Subperm s.answers

/-- The bridge starts its server and says it is ready once, after all upstreams have answered; and
where no code runs, and all have answered, it has done so. -/
structure Ready (c : Config BridgeSig) : Prop where
  once : c.state.starts ≤ 1 ∧ c.state.readies ≤ 1
  only : 0 < c.state.starts ∨ 0 < c.state.readies → c.state.AllAnswered
  done : c.prog = .ret () → c.state.returned = true → c.state.AllAnswered →
    c.state.starts = 1 ∧ c.state.readies = 1

/-! ### The contract -/

structure BridgeInv (s : BridgeServer) : Prop where
  pending : s.pendingInits = s.added.length
  completed : s.completedInits = s.answers.length
  added : s.added <+: s.names
  unstarted : s.started = false → s.added = [] ∧ s.returned = false
  returned : s.returned = true → s.added = s.names
  /-- While the bridge is not ready, some upstream has not answered. -/
  waiting : s.isReady = false → s.answers = [] ∨ s.answers.length < s.added.length
  quiet : s.isReady = false → s.starts = 0 ∧ s.readies = 0
  once : s.isReady = true → s.starts = 1 ∧ s.readies ≤ 1
  /-- While it is not ready, no upstream answers twice. -/
  first : s.inOrder = true → s.isReady = false → s.answers.Subperm s.names
  all : s.inOrder = true → s.isReady = true → s.names.Subperm s.answers

/-- Code that has said the server starts, and not yet that it is ready, goes on. -/
def owed (s : BridgeServer) : Bool := s.isReady && s.readies == 0

/-- What a visit may do. -/
structure BridgeRely (s s' : BridgeServer) : Prop where
  upstreams : s'.upstreams = s.upstreams
  started : s.started = true →
    s'.started = true ∧ s'.added = s.added ∧ s'.returned = s.returned
  ready : s.isReady = true →
    s'.isReady = true ∧ s'.starts = s.starts ∧ s'.readies = s.readies
  owed : s'.owed = s.owed

theorem BridgeRely.refl (s : BridgeServer) : BridgeRely s s :=
  ⟨rfl, fun h => ⟨h, rfl, rfl⟩, fun h => ⟨h, rfl, rfl⟩, rfl⟩

theorem BridgeRely.trans {s₁ s₂ s₃ : BridgeServer} (h₁ : BridgeRely s₁ s₂)
    (h₂ : BridgeRely s₂ s₃) : BridgeRely s₁ s₃ where
  upstreams := h₂.upstreams.trans h₁.upstreams
  started h := by
    obtain ⟨hs, ha, hr⟩ := h₁.started h
    obtain ⟨hs', ha', hr'⟩ := h₂.started hs
    exact ⟨hs', ha'.trans ha, hr'.trans hr⟩
  ready h := by
    obtain ⟨hs, ha, hr⟩ := h₁.ready h
    obtain ⟨hs', ha', hr'⟩ := h₂.ready hs
    exact ⟨hs', ha'.trans ha, hr'.trans hr⟩
  owed := h₂.owed.trans h₁.owed

def bridgeContract : Contract BridgeSig := .plain BridgeInv BridgeRely

theorem bridgeContract_preorder : bridgeContract.Preorder := ⟨.refl, fun h₁ h₂ => h₁.trans h₂⟩

abbrev KeepsBridge {α : Type} (p : Proc BridgeSig α) : Prop :=
  bridgeContract.Keeps startedOnce.answer p

theorem bridgeInv_init (upstreams : List ServerEndpoint) : BridgeInv { upstreams } where
  pending := rfl
  completed := rfl
  added := List.nil_prefix
  unstarted _ := ⟨rfl, rfl⟩
  returned h := absurd h nofun
  waiting _ := .inl rfl
  quiet _ := ⟨rfl, rfl⟩
  once h := absurd h nofun
  first _ _ := List.nil_subperm
  all _ h := absurd h nofun

/-! ### Answers -/

variable {s : BridgeServer}

/-- An answer that leaves the bridge waiting, or finds it ready. -/
theorem BridgeInv.countAnswer (hs : BridgeInv s) (name : String)
    (hstay : s.isReady = true ∨ s.answers.length + 1 < s.added.length) :
    BridgeInv (s.countAnswer name) ∧ BridgeRely s (s.countAnswer name) := by
  refine ⟨?_, rfl, fun h => ⟨h, rfl, rfl⟩, fun h => ⟨h, rfl, rfl⟩, rfl⟩
  refine ⟨hs.pending, by simpa [BridgeServer.countAnswer] using hs.completed, hs.added,
    hs.unstarted, hs.returned, fun hready => ?_, hs.quiet, hs.once, fun horder hready => ?_,
    fun horder hready => ?_⟩
  · have hready : s.isReady = false := hready
    exact .inr (hstay.resolve_left (by simp [hready]))
  · have hready : s.isReady = false := hready
    have horder : (s.inOrder && s.answerInOrder name) = true := horder
    simp only [answerInOrder, hready, Bool.false_or, Bool.and_eq_true, decide_eq_true_eq] at horder
    exact horder.2.1
  · have hready : s.isReady = true := hready
    have horder : (s.inOrder && s.answerInOrder name) = true := horder
    exact (hs.all (Bool.and_eq_true_iff.mp horder).1 hready).trans
      (List.subperm_cons_self)

/-- An answer that leaves no upstream waiting makes the bridge ready. -/
theorem BridgeInv.becomeReady (hs : BridgeInv s) (name : String) (hready : s.isReady = false)
    (hlast : s.added.length ≤ s.answers.length + 1) :
    BridgeInv ({ s.countAnswer name with isReady := true }.observe .serverStarted) := by
  obtain ⟨hstarts, hreadies⟩ := hs.quiet hready
  refine ⟨hs.pending, by simpa [BridgeServer.countAnswer, observe] using hs.completed, hs.added,
    hs.unstarted, hs.returned, fun h => absurd h nofun, fun h => absurd h nofun, fun _ => ⟨?_, ?_⟩,
    fun _ h => absurd h nofun, fun horder _ => ?_⟩
  · rw [starts_serverStarted]
    exact congrArg (· + 1) hstarts
  · rw [readies_serverStarted]
    exact (le_of_eq hreadies).trans (Nat.zero_le 1)
  · have horder : (s.inOrder && s.answerInOrder name) = true := horder
    simp only [answerInOrder, hready, Bool.false_or, Bool.and_eq_true, Bool.or_eq_true,
      decide_eq_true_eq] at horder
    obtain ⟨-, hfirst, hcount⟩ := horder
    have hall : s.names.length ≤ s.answers.length + 1 := by
      rcases hcount with (hreturned | hfew) | hevery
      · rw [← hs.returned hreturned]
        exact hlast
      · omega
      · exact hevery.ge
    exact (hfirst.perm_of_length_le hall).symm.subperm

theorem keepsBridge_composes : Composes (S := BridgeSig) fun _ p => KeepsBridge p :=
  Contract.Keeps.composes bridgeContract_preorder

theorem keepsBridge_query (e : BridgeOut) : KeepsBridge (Proc.query (S := BridgeSig) e) :=
  Contract.Keeps.query (S := BridgeSig) e

/-- The slots of the answers. -/
theorem keepsBridge_onAnswer (name : String) : KeepsBridge (onAnswer name) := by
  intro s (hs : BridgeInv s)
  show wp (S := BridgeSig) _ _
    (if s.isReady || decide (s.completedInits + 1 < s.pendingInits) then _ else _) _
      (s.countAnswer name)
  rw [wp_ite]
  refine ⟨fun hstay => ?_, fun hlast => ?_⟩
  · rw [Bool.or_eq_true, decide_eq_true_eq, hs.completed, hs.pending] at hstay
    exact hs.countAnswer name hstay
  · rw [Bool.or_eq_true, decide_eq_true_eq, hs.completed, hs.pending, not_or, not_lt,
      Bool.not_eq_true] at hlast
    have hready := hs.becomeReady name hlast.1 hlast.2
    obtain ⟨hstarts, hreadies⟩ := hs.quiet hlast.1
    refine ⟨hready, fun s₁ (hr₁ : BridgeRely _ s₁) (hs₁ : BridgeInv s₁) url _ => ?_⟩
    obtain ⟨hready₁, hstarts₁, hreadies₁⟩ := hr₁.ready rfl
    have hnone : s₁.readies = 0 := hreadies₁.trans hreadies
    have hone : (s₁.observe (.ready url)).readies = 1 :=
      (readies_ready s₁ url).trans (congrArg (· + 1) hnone)
    have hs₂ : BridgeInv (s₁.observe (.ready url)) :=
      ⟨hs₁.pending, hs₁.completed, hs₁.added, hs₁.unstarted, hs₁.returned, hs₁.waiting,
        fun h => absurd (hready₁.symm.trans h) nofun,
        fun _ => ⟨(starts_ready s₁ url).trans (hs₁.once hready₁).1, hone.le⟩, hs₁.first, hs₁.all⟩
    refine ⟨hs₂, fun s₃ (hr₃ : BridgeRely _ s₃) hs₃ _ _ => ⟨hs₃, ?_⟩⟩
    obtain ⟨hready₃, -, hreadies₃⟩ := hr₃.ready hready₁
    refine ⟨hr₃.upstreams.trans hr₁.upstreams, fun hstarted => ?_,
      fun h => absurd (hlast.1.symm.trans h) nofun, ?_⟩
    · obtain ⟨h₁, ha₁, hret₁⟩ := hr₁.started hstarted
      obtain ⟨h₃, ha₃, hret₃⟩ := hr₃.started h₁
      exact ⟨h₃, ha₃.trans ha₁, hret₃.trans hret₁⟩
    · rw [owed, owed, hlast.1, hready₃, hreadies₃, hone]
      rfl

/-- Whatever the binder does. -/
theorem keepsBridge_binder {α : Type} (p : Proc BinderSig α) :
    KeepsBridge (p.implement ofBinder) := by
  refine Contract.Keeps.implement bridgeContract_preorder (fun s binder hs => ?_) (fun e => ?_)
    (fun f : Empty => f.elim) p
  · exact ⟨⟨hs.pending, hs.completed, hs.added, hs.unstarted, hs.returned, hs.waiting, hs.quiet,
      hs.once, hs.first, hs.all⟩, rfl, fun h => ⟨h, rfl, rfl⟩, fun h => ⟨h, rfl, rfl⟩, rfl⟩
  · cases e with
    | serverInitialized name => exact keepsBridge_onAnswer name
    | serverInitFailed name error => exact keepsBridge_onAnswer name
    | toolsSynced name toolCount => exact keepsBridge_composes.pure ()
    | serverDisconnected client name => exact keepsBridge_composes.pure ()
    | _ => exact keepsBridge_query _

/-! ### `start` -/

/-- What `start` may do to the bridge as one that was told to start. -/
structure StartRely (s s' : BridgeServer) : Prop where
  upstreams : s'.upstreams = s.upstreams
  ready : s.isReady = true →
    s'.isReady = true ∧ s'.starts = s.starts ∧ s'.readies = s.readies
  owed : s'.owed = s.owed

theorem BridgeRely.toStart {s s' : BridgeServer} (h : BridgeRely s s') : StartRely s s' :=
  ⟨h.upstreams, h.ready, h.owed⟩

theorem StartRely.trans {s₁ s₂ s₃ : BridgeServer} (h₁ : StartRely s₁ s₂)
    (h₂ : StartRely s₂ s₃) : StartRely s₁ s₃ where
  upstreams := h₂.upstreams.trans h₁.upstreams
  ready h := by
    obtain ⟨hs, ha, hr⟩ := h₁.ready h
    obtain ⟨hs', ha', hr'⟩ := h₂.ready hs
    exact ⟨hs', ha'.trans ha, hr'.trans hr⟩
  owed := h₂.owed.trans h₁.owed

/-- `start` has these servers still to add. -/
structure Adding (s : BridgeServer) (rest : List ServerEndpoint) : Prop where
  inv : BridgeInv s
  started : s.started = true
  returned : s.returned = false
  added : s.added ++ (rest.filter (·.isValid)).map (·.name) = s.names

/-- What others do leaves the loop where it is. -/
theorem Adding.visit {s s' : BridgeServer} {rest : List ServerEndpoint} (h : Adding s rest)
    (hs' : BridgeInv s') (hr : BridgeRely s s') : Adding s' rest := by
  obtain ⟨hstarted, hadded, hreturned⟩ := hr.started h.started
  refine ⟨hs', hstarted, hreturned.trans h.returned, ?_⟩
  rw [hadded, h.added, names, names, hr.upstreams]

/-- A server is counted. -/
theorem Adding.countServer {s : BridgeServer} {endpoint : ServerEndpoint}
    {rest : List ServerEndpoint} (h : Adding s (endpoint :: rest)) (hvalid : endpoint.isValid) :
    Adding (s.countServer endpoint.name) rest := by
  have hadded : s.added ++ endpoint.name :: (rest.filter (·.isValid)).map (·.name) = s.names := by
    have hsplit := h.added
    rwa [List.filter_cons_of_pos hvalid, List.map_cons] at hsplit
  have hs := h.inv
  refine ⟨?_, h.started, h.returned, by
    show (s.added ++ [endpoint.name]) ++ _ = s.names
    simpa using hadded⟩
  refine ⟨?_, hs.completed, ?_, fun hnot => absurd (h.started.symm.trans hnot) nofun,
    fun hnot => absurd (h.returned.symm.trans hnot) nofun, fun hready => ?_, hs.quiet, hs.once,
    hs.first, hs.all⟩
  · show s.pendingInits + 1 = (s.added ++ [endpoint.name]).length
    rw [List.length_append, hs.pending]
    rfl
  · show s.added ++ [endpoint.name] <+: s.names
    rw [← hadded]
    exact ⟨(rest.filter (·.isValid)).map (·.name), by simp⟩
  · refine (hs.waiting hready).imp id fun hlt => ?_
    show s.answers.length < (s.added ++ [endpoint.name]).length
    rw [List.length_append]
    exact Nat.lt_add_right _ hlt

/-- What `addServer` answers. -/
theorem wp_addServer {s : BridgeServer} (hs : BridgeInv s) (endpoint : ServerEndpoint) :
    wp startedOnce.answer bridgeContract ((ToolBinder.addServer endpoint).implement ofBinder)
      (fun added s' => added = endpoint.isValid ∧ BridgeInv s' ∧ BridgeRely s s') s := by
  unfold ToolBinder.addServer
  cases endpoint.isValid with
  | false => exact ⟨rfl, hs, .refl s⟩
  | true =>
      have hcode : ∀ p : Proc BinderSig Unit,
          wp startedOnce.answer bridgeContract ((p >>= fun _ => pure true).implement ofBinder)
            (fun added s' => added = true ∧ BridgeInv s' ∧ BridgeRely s s') s := fun p => by
        rw [Proc.implement_bind]
        exact (wp_bind (S := BridgeSig) _ _ _ s).mpr
          (wp_mono (S := BridgeSig) (keepsBridge_binder p s hs) fun _ _ h => ⟨rfl, h⟩)
      exact hcode do
        let client ← Proc.reads (S := BinderSig) (·.nextClient)
        Proc.modify (S := BinderSig) fun s => s.newClient.attach client endpoint.name true true
        ToolBinder.initializeClient client

theorem wp_addServers (endpoints : List ServerEndpoint) :
    ∀ {s : BridgeServer}, Adding s endpoints →
      wp startedOnce.answer bridgeContract (addServers endpoints)
        (fun _ s' => Adding s' [] ∧ StartRely s s') s := by
  induction endpoints with
  | nil => exact fun h => ⟨h, (BridgeRely.refl _).toStart⟩
  | cons endpoint rest ih =>
      intro s h
      refine (wp_bind (S := BridgeSig) _ _ _ s).mpr
        (wp_mono (S := BridgeSig) (wp_addServer h.inv endpoint) fun added s₁ hadd => ?_)
      obtain ⟨rfl, hs₁, hr⟩ := hadd
      have h₁ := h.visit hs₁ hr
      refine (wp_ite (S := BridgeSig) _ _ _ _ s₁).mpr ⟨fun hvalid => ?_, fun hinvalid => ?_⟩
      · refine wp_mono (S := BridgeSig) (ih (h₁.countServer hvalid)) fun _ s₂ h₂ => ⟨h₂.1, ?_⟩
        exact hr.toStart.trans ⟨h₂.2.upstreams, h₂.2.ready, h₂.2.owed⟩
      · refine wp_mono (S := BridgeSig) (ih ⟨h₁.inv, h₁.started, h₁.returned, ?_⟩) fun _ s₂ h₂ =>
          ⟨h₂.1, hr.toStart.trans h₂.2⟩
        have hsplit := h₁.added
        rwa [List.filter_cons_of_neg hinvalid] at hsplit

/-- `start` adds every server that can be added, whatever happens meanwhile. -/
theorem keepsBridge_start {s : BridgeServer} (hs : BridgeInv s) (hnew : s.started = false) :
    bridgeContract.KeepsAt startedOnce.answer start s := by
  obtain ⟨hadded, hreturned⟩ := hs.unstarted hnew
  have hbegin : Adding { s with started := true } s.upstreams := by
    refine ⟨⟨hs.pending, hs.completed, hs.added, fun h => absurd h nofun, hs.returned, hs.waiting,
      hs.quiet, hs.once, hs.first, hs.all⟩, rfl, hreturned, ?_⟩
    show s.added ++ _ = _
    rw [hadded]
    rfl
  refine (wp_bind (S := BridgeSig) (addServers s.upstreams) _ _ _).mpr
    (wp_mono (S := BridgeSig) (wp_addServers s.upstreams hbegin) fun _ s₁ h₁ => ?_)
  obtain ⟨⟨hs₁, hstarted₁, hreturned₁, hadded₁⟩, hr₁⟩ := h₁
  have hall : s₁.added = s₁.names := by simpa using hadded₁
  have hs₂ : BridgeInv { s₁ with returned := true } :=
    ⟨hs₁.pending, hs₁.completed, hs₁.added, fun h => absurd (hstarted₁.symm.trans h) nofun,
      fun _ => hall, hs₁.waiting, hs₁.quiet, hs₁.once, hs₁.first, hs₁.all⟩
  have hr₂ : BridgeRely s { s₁ with returned := true } :=
    ⟨hr₁.upstreams, fun h => absurd (hnew.symm.trans h) nofun, hr₁.ready, hr₁.owed⟩
  refine (wp_ite (S := BridgeSig) (s₁.pendingInits = 0) _ _ _ _).mpr
    ⟨fun _ => ?_, fun _ => ⟨hs₂, hr₂⟩⟩
  let reason := "No valid upstream servers to connect."
  have hs₃ : BridgeInv ({ s₁ with returned := true }.observe (.startFailed reason)) :=
    ⟨hs₂.pending, hs₂.completed, hs₂.added, hs₂.unstarted, hs₂.returned, hs₂.waiting, hs₂.quiet,
      hs₂.once, hs₂.first, hs₂.all⟩
  refine wp_mono (S := BridgeSig) (keepsBridge_query (.startFailed reason) _ hs₃) fun _ s₄ h₄ => ?_
  obtain ⟨hs₄, hr₄⟩ : BridgeInv s₄ ∧ BridgeRely _ s₄ := h₄
  exact ⟨hs₄, hr₂.trans ⟨hr₄.upstreams, hr₄.started, hr₄.ready, hr₄.owed⟩⟩

theorem keepsBridge_shutdown : KeepsBridge shutdown :=
  keepsBridge_composes.bind (keepsBridge_binder _) fun _ => keepsBridge_query .stopServer

theorem bridge_valid : bridgeContract.Valid startedOnce :=
  .of_guarded bridgeContract_preorder
    (fun s e hs hstart => match e with
      | .start => keepsBridge_start hs hstart
      | .shutdown => keepsBridge_shutdown s hs
      | .binder _ => keepsBridge_binder _ s hs)
    nofun

/-- Where answers have come in order, a bridge that is ready has heard from all upstreams. -/
theorem BridgeInv.allAnswered (hs : BridgeInv s) (horder : s.inOrder = true)
    (hready : s.isReady = true) : s.AllAnswered :=
  (hs.added.sublist.subperm).trans (hs.all horder hready)

/-- A bridge that is not ready, but has added all of its upstreams, waits for one of them. -/
theorem BridgeInv.isReady (hs : BridgeInv s) (hnames : s.names ≠ []) (hreturned : s.returned = true)
    (hall : s.AllAnswered) : s.isReady = true := by
  by_contra hnot
  have hadded : s.added ≠ [] := by rwa [hs.returned hreturned]
  have hcount : s.added.length ≤ s.answers.length := hall.length_le
  rcases hs.waiting (Bool.not_eq_true _ ▸ hnot) with hnone | hfew
  · rw [hnone] at hcount
    exact hadded (List.length_eq_zero_iff.mp (Nat.le_zero.mp hcount))
  · exact absurd hcount (Nat.not_le.mpr hfew)

end BridgeServer

open BridgeServer

/-- A bridge that was told to start once, with an upstream that can be added, becomes ready once,
after all its upstreams have answered, in every run whose answers come in order. -/
theorem bridge_ready {upstreams : List ServerEndpoint}
    (hvalid : ∃ endpoint ∈ upstreams, endpoint.isValid) {c : Config BridgeSig}
    (hrun : Reaches startedOnce (.idle { upstreams }) c) (hwaiting : c.Waiting)
    (horder : c.state.inOrder = true) : Ready c := by
  have hs := bridge_valid.waiting (bridgeInv_init upstreams) hrun hwaiting
  have hready : 0 < c.state.starts ∨ 0 < c.state.readies → c.state.isReady = true := fun h => by
    by_contra hnot
    obtain ⟨hstarts, hreadies⟩ := hs.quiet (Bool.not_eq_true _ ▸ hnot)
    omega
  refine ⟨?_, fun h => hs.allAnswered horder (hready h), fun hidle hreturned hall => ?_⟩
  · cases hr : c.state.isReady with
    | false =>
        obtain ⟨hstarts, hreadies⟩ := hs.quiet hr
        omega
    | true =>
        obtain ⟨hstarts, hreadies⟩ := hs.once hr
        omega
  · obtain ⟨s, prog⟩ := c
    obtain rfl : prog = .ret () := hidle
    obtain ⟨-, hrely⟩ := bridge_valid.idle (bridgeInv_init upstreams) hrun
    have hnames : s.names ≠ [] := by
      obtain ⟨endpoint, hmem, hcan⟩ := hvalid
      have hname : endpoint.name ∈ s.names := by
        rw [names, hrely.upstreams]
        exact List.mem_map_of_mem (List.mem_filter.mpr ⟨hmem, hcan⟩)
      exact List.ne_nil_of_mem hname
    have hr := hs.isReady hnames hreturned hall
    refine ⟨(hs.once hr).1, ?_⟩
    have howed : (s.isReady && s.readies == 0) = false := hrely.owed
    have hle : s.readies ≤ 1 := (hs.once hr).2
    show s.readies = 1
    rw [hr, Bool.true_and, beq_eq_false_iff_ne] at howed
    omega

/-- The server of the bridge serves over stdio. -/
def stdioAnswer : (e : BridgeOut) → e.Ans
  | .startServer => "stdio"
  | .binder _ | .stopServer | .ready _ | .startFailed _ => ()

/-- Of two upstreams the first connects and lists its tools, and then the attempt to connect to the
second fails: the bridge is ready. -/
theorem bridge_ready_two :
    ∃ c : Config BridgeSig, Ready c ∧ c.prog = .ret () ∧ c.state.answers = ["b", "a"] ∧
      c.state.readies = 1 := by
  have hplay : Playable startedOnce 0
      [.event .start, .answer stdioAnswer, .answer stdioAnswer,
        .event (.binder (.connected 0)), .answer stdioAnswer, .event (.binder (.listed 0 [])),
        .event (.binder (.initFailed 1 "no answer")), .answer stdioAnswer, .answer stdioAnswer]
      (.idle { upstreams :=
        [{ name := "a", command := "serve" }, { name := "b", command := "serve" }] }) :=
    ⟨rfl, trivial, trivial, trivial, trivial, trivial, trivial, trivial, trivial, trivial⟩
  exact ⟨_, bridge_ready ⟨_, .head _, rfl⟩ (reaches_play hplay) (Or.inl rfl) rfl, rfl, rfl, rfl⟩

/-- An upstream that fails twice makes the bridge ready, while another one has not answered. -/
theorem bridge_not_ready :
    ∃ c : Config BridgeSig,
      Reaches startedOnce (.idle { upstreams :=
        [{ name := "a", command := "serve" }, { name := "b", command := "serve" }] }) c ∧
      c.Waiting ∧ "b" ∈ c.state.added ∧ c.state.answers = ["a", "a"] ∧ c.state.readies = 1 ∧
      ¬ Ready c := by
  have hplay : Playable startedOnce 0
      [.event .start, .answer stdioAnswer, .answer stdioAnswer,
        .event (.binder (.initFailed 0 "no answer")), .event (.binder (.reconnectTimer 0)),
        .answer stdioAnswer, .event (.binder (.initFailed 2 "no answer")), .answer stdioAnswer,
        .answer stdioAnswer]
      (.idle { upstreams :=
        [{ name := "a", command := "serve" }, { name := "b", command := "serve" }] }) :=
    ⟨rfl, trivial, trivial, trivial, trivial, trivial, trivial, trivial, trivial, trivial⟩
  refine ⟨_, reaches_play hplay, Or.inl rfl, ?_, rfl, rfl, fun h => ?_⟩
  · exact List.mem_cons_of_mem "a" (List.mem_singleton_self "b")
  · have hall : AllAnswered _ := h.only (.inl (Nat.zero_lt_one))
    exact absurd (hall.subset (List.mem_cons_of_mem "a" (List.mem_singleton_self "b"))) (by decide)

end LLMQore.McpBridge
