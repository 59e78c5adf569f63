import Mathlib.Data.List.AList
import Mathlib.Data.List.Induction
import LLMQore.Acp.AcpTypes
import LLMQore.Rpc.Session

/-!
# LLMQore.Acp.AcpClient

The client of the Agent Client Protocol (`AcpClient`): the requests it makes over its peer, and
what it keeps of the sessions of the agent.

A request is pending until an answer comes for it or it fails. The client is told by a
`QFutureWatcher`, so what it does with an answer, or with a failure, is a later step of the event
loop. Signals are emitted where a step is done, so that what their slots do comes after it.

`AcpClient.history` records what an observer sees, newest first. No code reads it.
-/

namespace LLMQore.Acp

open AcpTypes
open Rpc (PromiseId Exn Outcome)

/-- `mergeToolCall`. -/
def mergeToolCall (base upd : ToolCall) : ToolCall where
  toolCallId := if upd.toolCallId.isEmpty then base.toolCallId else upd.toolCallId
  title := if upd.title.isEmpty then base.title else upd.title
  kind := if upd.kind.isEmpty then base.kind else upd.kind
  status := if upd.status.isEmpty then base.status else upd.status
  content := if upd.content.isEmpty then base.content else upd.content
  locations := if upd.locations.isEmpty then base.locations else upd.locations
  rawInput := if upd.rawInput.isEmpty then base.rawInput else upd.rawInput
  rawOutput := if upd.rawOutput.isEmpty then base.rawOutput else upd.rawOutput

structure SessionState where
  tools : AList (fun _ : String => ToolCall) := ∅

/-- The signals of the client. -/
inductive AcpSignal where
  | initialized (info : InitializeResult)
  | userMessageChunk (sessionId : String) (content : ContentBlock)
  | agentMessageChunk (sessionId : String) (content : ContentBlock)
  | agentThoughtChunk (sessionId : String) (content : ContentBlock)
  | toolCallStarted (sessionId : String) (toolCall : ToolCall)
  | toolCallUpdated (sessionId : String) (toolCall : ToolCall)
  | planUpdated (sessionId : String) (plan : Plan)
  | availableCommandsUpdated (sessionId : String) (commands : List AvailableCommand)
  | modeChanged (sessionId modeId : String)
  | configOptionsUpdated (sessionId : String) (options : List SessionConfigOption)
  | usageUpdated (sessionId : String) (usage : JsonObject)
  | sessionInfoUpdated (sessionId title : String)
  | promptFinished (sessionId stopReason : String)
  | errorOccurred (error : Exn)
  | disconnected

/-- The requests of the client. -/
inductive AcpRequest where
  | connectAndInitialize (params : InitializeParams)
  | authenticate (methodId : String)
  | newSession (params : NewSessionParams)
  | loadSession (params : LoadSessionParams)
  | prompt (params : PromptParams)
  | setMode (sessionId modeId : String)
  | setConfigOption (sessionId configId : String) (value : Bool ⊕ String)

namespace AcpRequest

def method : AcpRequest → String
  | .connectAndInitialize _ => "initialize"
  | .authenticate _ => "authenticate"
  | .newSession _ => "session/new"
  | .loadSession _ => "session/load"
  | .prompt _ => "session/prompt"
  | .setMode .. => "session/set_mode"
  | .setConfigOption .. => "session/set_config_option"

def params : AcpRequest → JsonObject
  | .connectAndInitialize params => InitializeParams.schema.toJson params
  | .authenticate methodId => JsonObject.ofFields [("methodId", .str methodId)]
  | .newSession params => NewSessionParams.schema.toJson params
  | .loadSession params => LoadSessionParams.schema.toJson params
  | .prompt params => PromptParams.schema.toJson params
  | .setMode sessionId modeId =>
      JsonObject.ofFields [("sessionId", .str sessionId), ("modeId", .str modeId)]
  | .setConfigOption sessionId configId (.inl enabled) =>
      JsonObject.ofFields [("sessionId", .str sessionId), ("configId", .str configId),
        ("value", .bool enabled), ("type", .str "boolean")]
  | .setConfigOption sessionId configId (.inr valueId) =>
      JsonObject.ofFields [("sessionId", .str sessionId), ("configId", .str configId),
        ("value", .str valueId)]

/-- The request is made through `ProtocolPeer::request`, which asks for a handshake first. -/
def gated : AcpRequest → Bool
  | .connectAndInitialize _ | .authenticate _ => false
  | _ => true

/-- The request is a prompt of the session. -/
def prompts (sessionId : String) : AcpRequest → Bool
  | .prompt params => params.sessionId == sessionId
  | _ => false

end AcpRequest

/-- A request that was sent. It is pending while it has no outcome. -/
structure Inquiry where
  promise : PromiseId
  request : AcpRequest
  outcome : Option Outcome := none

/-- What an observer sees. -/
inductive AcpObservation where
  /-- A request was sent. -/
  | sent (promise : PromiseId) (method : String) (params : JsonObject)
  /-- A request failed at once, and nothing was sent. -/
  | refused (request : AcpRequest) (error : Exn)
  | notified (method : String) (params : JsonObject)
  /-- The future of a request is finished. -/
  | ended (promise : PromiseId) (request : AcpRequest) (outcome : Outcome)
  | emitted (signal : AcpSignal)

structure AcpClient where
  /-- `m_sessions` -/
  sessions : AList (fun _ : String => SessionState) := ∅
  /-- `m_initResult` -/
  agentInfo : InitializeResult := {}
  /-- `m_peer->isInitialized()` -/
  isInitialized : Bool := false
  /-- `m_transport->isOpen()` -/
  isOpen : Bool := false
  requests : List Inquiry := []
  nextPromise : PromiseId := 0
  history : List AcpObservation := []

/-- What happens to the client. -/
inductive AcpEvent where
  /-- `connectAndInitialize`, and whether the transport is open once it is told to open. -/
  | connectAndInitialize (params : InitializeParams) (opens : Bool)
  | authenticate (methodId : String)
  | newSession (params : NewSessionParams)
  | loadSession (params : LoadSessionParams)
  | prompt (sessionId : String) (blocks : List ContentBlock)
  | cancel (sessionId : String)
  | setMode (sessionId modeId : String)
  | setConfigOption (sessionId configId : String) (value : Bool ⊕ String)
  | shutdown
  /-- A pending request is answered, or fails: an error answer, a timeout, a cancellation, a
  message that could not be sent. -/
  | settled (promise : PromiseId) (outcome : Outcome)
  /-- The watcher of a request that has an outcome reports it. -/
  | reported (promise : PromiseId)
  /-- `session/update` -/
  | sessionUpdate (params : JsonObject)
  | transportOpened
  | transportClosed

namespace AcpClient

variable (c : AcpClient)

def observe (o : AcpObservation) : AcpClient := { c with history := o :: c.history }

def emit (signal : AcpSignal) : AcpClient := c.observe (.emitted signal)

/-- The tool calls of a session. -/
def tools (sessionId : String) : AList (fun _ : String => ToolCall) :=
  match c.sessions.lookup sessionId with
  | some st => st.tools
  | none => ∅

/-- `m_sessions[sessionId].tools = ...` -/
def putTools (sessionId : String) (tools : AList (fun _ : String => ToolCall)) : AcpClient :=
  { c with sessions := c.sessions.insert sessionId { tools } }

/-- The session is known from here on. -/
def addSession (sessionId : String) : AcpClient :=
  if !sessionId.isEmpty && !decide (sessionId ∈ c.sessions) then c.putTools sessionId ∅ else c

/-! ### Requests -/

/-- The error with which the peer refuses a request. -/
def refusal (request : AcpRequest) : Option Exn :=
  if request.gated && !c.isInitialized then some (.protocolError "Client not initialized")
  else if !c.isOpen then some (.transportError "Transport is not open")
  else none

/-- A request over the peer. -/
def request (r : AcpRequest) : AcpClient :=
  match c.refusal r with
  | some error => c.observe (.refused r error)
  | none =>
      let q : Inquiry := { promise := c.nextPromise, request := r }
      { c with requests := c.requests ++ [q], nextPromise := c.nextPromise + 1 }.observe
        (.sent c.nextPromise r.method r.params)

/-- `connectAndInitialize`. -/
def connectAndInitialize (params : InitializeParams) (opens : Bool) : AcpClient :=
  { c with isOpen := c.isOpen || opens }.request (.connectAndInitialize params)

/-- `newSession`. -/
def newSession (params : NewSessionParams) : AcpClient := c.request (.newSession params)

/-- `loadSession`. -/
def loadSession (params : LoadSessionParams) : AcpClient :=
  (c.addSession params.sessionId).request (.loadSession params)

/-- `prompt`. -/
def prompt (sessionId : String) (blocks : List ContentBlock) : AcpClient :=
  c.request (.prompt ⟨sessionId, blocks⟩)

/-- `cancel`. -/
def cancel (sessionId : String) : AcpClient :=
  if c.isOpen then
    c.observe (.notified "session/cancel" (JsonObject.ofFields [("sessionId", .str sessionId)]))
  else c

/-- Every pending request that `which` holds of has the outcome. -/
def settle (which : Inquiry → Bool) (outcome : Outcome) : AcpClient :=
  { c with
    requests := c.requests.map fun q =>
      if q.outcome.isNone && which q then { q with outcome := some outcome } else q }

/-- `JsonRpcSession::abortPending`. -/
def abortPending (reason : String) : AcpClient :=
  c.settle (fun _ => true) (.exception (.transportError reason))

/-- The transport has closed. -/
def transportClosed : AcpClient :=
  { c.abortPending "Transport closed" with isInitialized := false, isOpen := false }.emit
    .disconnected

/-- `shutdown`. -/
def shutdown : AcpClient :=
  let c := c.abortPending "AcpClient shutdown"
  if c.isOpen then c.transportClosed else c

/-! ### Answers -/

/-- What the client does with the answer to a request. -/
def answered (request : AcpRequest) (v : JsonValue) : AcpClient :=
  match request with
  | .connectAndInitialize _ =>
      let r := InitializeResult.schema.fromJson v.toObject
      { c with isInitialized := true, agentInfo := r }.emit (.initialized r)
  | .newSession _ => c.addSession (NewSessionResult.schema.fromJson v.toObject).sessionId
  | .prompt params =>
      let r := PromptResult.schema.fromJson v.toObject
      let c := if params.sessionId ∈ c.sessions then c.putTools params.sessionId ∅ else c
      c.emit (.promptFinished params.sessionId r.stopReason)
  | _ => c

/-- What the client does when a request has failed; only that of `handshake` has an `onFailed`. -/
def failed (request : AcpRequest) (error : Exn) : AcpClient :=
  match request with
  | .connectAndInitialize _ => c.emit (.errorOccurred error)
  | _ => c

/-- The watcher of a request reports its outcome. -/
def report (q : Inquiry) (outcome : Outcome) : AcpClient :=
  let c := { c with requests := c.requests.filter (·.promise != q.promise) }
  let c :=
    match outcome with
    | .result v => c.answered q.request v
    | .exception error => c.failed q.request error
  c.observe (.ended q.promise q.request outcome)

/-- The request of a promise, with its outcome, if it has one that was not reported yet. -/
def toReport (promise : PromiseId) : Option (Inquiry × Outcome) :=
  c.requests.findSome? fun q =>
    if q.promise = promise then q.outcome.map (q, ·) else none

/-! ### Updates -/

/-- `handleSessionUpdate`. -/
def handleSessionUpdate (params : JsonObject) : AcpClient :=
  let n := SessionNotification.schema.fromJson params
  let sid := n.sessionId
  let u := n.update
  match u.sessionUpdate with
  | "user_message_chunk" => (u.content.map (c.emit <| .userMessageChunk sid ·)).getD c
  | "agent_message_chunk" => (u.content.map (c.emit <| .agentMessageChunk sid ·)).getD c
  | "agent_thought_chunk" => (u.content.map (c.emit <| .agentThoughtChunk sid ·)).getD c
  | "tool_call" =>
      match u.toolCall with
      | some toolCall =>
          (c.putTools sid ((c.tools sid).insert toolCall.toolCallId toolCall)).emit
            (.toolCallStarted sid toolCall)
      | none => c
  | "tool_call_update" =>
      match u.toolCall with
      | some toolCall =>
          let base := ((c.tools sid).lookup toolCall.toolCallId).getD {}
          let merged := mergeToolCall base toolCall
          (c.putTools sid ((c.tools sid).insert merged.toolCallId merged)).emit
            (.toolCallUpdated sid merged)
      | none => c
  | "plan" => (u.plan.map (c.emit <| .planUpdated sid ·)).getD c
  | "available_commands_update" => c.emit (.availableCommandsUpdated sid u.availableCommands)
  | "current_mode_update" => c.emit (.modeChanged sid u.currentModeId)
  | "config_option_update" => c.emit (.configOptionsUpdated sid u.configOptions)
  | "usage_update" => c.emit (.usageUpdated sid u.usage)
  | "session_info_update" => c.emit (.sessionInfoUpdated sid u.title)
  | _ => c

def step : AcpEvent → AcpClient
  | .connectAndInitialize params opens => c.connectAndInitialize params opens
  | .authenticate methodId => c.request (.authenticate methodId)
  | .newSession params => c.newSession params
  | .loadSession params => c.loadSession params
  | .prompt sessionId blocks => c.prompt sessionId blocks
  | .cancel sessionId => c.cancel sessionId
  | .setMode sessionId modeId => c.request (.setMode sessionId modeId)
  | .setConfigOption sessionId configId value =>
      c.request (.setConfigOption sessionId configId value)
  | .shutdown => c.shutdown
  | .settled promise outcome => c.settle (·.promise == promise) outcome
  | .reported promise =>
      match c.toReport promise with
      | some (q, outcome) => c.report q outcome
      | none => c
  | .sessionUpdate params => c.handleSessionUpdate params
  | .transportOpened => { c with isOpen := true }
  | .transportClosed => c.transportClosed

/-- A run of a new client. -/
def run (events : List AcpEvent) : AcpClient := events.foldl step {}

end AcpClient

/-! ### What is asked of the client -/

namespace AcpClient

variable (c : AcpClient)

/-- How many requests are pending that prompt a session. -/
def outstanding (sessionId : String) : Nat :=
  c.requests.countP fun q => q.outcome.isNone && q.request.prompts sessionId

/-- How many turns of a session go on: a turn begins where its request is sent, and ends where
the future of `prompt` is finished. -/
def turns (sessionId : String) : Nat := c.requests.countP fun q => q.request.prompts sessionId

end AcpClient

/-- What was last said of a tool call since the last turn of the session ended. -/
def shown (sessionId id : String) : List AcpObservation → Option ToolCall
  | [] => none
  | .ended _ request _ :: h => if request.prompts sessionId then none else shown sessionId id h
  | .emitted (.toolCallStarted sid toolCall) :: h
  | .emitted (.toolCallUpdated sid toolCall) :: h =>
      if sid = sessionId ∧ toolCall.toolCallId = id then some toolCall else shown sessionId id h
  | _ :: h => shown sessionId id h

/-- A session has one turn at a time, with one request, and its tool calls are those it was told
of since the last turn ended. -/
structure OneTurn (c : AcpClient) : Prop where
  single : ∀ sessionId, c.outstanding sessionId ≤ 1
  turn : ∀ sessionId, c.turns sessionId ≤ 1
  tools : ∀ sessionId id, (c.tools sessionId).lookup id = shown sessionId id c.history

/-- The event begins no turn of a session in which one goes on, and ends none by a failure that
the session has tool calls of. -/
def Orderly (c : AcpClient) : AcpEvent → Prop
  | .prompt sessionId blocks =>
      c.refusal (.prompt ⟨sessionId, blocks⟩) = none → c.turns sessionId = 0
  | .reported promise => ∀ q error, c.toReport promise = some (q, .exception error) →
      ∀ sessionId, q.request.prompts sessionId → c.tools sessionId = ∅
  | _ => True

/-! ### The tool calls of a session -/

section Tools

variable {c c' : AcpClient} {sid id : String}

@[simp] theorem tools_observe (o : AcpObservation) : (c.observe o).tools = c.tools := rfl

@[simp] theorem tools_emit (signal : AcpSignal) : (c.emit signal).tools = c.tools := rfl

theorem tools_putTools (calls : AList (fun _ : String => ToolCall)) (sessionId : String) :
    (c.putTools sid calls).tools sessionId =
      if sessionId = sid then calls else c.tools sessionId := by
  unfold AcpClient.tools AcpClient.putTools
  by_cases h : sessionId = sid
  · subst h
    simp
  · simp [h, AList.lookup_insert_ne h]

theorem tools_unknown (h : sid ∉ c.sessions) : c.tools sid = ∅ := by
  unfold AcpClient.tools
  rw [AList.lookup_eq_none.mpr h]

theorem tools_addSession (sessionId : String) :
    (c.addSession sid).tools sessionId = c.tools sessionId := by
  unfold AcpClient.addSession
  split
  · rename_i hnew
    rw [tools_putTools]
    split
    · subst sessionId
      exact (tools_unknown (by simp_all)).symm
    · rfl
  · rfl

/-- The tool calls of the client are those it was told of. -/
def ToolsShown (c : AcpClient) : Prop :=
  ∀ sid id, (c.tools sid).lookup id = shown sid id c.history

/-- The observation is neither of a tool call nor of the end of a turn. -/
def AcpObservation.Aside (o : AcpObservation) : Prop :=
  ∀ sid id h, shown sid id (o :: h) = shown sid id h

theorem ToolsShown.of_tools (h : ToolsShown c) (htools : ∀ sid, c'.tools sid = c.tools sid)
    (hhistory : c'.history = c.history) : ToolsShown c' := by
  intro sid id
  rw [htools, hhistory, h sid id]

theorem ToolsShown.observe (h : ToolsShown c) {o : AcpObservation} (ho : o.Aside) :
    ToolsShown (c.observe o) := by
  intro sid id
  show _ = shown sid id (o :: c.history)
  rw [ho, tools_observe, h sid id]

/-- A tool call is filed, and said. -/
theorem ToolsShown.show (h : ToolsShown c) (toolCall : ToolCall) (signal : AcpSignal)
    (hsignal : signal = .toolCallStarted sid toolCall ∨ signal = .toolCallUpdated sid toolCall) :
    ToolsShown
      ((c.putTools sid ((c.tools sid).insert toolCall.toolCallId toolCall)).emit signal) := by
  intro sid' id'
  have hshown : shown sid' id' (.emitted signal :: c.history) =
      if sid = sid' ∧ toolCall.toolCallId = id' then some toolCall
      else shown sid' id' c.history := by
    rcases hsignal with rfl | rfl <;> rfl
  show _ = shown sid' id' (.emitted signal :: c.history)
  rw [hshown, tools_emit, tools_putTools]
  by_cases hsid : sid' = sid
  · subst hsid
    by_cases hid : id' = toolCall.toolCallId
    · subst hid
      simp
    · simp [AList.lookup_insert_ne hid, Ne.symm hid, h sid' id']
  · simp [hsid, Ne.symm hsid, h sid' id']

/-- The turn of a session ends, and the session has no tool calls then. -/
theorem ToolsShown.ended (h : ToolsShown c) {promise : PromiseId} {request : AcpRequest}
    {outcome : Outcome} (hend : ∀ sid, request.prompts sid → c.tools sid = ∅) :
    ToolsShown (c.observe (.ended promise request outcome)) := by
  intro sid id
  show _ = if request.prompts sid then none else shown sid id c.history
  rw [tools_observe]
  split
  · rename_i hprompt
    simp [hend sid hprompt]
  · exact h sid id

theorem ToolsShown.request (h : ToolsShown c) (r : AcpRequest) : ToolsShown (c.request r) := by
  unfold AcpClient.request
  split
  · exact h.observe fun _ _ _ => rfl
  · exact (h.of_tools (fun _ => rfl) rfl).observe fun _ _ _ => rfl

theorem ToolsShown.addSession (h : ToolsShown c) : ToolsShown (c.addSession sid) := by
  refine h.of_tools (fun _ => tools_addSession _) ?_
  unfold AcpClient.addSession
  split <;> rfl

theorem ToolsShown.settle (h : ToolsShown c) (which : Inquiry → Bool) (outcome : Outcome) :
    ToolsShown (c.settle which outcome) :=
  h.of_tools (fun _ => rfl) rfl

theorem ToolsShown.transportClosed (h : ToolsShown c) : ToolsShown c.transportClosed := by
  have hclosed : ToolsShown { c.abortPending "Transport closed" with
      isInitialized := false, isOpen := false } :=
    h.of_tools (fun _ => rfl) rfl
  exact hclosed.observe fun _ _ _ => rfl

theorem ToolsShown.emitSome {α : Type} (h : ToolsShown c) (x : Option α) {signal : α → AcpSignal}
    (hsignal : ∀ a, AcpObservation.Aside (.emitted (signal a))) :
    ToolsShown ((x.map (c.emit <| signal ·)).getD c) := by
  cases x with
  | none => exact h
  | some a => exact h.observe (hsignal a)

theorem ToolsShown.handleSessionUpdate (h : ToolsShown c) (params : JsonObject) :
    ToolsShown (c.handleSessionUpdate params) := by
  unfold AcpClient.handleSessionUpdate
  dsimp only
  split
  · exact h.emitSome _ fun _ _ _ _ => rfl
  · exact h.emitSome _ fun _ _ _ _ => rfl
  · exact h.emitSome _ fun _ _ _ _ => rfl
  · split
    · exact h.show _ _ (.inl rfl)
    · exact h
  · split
    · exact h.show _ _ (.inr rfl)
    · exact h
  · exact h.emitSome _ fun _ _ _ _ => rfl
  all_goals first | exact h.observe fun _ _ _ => rfl | exact h

/-- What the client does with an answer keeps the tool calls of every session but the one whose
prompt it answers, which has none then. -/
theorem tools_answered (request : AcpRequest) (v : JsonValue) (sessionId : String) :
    (c.answered request v).tools sessionId =
      if request.prompts sessionId then ∅ else c.tools sessionId := by
  cases request with
  | newSession params => exact tools_addSession _
  | prompt params =>
      have hstep : (c.answered (.prompt params) v).tools sessionId =
          (if params.sessionId ∈ c.sessions then c.putTools params.sessionId ∅ else c).tools
            sessionId := rfl
      rw [hstep]
      have hprompts : (AcpRequest.prompt params).prompts sessionId = true ↔
          sessionId = params.sessionId :=
        beq_iff_eq.trans eq_comm
      simp only [hprompts]
      split
      · exact tools_putTools _ _
      · rename_i hnew
        split
        · rename_i heq
          rw [heq]
          exact tools_unknown hnew
        · rfl
  | _ => rfl

theorem shown_answered (request : AcpRequest) (v : JsonValue) :
    shown sid id (c.answered request v).history = shown sid id c.history := by
  have hadd : ∀ sessionId, (c.addSession sessionId).history = c.history := by
    intro sessionId
    unfold AcpClient.addSession
    split <;> rfl
  cases request with
  | newSession params => exact congrArg (shown sid id) (hadd _)
  | prompt params =>
      unfold AcpClient.answered
      dsimp only
      split <;> rfl
  | _ => rfl

/-- The tool calls that a turn leaves to the session when it has failed. -/
theorem tools_report_failed (q : Inquiry) (error : Exn) :
    (c.report q (.exception error)).tools = c.tools := by
  show (AcpClient.failed _ q.request error).tools = c.tools
  cases q.request <;> rfl

theorem shown_report (q : Inquiry) (outcome : Outcome) :
    shown sid id (c.report q outcome).history =
      if q.request.prompts sid then none else shown sid id c.history := by
  cases outcome with
  | result v =>
      show (if q.request.prompts sid then none else shown sid id _) = _
      rw [shown_answered]
  | exception error =>
      show (if q.request.prompts sid then none
        else shown sid id (AcpClient.failed _ q.request error).history) = _
      cases q.request <;> rfl

theorem ToolsShown.report (h : ToolsShown c) {q : Inquiry} {outcome : Outcome}
    (hok : ∀ error, outcome = .exception error →
      ∀ sid, q.request.prompts sid → c.tools sid = ∅) : ToolsShown (c.report q outcome) := by
  intro sid id
  have htools : (c.report q outcome).tools sid =
      if q.request.prompts sid then ∅ else c.tools sid := by
    cases outcome with
    | result v => exact tools_answered q.request v sid
    | exception error =>
        rw [tools_report_failed]
        split
        · rename_i hprompt
          exact hok error rfl sid hprompt
        · rfl
  rw [htools, shown_report]
  split
  · exact AList.lookup_empty id
  · exact h sid id

end Tools

/-! ### The turns of a session -/

section Turns

variable {c : AcpClient} {sid : String}

theorem outstanding_le_turns (c : AcpClient) (sid : String) : c.outstanding sid ≤ c.turns sid :=
  List.countP_mono_left fun _ _ hq => (Bool.and_eq_true_iff.mp hq).2

/-- A request begins a turn if it is a prompt and is not refused. -/
theorem turns_request (r : AcpRequest) :
    (c.request r).turns sid =
      c.turns sid + if c.refusal r = none ∧ r.prompts sid then 1 else 0 := by
  unfold AcpClient.request AcpClient.turns
  cases hrefusal : c.refusal r with
  | some error => simp [AcpClient.observe]
  | none => simp [AcpClient.observe]

theorem turns_request_le (r : AcpRequest) (hr : r.prompts sid = false) :
    (c.request r).turns sid ≤ c.turns sid := by
  simp [turns_request, hr]

theorem turns_settle (which : Inquiry → Bool) (outcome : Outcome) :
    (c.settle which outcome).turns sid = c.turns sid := by
  unfold AcpClient.turns AcpClient.settle
  rw [List.countP_map]
  congr 1
  funext q
  -- an outcome does not change what the request is
  show (if _ then _ else q : Inquiry).request.prompts sid = _
  split <;> rfl

theorem requests_addSession (sessionId : String) :
    (c.addSession sessionId).requests = c.requests := by
  unfold AcpClient.addSession
  split <;> rfl

theorem requests_answered (request : AcpRequest) (v : JsonValue) :
    (c.answered request v).requests = c.requests := by
  cases request with
  | newSession params => exact requests_addSession _
  | prompt params =>
      unfold AcpClient.answered
      dsimp only
      split <;> rfl
  | _ => rfl

theorem turns_report_le (q : Inquiry) (outcome : Outcome) :
    (c.report q outcome).turns sid ≤ c.turns sid := by
  have hrequests : (c.report q outcome).requests = c.requests.filter (·.promise != q.promise) := by
    cases outcome with
    | result v => exact requests_answered q.request v
    | exception error =>
        show (AcpClient.failed _ q.request error).requests = _
        cases q.request <;> rfl
  unfold AcpClient.turns
  rw [hrequests]
  exact List.filter_sublist.countP_le

theorem requests_handleSessionUpdate (params : JsonObject) :
    (c.handleSessionUpdate params).requests = c.requests := by
  have hsome : ∀ {α : Type} (x : Option α) (signal : α → AcpSignal),
      ((x.map (c.emit <| signal ·)).getD c).requests = c.requests := by
    intro α x signal
    cases x <;> rfl
  unfold AcpClient.handleSessionUpdate
  dsimp only
  split
  iterate 3 exact hsome _ _
  iterate 2 split <;> rfl
  · exact hsome _ _
  all_goals rfl

end Turns

/-! ### Runs -/

section Runs

variable {c : AcpClient} {e : AcpEvent}

/-- A step begins no second turn of a session, if it is orderly. -/
theorem turns_step_le (hc : OneTurn c) (hok : Orderly c e) (sid : String) :
    (c.step e).turns sid ≤ 1 := by
  have hturn := hc.turn sid
  cases e with
  | prompt sessionId blocks =>
      show (c.request (.prompt ⟨sessionId, blocks⟩)).turns sid ≤ 1
      rw [turns_request]
      split
      · rename_i hsent
        obtain rfl : sessionId = sid := beq_iff_eq.mp hsent.2
        rw [hok hsent.1]
      · exact hturn
  | connectAndInitialize params opens => exact (turns_request_le _ rfl).trans hturn
  | loadSession params =>
      refine (turns_request_le _ rfl).trans ?_
      rw [AcpClient.turns, requests_addSession]
      exact hturn
  | cancel sessionId =>
      show (c.cancel sessionId).turns sid ≤ 1
      unfold AcpClient.cancel
      split <;> exact hturn
  | shutdown =>
      have habort : (c.abortPending "AcpClient shutdown").turns sid ≤ 1 :=
        (turns_settle ..).trans_le hturn
      show (AcpClient.turns (if _ then _ else _) sid) ≤ 1
      split
      · exact (turns_settle ..).trans_le habort
      · exact habort
  | settled promise outcome => exact (turns_settle ..).trans_le hturn
  | reported promise =>
      show (AcpClient.turns (match c.toReport promise with | some (q, o) => c.report q o | none => c)
        sid) ≤ 1
      split
      · exact (turns_report_le _ _).trans hturn
      · exact hturn
  | sessionUpdate params =>
      show (c.handleSessionUpdate params).turns sid ≤ 1
      rw [AcpClient.turns, requests_handleSessionUpdate]
      exact hturn
  | transportOpened => exact hturn
  | transportClosed => exact (turns_settle ..).trans_le hturn
  | _ => exact (turns_request_le _ rfl).trans hturn

theorem toolsShown_step (h : ToolsShown c) (hok : Orderly c e) : ToolsShown (c.step e) := by
  cases e with
  | connectAndInitialize params opens =>
      have hopen : ToolsShown { c with isOpen := c.isOpen || opens } := h
      exact hopen.request _
  | loadSession params => exact h.addSession.request _
  | cancel sessionId =>
      show ToolsShown (c.cancel sessionId)
      unfold AcpClient.cancel
      split
      · exact h.observe fun _ _ _ => rfl
      · exact h
  | shutdown =>
      have habort : ToolsShown (c.abortPending "AcpClient shutdown") := h.settle _ _
      show ToolsShown (if _ then _ else _)
      split
      · exact habort.transportClosed
      · exact habort
  | settled promise outcome => exact h.settle _ _
  | reported promise =>
      show ToolsShown (match c.toReport promise with | some (q, o) => c.report q o | none => c)
      cases hreport : c.toReport promise with
      | none => exact h
      | some found =>
          exact h.report fun error herror sid hprompt =>
            hok found.1 error (herror ▸ hreport) sid hprompt
  | sessionUpdate params => exact h.handleSessionUpdate params
  | transportOpened => exact h
  | transportClosed => exact h.transportClosed
  | _ => exact h.request _

theorem OneTurn.step (hc : OneTurn c) (hok : Orderly c e) : OneTurn (c.step e) where
  single sid := (outstanding_le_turns _ sid).trans (turns_step_le hc hok sid)
  turn := turns_step_le hc hok
  tools := toolsShown_step hc.tools hok

theorem oneTurn_init : OneTurn {} where
  single _ := Nat.zero_le 1
  turn _ := Nat.zero_le 1
  tools _ _ := rfl

/-- After a step that is not orderly a session has two turns, or tool calls of one that ended. -/
theorem not_oneTurn_of_not_orderly (hnot : ¬Orderly c e) : ¬OneTurn (c.step e) := by
  intro hc
  cases e with
  | prompt sessionId blocks =>
      unfold Orderly at hnot
      push Not at hnot
      obtain ⟨hrefusal, hbusy⟩ := hnot
      have hturn : (c.request (.prompt ⟨sessionId, blocks⟩)).turns sessionId ≤ 1 :=
        hc.turn sessionId
      rw [turns_request, if_pos ⟨hrefusal, beq_self_eq_true _⟩] at hturn
      omega
  | reported promise =>
      unfold Orderly at hnot
      push Not at hnot
      obtain ⟨q, error, hreport, sid, hprompt, htools⟩ := hnot
      have hstep : c.step (.reported promise) = c.report q (.exception error) := by
        show (match c.toReport promise with | some (q, o) => c.report q o | none => c) = _
        rw [hreport]
      have hnone : ∀ id, (c.tools sid).lookup id = none := by
        intro id
        have hshown := hc.tools sid id
        rwa [hstep, tools_report_failed, shown_report, if_pos hprompt] at hshown
      exact htools (AList.ext (List.eq_nil_iff_forall_not_mem.mpr fun entry hentry =>
        AList.lookup_eq_none.mp (hnone entry.1) (List.mem_map_of_mem hentry)))
  | _ => exact hnot trivial

end Runs

/-- In every state of a run each session has one turn at a time, with the tool calls of that turn,
if and only if every step of the run is orderly: no prompt is sent for a session that has a turn
going on, and no turn fails that has tool calls. -/
theorem one_turn_iff (events : List AcpEvent) :
    (∀ before, before <+: events → OneTurn (AcpClient.run before)) ↔
      ∀ before e, before ++ [e] <+: events → Orderly (AcpClient.run before) e := by
  have hrun : ∀ before e, AcpClient.run (before ++ [e]) = (AcpClient.run before).step e :=
    fun before e => by simp [AcpClient.run]
  constructor
  · intro hall before e hpre
    by_contra hnot
    exact not_oneTurn_of_not_orderly hnot (hrun before e ▸ hall _ hpre)
  · intro hok before
    induction before using List.reverseRecOn with
    | nil => exact fun _ => oneTurn_init
    | append_singleton before e ih =>
        intro hpre
        rw [hrun]
        exact (ih ((List.prefix_append before [e]).trans hpre)).step (hok before e hpre)

/-- Two prompts of one session, of which neither is answered; and a prompt that times out after
the session was told of a tool call. -/
theorem one_turn_not_always :
    ¬OneTurn (AcpClient.run
      [.connectAndInitialize {} true, .settled 0 (.result (.obj [])), .reported 0,
        .prompt "s" [], .prompt "s" []]) ∧
    ¬OneTurn (AcpClient.run
      [.connectAndInitialize {} true, .settled 0 (.result (.obj [])), .reported 0,
        .prompt "s" [],
        .sessionUpdate (JsonObject.ofFields [("sessionId", .str "s"),
          ("update", .obj (JsonObject.ofFields
            [("sessionUpdate", .str "tool_call"), ("toolCallId", .str "t")]))]),
        .settled 1 (.exception (.timeoutError "Request 2 timed out")), .reported 1]) := by
  constructor
  · intro h
    have hsingle : 2 ≤ 1 := h.single "s"
    omega
  · intro h
    have hleft : some ({ toolCallId := "t" } : ToolCall) = none := h.tools "s" "t"
    cases hleft

end LLMQore.Acp
