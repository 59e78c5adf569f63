import LLMQore.Mcp.HttpServer
import LLMQore.Mcp.McpTypes

/-!
# LLMQore.Mcp.McpToolBinder

The binder of the tools of MCP servers (`McpToolBinder`).

A binding has a client, and the tools its server listed stand in the registry. A connection
attempt is the chain of continuations `initializeClient` makes, a listing that of
`resyncClient`; what a continuation waits for comes from the event loop, so each is an event
here. A client is only called: whether it connects, what it lists and when it says it has
disconnected is up to the surroundings. Nobody who is told that the registry changed enters the
binder.
-/

namespace LLMQore.Mcp

open Reentrant McpTypes

/-- The identity of a `McpClient`. -/
abbrev ClientId := Nat
/-- The identity of a tool. -/
abbrev ToolRef := Nat
/-- The identity of a connection attempt. -/
abbrev AttemptId := Nat
/-- The identity of a listing. -/
abbrev ListingId := Nat

def kInitialBackoffMs : Nat := 1000
def kMaxBackoffMs : Nat := 30000

/-- `ServerEndpoint`, as far as the choice of its transport depends on it. -/
structure ServerEndpoint where
  name : String := ""
  hasHttpEndpoint : Bool := false
  command : String := ""

/-- Does `makeTransport` make a transport? -/
def ServerEndpoint.isValid (endpoint : ServerEndpoint) : Bool :=
  endpoint.hasHttpEndpoint || !endpoint.command.isEmpty

/-- `McpRemoteTool`. -/
structure McpRemoteTool where
  client : ClientId
  serverName : String
  info : ToolInfo

/-- `McpRemoteTool::composeId`. -/
def composeId (serverName toolName : String) : String :=
  if serverName.isEmpty then toolName else serverName ++ "_" ++ toolName

/-- `McpRemoteTool::id`. -/
def McpRemoteTool.id (tool : McpRemoteTool) : String := composeId tool.serverName tool.info.name

/-- `Binding`. -/
structure Binding where
  name : String
  tools : List ToolRef := []
  owned : Bool := false
  autoReconnect : Bool := false
  reconnectPending : Bool := false
  backoffMs : Nat := 0

/-- What a connection attempt waits for; it is `busy` while its code runs. -/
inductive AttemptPhase where
  | busy | connecting | listing
  /-- The client was gone when it had connected. -/
  | failing
  deriving DecidableEq

/-- A connection attempt: what its continuations have captured. -/
structure Attempt where
  client : ClientId
  name : String
  phase : AttemptPhase

/-- A listing: what its continuations have captured. -/
structure Listing where
  client : ClientId
  name : String
  busy : Bool

/-- What becomes of the tools of a binding. -/
inductive BinderObservation where
  | applied (client : ClientId) (tools : List ToolInfo)
  | cleared (client : ClientId)

/-- A `McpToolBinder` with its registry. -/
structure ToolBinder where
  bindings : AList (fun _ : ClientId => Binding) := ∅
  stopping : Bool := false
  /-- The tools of the registry, those of other providers too. -/
  registry : AList (fun _ : String => ToolRef) := ∅
  /-- The `McpRemoteTool`s that are not deleted. -/
  tools : AList (fun _ : ToolRef => McpRemoteTool) := ∅
  /-- The tools that will be deleted when control returns to the event loop. -/
  doomed : Finset ToolRef := ∅
  /-- The clients that are not deleted. -/
  alive : Finset ClientId := ∅
  /-- The running timers of `scheduleReconnect`, each with the client its slot has captured. -/
  timers : AList (fun _ : TimerId => ClientId) := ∅
  attempts : AList (fun _ : AttemptId => Attempt) := ∅
  listings : AList (fun _ : ListingId => Listing) := ∅
  nextClient : ClientId := 0
  nextTool : ToolRef := 0
  nextTimer : TimerId := 0
  nextAttempt : AttemptId := 0
  nextListing : ListingId := 0
  history : List BinderObservation := []

namespace ToolBinder

/-! ### The registry -/

/-- `ToolRegistry::addTool`, of a new tool. -/
def addTool (tool : McpRemoteTool) (s : ToolBinder) : ToolBinder :=
  { s with
    nextTool := s.nextTool + 1
    tools := s.tools.insert s.nextTool tool
    registry := s.registry.insert tool.id s.nextTool }

/-- `ToolRegistry::removeTool`. -/
def removeTool (name : String) (s : ToolBinder) : ToolBinder :=
  match s.registry.lookup name with
  | none => s
  | some ref => { s with registry := s.registry.erase name, doomed := insert ref s.doomed }

/-- The body of the loop of `clearTools`. -/
def clearTool (s : ToolBinder) (ref : ToolRef) : ToolBinder :=
  match s.tools.lookup ref with
  | none => s
  | some tool => if s.registry.lookup tool.id = some ref then s.removeTool tool.id else s

/-- `clearTools`. -/
def clearTools (client : ClientId) (s : ToolBinder) : ToolBinder :=
  match s.bindings.lookup client with
  | none => s
  | some binding =>
      { binding.tools.foldl clearTool s with
        bindings := s.bindings.insert client { binding with tools := [] }
        history := .cleared client :: s.history }

/-- `current`: the tools of a binding that are not deleted, by their id. -/
def currentTools (s : ToolBinder) (binding : Binding) : AList (fun _ : String => ToolRef) :=
  binding.tools.foldl
    (fun current ref =>
      match s.tools.lookup ref with
      | none => current
      | some tool => current.insert tool.id ref) ∅

/-- The tool of the binding under an id, if it is what the server lists. -/
def unchangedTool (s : ToolBinder) (mine : Option ToolRef) (info : ToolInfo) : Option ToolRef :=
  match mine with
  | none => none
  | some ref =>
      match s.tools.lookup ref with
      | none => none
      | some tool =>
          if ToolInfo.schema.toJson tool.info = ToolInfo.schema.toJson info then some ref else none

/-- The body of the loop of `applyTools` over the tools that are listed; the other result is
`next`. -/
def applyTool (client : ClientId) (binding : Binding)
    (current : AList (fun _ : String => ToolRef)) (acc : ToolBinder × List ToolRef)
    (info : ToolInfo) : ToolBinder × List ToolRef :=
  let (s, next) := acc
  let id := composeId binding.name info.name
  let mine := current.lookup id
  match s.unchangedTool mine info with
  | some ref => (s, next ++ [ref])
  | none =>
      let registered := s.registry.lookup id
      if registered.isSome ∧ registered ≠ mine then
        -- registered by another provider
        (s, next)
      else
        let s := if mine.isSome then s.removeTool id else s
        (s.addTool ⟨client, binding.name, info⟩, next ++ [s.nextTool])

/-- The loop of `applyTools` over the tools that were there. -/
def dropStale (incoming : List String) (s : ToolBinder) (entry : Sigma fun _ : String => ToolRef) :
    ToolBinder :=
  if entry.1 ∉ incoming ∧ s.registry.lookup entry.1 = some entry.2 then s.removeTool entry.1
  else s

/-- `applyTools`. -/
def applyTools (client : ClientId) (tools : List ToolInfo) (s : ToolBinder) : ToolBinder :=
  match s.bindings.lookup client with
  | none => s
  | some binding =>
      let current := s.currentTools binding
      let incoming := tools.map fun info => composeId binding.name info.name
      let (applied, next) := tools.foldl (applyTool client binding current) (s, [])
      { current.entries.foldl (dropStale incoming) applied with
        bindings := s.bindings.insert client { binding with tools := next }
        history := .applied client tools :: s.history }

/-! ### Timers and attempts -/

/-- `scheduleReconnect`. -/
def scheduleReconnect (client : ClientId) (s : ToolBinder) : ToolBinder :=
  match s.bindings.lookup client with
  | none => s
  | some binding =>
      if binding.reconnectPending || s.stopping then s
      else
        { s with
          bindings := s.bindings.insert client { binding with reconnectPending := true }
          timers := s.timers.insert s.nextTimer client
          nextTimer := s.nextTimer + 1 }

/-- An attempt begins. -/
def beginAttempt (client : ClientId) (s : ToolBinder) : ToolBinder :=
  let name := ((s.bindings.lookup client).map (·.name)).getD ""
  { s with
    nextAttempt := s.nextAttempt + 1
    attempts := s.attempts.insert s.nextAttempt ⟨client, name, .busy⟩ }

/-- An attempt goes on. -/
def setPhase (attempt : AttemptId) (phase : AttemptPhase) (s : ToolBinder) : ToolBinder :=
  match s.attempts.lookup attempt with
  | none => s
  | some a => { s with attempts := s.attempts.insert attempt { a with phase } }

/-- The last continuation of an attempt has its result. -/
def endAttempt (attempt : AttemptId) (s : ToolBinder) : ToolBinder :=
  { s with attempts := s.attempts.erase attempt }

/-- A binding is changed. -/
def updateBinding (client : ClientId) (f : Binding → Binding) (s : ToolBinder) : ToolBinder :=
  match s.bindings.lookup client with
  | none => s
  | some binding => { s with bindings := s.bindings.insert client (f binding) }

/-- The binding a guard still leads to. -/
def guarded (s : ToolBinder) (client : ClientId) : Option Binding :=
  if client ∈ s.alive then s.bindings.lookup client else none

/-- What the last continuation of an attempt does to the bindings when it has failed. -/
def initFailed (client : ClientId) (s : ToolBinder) : ToolBinder :=
  match s.guarded client with
  | none => s
  | some binding =>
      let s := s.updateBinding client fun b => { b with reconnectPending := false }
      if binding.autoReconnect && !s.stopping then
        (s.updateBinding client fun b =>
          { b with backoffMs := min (b.backoffMs * 2) kMaxBackoffMs }).scheduleReconnect client
      else s

/-- `attach`. -/
def attach (client : ClientId) (name : String) (owned autoReconnect : Bool) (s : ToolBinder) :
    ToolBinder :=
  { s with
    bindings := s.bindings.insert client
      { name, owned, autoReconnect, backoffMs := kInitialBackoffMs } }

/-- A client is made. -/
def newClient (s : ToolBinder) : ToolBinder :=
  { s with nextClient := s.nextClient + 1, alive := insert s.nextClient s.alive }

/-- `removeClient`, and the slot of a client's `destroyed`. -/
def removeClient (client : ClientId) (s : ToolBinder) : ToolBinder :=
  match s.bindings.lookup client with
  | none => s
  | some _ =>
      let cleared := s.clearTools client
      { cleared with bindings := cleared.bindings.erase client }

end ToolBinder

/-! ### The code of the binder -/

/-- What the binder calls out to: its clients, and the slots of its signals. -/
inductive BinderOut where
  /-- `connectAndInitialize`, up to its future. -/
  | connectAndInitialize (client : ClientId)
  /-- `listToolsOf`, up to its future. -/
  | listTools (client : ClientId)
  /-- The client's `shutdown`. -/
  | shutdown (client : ClientId)
  | serverInitialized (name : String)
  | serverInitFailed (name error : String)
  | toolsSynced (name : String) (toolCount : Nat)
  /-- The client is for the observer. -/
  | serverDisconnected (client : ClientId) (name : String)

abbrev BinderSig : Sig where
  State := ToolBinder
  Out := BinderOut
  Ans _ := Unit
  Fn := Empty
  Res := nofun

namespace ToolBinder

/-- `initializeClient`. -/
def initializeClient (client : ClientId) : Proc BinderSig Unit := do
  let attempt ← Proc.reads (S := BinderSig) (·.nextAttempt)
  Proc.modify (S := BinderSig) (beginAttempt client)
  Proc.query (S := BinderSig) (.connectAndInitialize client)
  Proc.modify (S := BinderSig) (setPhase attempt .connecting)

/-- `resyncClient`. -/
def resyncClient (client : ClientId) : Proc BinderSig Unit := do
  match (← Proc.reads (S := BinderSig) (·.bindings)).lookup client with
  | none => pure ()
  | some binding =>
      let listing ← Proc.reads (S := BinderSig) (·.nextListing)
      Proc.modify (S := BinderSig) fun s =>
        { s with
          nextListing := s.nextListing + 1
          listings := s.listings.insert s.nextListing ⟨client, binding.name, true⟩ }
      Proc.query (S := BinderSig) (.listTools client)
      Proc.modify (S := BinderSig) fun s =>
        { s with listings := s.listings.insert listing ⟨client, binding.name, false⟩ }

/-- `addServer`. -/
def addServer (endpoint : ServerEndpoint) : Proc BinderSig Bool := do
  if endpoint.isValid then
    let client ← Proc.reads (S := BinderSig) (·.nextClient)
    Proc.modify (S := BinderSig) fun s => s.newClient.attach client endpoint.name true true
    initializeClient client
    return true
  else
    return false

/-- `addClient`; a client that is gone is null. -/
def addClient (client : ClientId) (serverName : String) (autoReconnect : Bool) :
    Proc BinderSig Unit := do
  let s ← Proc.read (S := BinderSig)
  if client ∉ s.alive ∨ client ∈ s.bindings then
    pure ()
  else
    Proc.modify (S := BinderSig) (attach client serverName false autoReconnect)
    resyncClient client

/-- The loop of `shutdown`. -/
def shutdownClients : List ClientId → Proc BinderSig Unit
  | [] => pure ()
  | client :: rest => do
      match (← Proc.reads (S := BinderSig) (·.bindings)).lookup client with
      | none => shutdownClients rest
      | some binding =>
          if binding.owned then
            Proc.query (S := BinderSig) (.shutdown client)
            shutdownClients rest
          else
            shutdownClients rest

/-- `shutdown`. -/
def shutdown : Proc BinderSig Unit := do
  Proc.modify (S := BinderSig) fun s => { s with stopping := true }
  shutdownClients (← Proc.reads (S := BinderSig) (·.bindings)).keys

/-- The slot of a client's `disconnected`. -/
def onDisconnected (client : ClientId) : Proc BinderSig Unit := do
  match (← Proc.reads (S := BinderSig) (·.bindings)).lookup client with
  | none => pure ()
  | some binding =>
      Proc.query (S := BinderSig) (.serverDisconnected client binding.name)
      let s ← Proc.read (S := BinderSig)
      match s.bindings.lookup client with
      | none => pure ()
      | some binding =>
          if binding.autoReconnect && !s.stopping then
            Proc.modify (S := BinderSig) fun s => (s.clearTools client).scheduleReconnect client
          else
            pure ()

/-- The slot of a reconnect timer. -/
def onReconnectTimer (timer : TimerId) : Proc BinderSig Unit := do
  match (← Proc.reads (S := BinderSig) (·.timers)).lookup timer with
  | none => pure ()
  | some client =>
      Proc.modify (S := BinderSig) fun s => { s with timers := s.timers.erase timer }
      let s ← Proc.read (S := BinderSig)
      if s.stopping ∨ client ∉ s.alive ∨ client ∉ s.bindings then
        pure ()
      else
        initializeClient client

/-- The first continuation of an attempt: its client has connected. -/
def onConnected (attempt : AttemptId) : Proc BinderSig Unit := do
  let s ← Proc.read (S := BinderSig)
  match s.attempts.lookup attempt with
  | none => pure ()
  | some a =>
      if a.phase ≠ .connecting then
        pure ()
      else if a.client ∉ s.alive then
        Proc.modify (S := BinderSig) (setPhase attempt .failing)
      else
        Proc.modify (S := BinderSig) (setPhase attempt .busy)
        Proc.query (S := BinderSig) (.listTools a.client)
        Proc.modify (S := BinderSig) (setPhase attempt .listing)

/-- The second continuation of an attempt: its client has listed its tools. -/
def onListed (attempt : AttemptId) (tools : List ToolInfo) : Proc BinderSig Unit := do
  let s ← Proc.read (S := BinderSig)
  match s.attempts.lookup attempt with
  | none => pure ()
  | some a =>
      if a.phase ≠ .listing then
        pure ()
      else
        Proc.modify (S := BinderSig) (endAttempt attempt)
        if (s.guarded a.client).isNone then
          pure ()
        else
          Proc.modify (S := BinderSig) fun s =>
            (s.updateBinding a.client fun b =>
              { b with reconnectPending := false, backoffMs := kInitialBackoffMs }).applyTools
                a.client tools
          Proc.query (S := BinderSig) (.toolsSynced a.name tools.length)
          Proc.query (S := BinderSig) (.serverInitialized a.name)

/-- The last continuation of an attempt, which has failed. -/
def onInitFailed (attempt : AttemptId) (error : String) : Proc BinderSig Unit := do
  match (← Proc.reads (S := BinderSig) (·.attempts)).lookup attempt with
  | none => pure ()
  | some a =>
      if a.phase = .busy then
        pure ()
      else
        Proc.modify (S := BinderSig) (setPhase attempt .busy)
        Proc.query (S := BinderSig) (.serverInitFailed a.name error)
        Proc.modify (S := BinderSig) fun s => (s.endAttempt attempt).initFailed a.client

/-- The continuations of a listing; one that failed has no tools. -/
def onResynced (listing : ListingId) (tools : Option (List ToolInfo)) : Proc BinderSig Unit := do
  let s ← Proc.read (S := BinderSig)
  match s.listings.lookup listing with
  | none => pure ()
  | some l =>
      if l.busy then
        pure ()
      else
        Proc.modify (S := BinderSig) fun s => { s with listings := s.listings.erase listing }
        match tools with
        | none => pure ()
        | some tools =>
            if (s.guarded l.client).isNone then
              pure ()
            else
              Proc.modify (S := BinderSig) (applyTools l.client tools)
              Proc.query (S := BinderSig) (.toolsSynced l.name tools.length)

end ToolBinder

/-! ### The machine -/

inductive BinderEvent where
  | addServer (endpoint : ServerEndpoint)
  | addClient (client : ClientId) (serverName : String) (autoReconnect : Bool)
  | removeClient (client : ClientId)
  | shutdown
  /-- Someone else makes a client. -/
  | clientCreated
  | clientDestroyed (client : ClientId)
  | toolsChanged (client : ClientId)
  | disconnected (client : ClientId)
  | reconnectTimer (timer : TimerId)
  | connected (attempt : AttemptId)
  | listed (attempt : AttemptId) (tools : List ToolInfo)
  | initFailed (attempt : AttemptId) (error : String)
  | resynced (listing : ListingId) (tools : Option (List ToolInfo))
  /-- Someone else puts a tool into the registry. -/
  | toolAdded (name : String)
  | toolRemoved (name : String)
  /-- The event loop deletes a tool. -/
  | toolDeleted (tool : ToolRef)

/-- The code of each event. -/
def binderEntry : BinderEvent → Proc BinderSig Unit
  | .addServer endpoint => discard <| ToolBinder.addServer endpoint
  | .addClient client serverName autoReconnect =>
      ToolBinder.addClient client serverName autoReconnect
  | .removeClient client => Proc.modify (S := BinderSig) (ToolBinder.removeClient client)
  | .shutdown => ToolBinder.shutdown
  | .clientCreated => Proc.modify (S := BinderSig) ToolBinder.newClient
  | .clientDestroyed client =>
      Proc.modify (S := BinderSig) fun s =>
        { s with alive := s.alive.erase client }.removeClient client
  | .toolsChanged client => ToolBinder.resyncClient client
  | .disconnected client => ToolBinder.onDisconnected client
  | .reconnectTimer timer => ToolBinder.onReconnectTimer timer
  | .connected attempt => ToolBinder.onConnected attempt
  | .listed attempt tools => ToolBinder.onListed attempt tools
  | .initFailed attempt error => ToolBinder.onInitFailed attempt error
  | .resynced listing tools => ToolBinder.onResynced listing tools
  | .toolAdded name =>
      Proc.modify (S := BinderSig) fun s =>
        { s with nextTool := s.nextTool + 1, registry := s.registry.insert name s.nextTool }
  | .toolRemoved name => Proc.modify (S := BinderSig) (ToolBinder.removeTool name)
  | .toolDeleted tool =>
      Proc.modify (S := BinderSig) fun s =>
        if tool ∈ s.doomed then { s with tools := s.tools.erase tool } else s

def binderMachine : Machine BinderSig where
  Event := BinderEvent
  entry := binderEntry
  body := nofun

end LLMQore.Mcp
