import Mathlib.Data.Finset.Basic
import Mathlib.Logic.Function.Basic
import LLMQore.Tools.ToolRound
import LLMQore.Reentrant.Rules

/-!
# LLMQore.Tools.ToolsManager

The tools manager (`ToolsManager`) with its handler (`ToolHandler`): rounds of
tool calls, the execution gate, and the executions under way.

The code is written against a `ToolsHost`, which supplies what the manager calls
out to: the slots of its signals, the gate, and the bodies of the tools. A tool's
body and a gate may throw, so the code of the manager runs over `ExceptT`; what is
thrown leaves `advance` before its last line, as in the source.

Rounds are objects that are shared and that outlive their entry in
`m_toolRounds`, so they live on a heap and are named by reference. The futures of
gates and tools end in events of their own.

`ToolsManager.history` records what an observer sees, newest first. No code reads
it. A call gets a tag when it is dispatched; the question put to the gate, its
answer and the execution carry the tag, which too is for the observer only.
-/

namespace LLMQore.Tools

open Reentrant

/-- The address of a `ToolRound`. -/
abbrev RoundRef := Nat
/-- The identity of a dispatched call. -/
abbrev CallTag := Nat

inductive ToolSafety where
  | readOnly | mutating
  deriving DecidableEq

/-- A `BaseTool`: the object, and what its virtual functions return. -/
structure BaseTool where
  object : Nat
  id : String
  safety : ToolSafety := .mutating
  deriving DecidableEq

/-- What the body of a tool throws. -/
inductive ToolExn where
  | toolException (message : String)
  | stdException (what : String)
  | unknown
  deriving DecidableEq

/-- The text the handler makes of an exception. -/
def ToolExn.errorText : ToolExn → String
  | .toolException message =>
      if message.isEmpty then "Tool execution failed with empty error message" else message
  | .stdException what => if what.isEmpty then "Unknown exception occurred" else what
  | .unknown => "Unknown error occurred during tool execution"

/-- The text of an exception, unless it is of a type that has none. -/
def ToolExn.what : ToolExn → Option String
  | .toolException message => some message
  | .stdException what => some what
  | .unknown => none

/-- The arguments the gate is asked with and `executeToolAsync` is called with. -/
structure CallArgs where
  requestId : String
  toolId : String
  toolName : String
  input : JsonObject
  deriving DecidableEq

/-- `ExecutionKey`. -/
abbrev ExecutionKey := String × String

def CallArgs.key (args : CallArgs) : ExecutionKey := (args.requestId, args.toolId)

/-- A call as it was dispatched: the safety of its tool, `none` for an unknown
tool, and whether there was a gate. -/
structure Dispatch where
  round : RoundRef
  args : CallArgs
  safety : Option ToolSafety
  gated : Bool

/-- What an observer sees. -/
inductive ToolObservation where
  /-- A call was added to a round. -/
  | called (round : RoundRef) (id : String)
  | dispatched (tag : CallTag) (d : Dispatch)
  | settled (round : RoundRef) (id : String) (result : ToolResult)
  /-- `toolExecutionComplete` is about to be emitted for a round. -/
  | completed (round : RoundRef) (requestId : String)
      (results : AList (fun _ : String => ToolResult))
  /-- `cleanupRequest` dropped a round. -/
  | abandoned (round : RoundRef)
  /-- `cleanupRequest` has run; the rounds of the request so far are below `bound`. -/
  | cleaned (requestId : String) (bound : RoundRef)
  /-- The gate was asked about a call. -/
  | asked (tag : CallTag) (args : CallArgs)
  /-- The future of the gate yielded an answer; was the call's round open then? -/
  | yielded (tag : CallTag) (allowed : Bool) (roundOpen : Bool)
  /-- `toolExecutionStarted` is about to be emitted for a call. -/
  | announced (tag : CallTag) (args : CallArgs)
  /-- `executeToolAsync` was called for a call. -/
  | executed (tag : CallTag) (args : CallArgs)

/-- What the continuation of a gate's future has captured; the round the call is
from is for the observer. -/
structure GateWatcher where
  args : CallArgs
  round : RoundRef

/-- The state of a `ToolsManager` and its `ToolHandler`. -/
structure ToolsManager where
  /-- `m_tools` -/
  tools : AList (fun _ : String => BaseTool) := ∅
  /-- Is `m_executionGate` set? -/
  executionGate : Bool := false
  /-- The rounds, by address. -/
  rounds : RoundRef → ToolRound := fun _ => {}
  nextRound : RoundRef := 0
  /-- `m_toolRounds` -/
  toolRounds : AList (fun _ : String => RoundRef) := ∅
  /-- The keys of `m_activeExecutions`; a record adds nothing but a name to log. -/
  activeExecutions : Finset ExecutionKey := ∅
  /-- The futures of gates that have not ended. -/
  gates : AList (fun _ : CallTag => GateWatcher) := ∅
  nextTag : CallTag := 0
  history : List ToolObservation := []

namespace ToolsManager

def observe (s : ToolsManager) (o : ToolObservation) : ToolsManager :=
  { s with history := o :: s.history }

def setRound (s : ToolsManager) (round : RoundRef) (r : ToolRound) : ToolsManager :=
  { s with rounds := Function.update s.rounds round r }

/-- `std::make_shared<ToolRound>(this, requestId)`, filed under the request id. -/
def openRound (s : ToolsManager) (requestId : String) : ToolsManager :=
  { s.setRound s.nextRound { requestId } with
    nextRound := s.nextRound + 1
    toolRounds := s.toolRounds.insert requestId s.nextRound }

/-- The loop body of `addCalls`, on the heap. -/
def addCall (s : ToolsManager) (round : RoundRef) (call : ToolRound.Call) : ToolsManager :=
  if call.id ∈ (s.rounds round).indexById then s
  else (s.setRound round ((s.rounds round).addCall call)).observe (.called round call.id)

def addCalls (s : ToolsManager) (round : RoundRef) (calls : List ToolRound.Call) : ToolsManager :=
  calls.foldl (fun s call => s.addCall round call) s

/-- The round calls are added to: the open round of the request, or a new one. -/
def currentRound (s : ToolsManager) (requestId : String) : RoundRef × ToolsManager :=
  match s.toolRounds.lookup requestId with
  | none => (s.nextRound, s.openRound requestId)
  | some round =>
      if (s.rounds round).closed then (s.nextRound, s.openRound requestId) else (round, s)

/-- What `beginRound` does before it drives the round. -/
def extendRound (s : ToolsManager) (requestId : String) (calls : List ToolRound.Call) :
    ToolsManager :=
  let (round, s) := s.currentRound requestId
  s.addCalls round calls

def setAdvancing (s : ToolsManager) (round : RoundRef) (advancing : Bool) : ToolsManager :=
  s.setRound round { s.rounds round with advancing }

/-- `m_next++` -/
def takeNext (s : ToolsManager) (round : RoundRef) : ToolsManager :=
  s.setRound round { s.rounds round with next := (s.rounds round).next + 1 }

/-- A call is dispatched and gets the next tag. -/
def markDispatched (s : ToolsManager) (d : Dispatch) : ToolsManager :=
  { s with nextTag := s.nextTag + 1 }.observe (.dispatched s.nextTag d)

/-- The gate was asked and its future is watched. -/
def watchGate (s : ToolsManager) (tag : CallTag) (w : GateWatcher) : ToolsManager :=
  { s with gates := s.gates.insert tag w }

/-- The future of a gate yielded an answer. -/
def yieldGate (s : ToolsManager) (tag : CallTag) (w : GateWatcher) (allowed : Bool) :
    ToolsManager :=
  s.observe (.yielded tag allowed !(s.rounds w.round).closed)

def settleCall (s : ToolsManager) (round : RoundRef) (id : String) (result : ToolResult)
    (settled : ToolRound) : ToolsManager :=
  (s.setRound round settled).observe (.settled round id result)

/-- `close`, with the results that are about to be announced. -/
def closeRound (s : ToolsManager) (round : RoundRef) (requestId : String) : ToolsManager :=
  (s.setRound round { s.rounds round with closed := true }).observe
    (.completed round requestId (s.rounds round).results)

/-- Take a round from `m_toolRounds`, abandon it, and drop the executions of its
request. -/
def abandonRound (s : ToolsManager) (requestId : String) (round : RoundRef) : ToolsManager :=
  { s.setRound round (s.rounds round).abandon with
    toolRounds := s.toolRounds.erase requestId
    activeExecutions := s.activeExecutions.filter (·.1 ≠ (s.rounds round).requestId)
    }.observe (.abandoned round)

/-- Take the round of a request, if there is one, and abandon it. -/
def dropRound (s : ToolsManager) (requestId : String) : ToolsManager :=
  match s.toolRounds.lookup requestId with
  | none => s
  | some round => s.abandonRound requestId round

/-- `cleanupRequest`. -/
def cleanupRequest (s : ToolsManager) (requestId : String) : ToolsManager :=
  (s.dropRound requestId).observe (.cleaned requestId s.nextRound)

/-- `executeToolAsync` puts the execution on record. -/
def startRecord (s : ToolsManager) (tag : CallTag) (args : CallArgs) : ToolsManager :=
  { s with activeExecutions := insert args.key s.activeExecutions }.observe (.executed tag args)

/-- `addTool`. -/
def addTool (s : ToolsManager) (tool : BaseTool) : ToolsManager :=
  { s with tools := s.tools.insert tool.id tool }

/-- `removeTool`. -/
def removeTool (s : ToolsManager) (name : String) : ToolsManager :=
  { s with tools := s.tools.erase name }

end ToolsManager

/-! ### The surroundings of the code -/

/-- The signals of the manager. -/
inductive ToolsSignal where
  | toolExecutionStarted (args : CallArgs)
  | toolExecutionResult (requestId toolId toolName result : String)
  | toolExecutionComplete (requestId : String)
      (toolResults : AList (fun _ : String => ToolResult))
  | toolsChanged

/-- What the manager's code is written against. -/
structure ToolsHost (S : Sig) where
  manager : S.State → ToolsManager
  withManager : S.State → ToolsManager → S.State
  emit : ToolsSignal → Proc S Unit
  /-- Call the gate; it returns a future or throws. -/
  gate : CallArgs → Proc S (Except ToolExn Unit)
  /-- Call the body of a tool; it returns a future or throws. -/
  executeAsync : BaseTool → JsonObject → Proc S (Except ToolExn Unit)
  /-- The named procedures. -/
  driveRound : String → Proc S (Except ToolExn Unit)
  advanceLoop : RoundRef → Proc S (Except ToolExn Unit)

/-- Code that may throw. -/
abbrev Throws (S : Sig) (α : Type) := ExceptT ToolExn (Proc S) α

namespace ToolsHost

variable {S : Sig} (H : ToolsHost S)

def read : Proc S ToolsManager := Proc.reads H.manager

def modify (f : ToolsManager → ToolsManager) : Proc S Unit :=
  Proc.modify fun s => H.withManager s (f (H.manager s))

/-! ### Settling calls -/

/-- `finalizePendingTool`. -/
def finalizePendingTool (requestId toolId : String) (rich : ToolResult) (success : Bool) :
    Throws S Unit := do
  let s ← H.read
  match s.toolRounds.lookup requestId with
  | none => return
  | some round =>
      match (s.rounds round).settle toolId rich success with
      | none => return
      | some settled =>
          H.modify fun s => s.settleCall round toolId rich settled
          match settled.find toolId with
          | none => return
          | some pending =>
              H.emit (.toolExecutionResult requestId toolId pending.name pending.resultText)
              ExceptT.mk (H.driveRound requestId)

/-! ### Executions -/

/-- The input a tool's body gets. -/
def enrichedInput (args : CallArgs) : JsonObject :=
  if !args.requestId.isEmpty && !args.input.contains "_request_id" then
    args.input.insert "_request_id" (.str args.requestId)
  else args.input

/-- `executeToolAsync`. -/
def executeToolAsync (tag : CallTag) (args : CallArgs) (tool : BaseTool) : Throws S Unit := do
  H.modify fun s => s.startRecord tag args
  ExceptT.mk (H.executeAsync tool (enrichedInput args))

/-- `startExecution`. -/
def startExecution (tag : CallTag) (args : CallArgs) : Throws S Unit := do
  let s ← H.read
  match s.tools.lookup args.toolName with
  | none =>
      H.finalizePendingTool args.requestId args.toolId
        (.error ("Tool not found: " ++ args.toolName)) false
  | some instance' =>
      H.modify fun s => s.observe (.announced tag args)
      H.emit (.toolExecutionStarted args)
      H.executeToolAsync tag args instance'

/-! ### Rounds -/

/-- Ask the gate, and watch the future it returns. -/
def askGate (tag : CallTag) (round : RoundRef) (args : CallArgs) : Throws S Unit := do
  H.modify fun s => s.observe (.asked tag args)
  ExceptT.mk (H.gate args)
  H.modify fun s => s.watchGate tag ⟨args, round⟩

/-- `ToolRound::dispatch`, for the call found at the index. -/
def dispatchCall (round : RoundRef) (args : CallArgs) : Throws S Bool := do
  let s ← H.read
  match s.tools.lookup args.toolName with
  | none => do
      H.modify fun s => s.markDispatched ⟨round, args, none, s.executionGate⟩
      H.finalizePendingTool args.requestId args.toolId
        (.error ("Error: Tool not found: " ++ args.toolName)) false
      return false
  | some instance' => do
      H.modify fun s => s.markDispatched ⟨round, args, some instance'.safety, s.executionGate⟩
      if s.executionGate && instance'.safety == .mutating then
        H.askGate s.nextTag round args
        return true
      else
        H.startExecution s.nextTag args
        return true

/-- `ToolRound::dispatch`. -/
def dispatch (round : RoundRef) (index : Nat) : Throws S Bool := do
  let s ← H.read
  match (s.rounds round).pending[index]? with
  | none => return false
  | some call =>
      H.dispatchCall round ⟨(s.rounds round).requestId, call.id, call.name, call.input⟩

/-- The loop of `ToolRound::advance`. -/
def advanceBody (round : RoundRef) : Throws S Unit := do
  let s ← H.read
  let r := s.rounds round
  if r.next < r.pending.length then
    H.modify fun s => s.takeNext round
    if ← H.dispatch round r.next then return
    else ExceptT.mk (H.advanceLoop round)
  else return

/-- `ToolRound::advance`. -/
def advance (round : RoundRef) : Throws S Unit := do
  H.modify fun s => s.setAdvancing round true
  ExceptT.mk (H.advanceLoop round)
  H.modify fun s => s.setAdvancing round false

/-- The end of `driveRound`: announce the results of a settled round. -/
def announce (requestId : String) (round : RoundRef) : Proc S Unit := do
  let s ← H.read
  if (s.rounds round).closed || !(s.rounds round).isSettled then
    return
  else
    H.modify fun s => s.closeRound round requestId
    H.emit (.toolExecutionComplete requestId (s.rounds round).results)

/-- `driveRound`. -/
def driveBody (requestId : String) : Throws S Unit := do
  let s ← H.read
  match s.toolRounds.lookup requestId with
  | none => return
  | some round =>
      if (s.rounds round).closed || (s.rounds round).advancing then return
      else
        H.advance round
        H.announce requestId round

/-- `beginRound`. -/
def beginRound (requestId : String) (calls : List ToolRound.Call) : Throws S Unit := do
  if calls.isEmpty then return
  else
    H.modify fun s => s.extendRound requestId calls
    ExceptT.mk (H.driveRound requestId)

/-- `executeToolCall`. -/
def executeToolCall (args : CallArgs) : Throws S Unit :=
  H.beginRound args.requestId [⟨args.toolId, args.toolName, args.input⟩]

/-! ### The futures of gates and tools -/

/-- The continuation `dispatch` attaches to the gate's future. -/
def gateContinuation (tag : CallTag) (w : GateWatcher) (allowed : Bool) : Throws S Unit := do
  H.modify fun s => s.yieldGate tag w allowed
  if !allowed then
    H.finalizePendingTool w.args.requestId w.args.toolId
      (.error ("The user declined to run " ++ w.args.toolName)) false
  else
    H.startExecution tag w.args

/-- The watcher of a gate's future; a future that ends without a value throws
before the continuation, and what the continuation throws goes to a future nobody
keeps. -/
def gateFinished (tag : CallTag) (outcome : Except Unit Bool) : Proc S Unit := do
  let s ← H.read
  match s.gates.lookup tag with
  | none => return
  | some w =>
      H.modify fun s => { s with gates := s.gates.erase tag }
      match outcome with
      | .error _ => return
      | .ok allowed => discard (H.gateContinuation tag w allowed).run

/-- `onToolCompleted`. -/
def onToolCompleted (key : ExecutionKey) (result : ToolResult) : Throws S Unit :=
  H.finalizePendingTool key.1 key.2 result true

/-- `onToolErrored`. -/
def onToolErrored (key : ExecutionKey) (errorText : String) : Throws S Unit :=
  H.finalizePendingTool key.1 key.2 (.error errorText) false

/-- The `try` block of `onToolExecutionFinished`. -/
def reportResult (key : ExecutionKey) : Except ToolExn ToolResult → Throws S Unit
  | .error e => throw e
  | .ok result =>
      if result.isError then
        H.onToolErrored key
          (if result.asText.isEmpty then "Tool reported an error" else result.asText)
      else H.onToolCompleted key result

/-- `onToolExecutionFinished`: what the slots throw is caught like what the
future holds. -/
def onToolExecutionFinished (key : ExecutionKey) (outcome : Except ToolExn ToolResult) :
    Proc S Unit := do
  let s ← H.read
  if key ∈ s.activeExecutions then
    H.modify fun s => { s with activeExecutions := s.activeExecutions.erase key }
    match ← (H.reportResult key outcome).run with
    | .ok () => return
    | .error e => discard (H.onToolErrored key e.errorText).run
  else return

end ToolsHost

/-! ### Events -/

/-- Calls of the manager's API, and the futures of its gates and tools. -/
inductive ToolsCall where
  | addTool (tool : BaseTool)
  | removeTool (name : String)
  | removeAllTools
  | setExecutionGate (installed : Bool)
  | beginRound (requestId : String) (calls : List ToolRound.Call)
  | executeToolCall (args : CallArgs)
  | cleanupRequest (requestId : String)
  | gateFinished (tag : CallTag) (outcome : Except Unit Bool)
  | executionFinished (key : ExecutionKey) (outcome : Except ToolExn ToolResult)

/-- The code of each call; what it throws goes to the caller. -/
def ToolsHost.call {S : Sig} (H : ToolsHost S) : ToolsCall → Proc S Unit
  | .addTool tool => do
      H.modify fun s => s.addTool tool
      H.emit .toolsChanged
  | .removeTool name => do
      let s ← H.read
      if name ∈ s.tools then
        H.modify fun s => s.removeTool name
        H.emit .toolsChanged
      else return
  | .removeAllTools => do
      let s ← H.read
      if s.tools.keys.isEmpty then return
      else
        H.modify fun s => { s with tools := ∅ }
        H.emit .toolsChanged
  | .setExecutionGate installed => H.modify fun s => { s with executionGate := installed }
  | .beginRound requestId calls => discard (H.beginRound requestId calls).run
  | .executeToolCall args => discard (H.executeToolCall args).run
  | .cleanupRequest requestId => H.modify fun s => s.cleanupRequest requestId
  | .gateFinished tag outcome => H.gateFinished tag outcome
  | .executionFinished key outcome => H.onToolExecutionFinished key outcome

/-! ### The machine -/

/-- What the manager calls out to. -/
inductive ToolsOut where
  | emit (signal : ToolsSignal)
  | gate (args : CallArgs)
  | executeAsync (tool : BaseTool) (input : JsonObject)

/-- A gate and a tool's body return a future or throw. -/
def ToolsOut.Ans : ToolsOut → Type
  | .emit _ => Unit
  | .gate _ | .executeAsync .. => Except ToolExn Unit

/-- Every call-out returns. -/
def ToolsOut.returns : (e : ToolsOut) → e.Ans
  | .emit _ => ()
  | .gate _ | .executeAsync .. => .ok ()

/-- The named procedures. -/
inductive ToolsFn where
  | driveRound (requestId : String)
  | advanceLoop (round : RoundRef)

abbrev ToolsSig : Sig where
  State := ToolsManager
  Out := ToolsOut
  Ans := ToolsOut.Ans
  Fn := ToolsFn
  Res _ := Except ToolExn Unit

/-- The manager's own surroundings. -/
def toolsHost : ToolsHost ToolsSig where
  manager s := s
  withManager _ s := s
  emit signal := Proc.query (S := ToolsSig) (.emit signal)
  gate args := Proc.query (S := ToolsSig) (.gate args)
  executeAsync tool input := Proc.query (S := ToolsSig) (.executeAsync tool input)
  driveRound requestId := Proc.invoke (S := ToolsSig) (.driveRound requestId)
  advanceLoop round := Proc.invoke (S := ToolsSig) (.advanceLoop round)

def toolsMachine : Machine ToolsSig where
  Event := ToolsCall
  entry c := toolsHost.call c
  body
    | .driveRound requestId => (toolsHost.driveBody requestId).run
    | .advanceLoop round => (toolsHost.advanceBody round).run

end LLMQore.Tools
