import LLMQore.Rpc.StdioClientTransport
import LLMQore.Mcp.StdioServerTransport

/-!
# LLMQore.Mcp.TransportLifeCycle

The life of the transports that read a stream or a queue: when each of them closes once for
each time it was opened, and receives nothing after that.
-/

namespace LLMQore.Mcp

open Reentrant Rpc

/-- In every run in which nothing closes a transport again, or while a message it has read or
queued waits to be received, the three transports live as their users rely on: they are closed
at most once for each time they were opened, and receive nothing until they are opened again. -/
theorem transport_life_cycle (json : JsonCodec) :
    (∀ config c, Reaches (StdioClientTransport.orderlySurroundings json) (.idle { config }) c →
      c.Waiting → LifeCycle c.state.log) ∧
    (∀ hasOutput c, Reaches (McpStdioServerTransport.orderlySurroundings json)
      (.idle { hasOutput }) c → c.Waiting → LifeCycle c.state.log) ∧
    (∀ c, Reaches (Surroundings.only pipeMachine Pipe.DeliversOpen) (.idle {}) c →
      c.Waiting → ∀ e, LifeCycle (c.state.transport e).log) :=
  ⟨fun _ _ hrun hw => StdioClientTransport.lifeCycle hrun hw,
    fun _ _ hrun hw => McpStdioServerTransport.lifeCycle hrun hw,
    fun _ hrun hw e => Pipe.lifeCycle hrun hw e⟩

/-- A codec that reads an empty object from every line. -/
def emptyObjects : JsonCodec := ⟨fun _ => .object [], fun _ => "{}"⟩

/-- Two lines. -/
def twoLines : Bytes := [123, 125, Bytes.lf, 123, 125, Bytes.lf]

/-- A child that starts in time and writes two lines. -/
def childAnswers : (e : StdioOut) → StdioOut.Ans e
  | .waitForStarted => true
  | .errorString => ""
  | .readAllStandardOutput => twoLines
  | .readAllStandardError => []
  | .startProcess _ _ => ()
  | .write _ => ()
  | .messageReceived _ => ()
  | .errorOccurred _ => ()
  | .stderrLine _ => ()
  | .closed => ()

/-- An output device that writes all it is given. -/
def deviceAnswers : (e : StdioServerOut) → StdioServerOut.Ans e
  | .write _ => true
  | .errorString => ""
  | .writeStdout _ => ()
  | .messageReceived _ => ()
  | .errorOccurred _ => ()
  | .closed => ()

/-- A child writes two lines, and is stopped once both are received. -/
def stopAfterTwo : List (Move (stdioMachine emptyObjects)) :=
  [.event .start, .answer childAnswers, .answer childAnswers,
    .event .readyReadStandardOutput, .answer childAnswers, .answer childAnswers,
    .answer childAnswers, .event .stop, .answer childAnswers]

/-- Two lines arrive at a server, which is stopped once both are received. -/
def serveTwo : List (Move (stdioServerMachine emptyObjects)) :=
  [.event .start, .event (.arrived twoLines), .event .readyRead, .answer deviceAnswers,
    .answer deviceAnswers, .event .stop, .answer deviceAnswers]

/-- A message is delivered to an end that is stopped afterwards. -/
def deliverThenStop : List (Move pipeMachine) :=
  [.event (.start .a), .event (.start .b), .event (.send .a []), .event .nextDelivery,
    .answer fun _ => (), .event (.stop .b), .answer fun _ => ()]

/-- Runs in which nothing comes out of order: what was sent is received, and then the transport
is stopped. -/
theorem transport_life_cycle_orderly :
    (LifeCycle (play (stdioMachine emptyObjects) 0 stopAfterTwo (.idle {})).state.log ∧
      (play (stdioMachine emptyObjects) 0 stopAfterTwo (.idle {})).state.log =
        [.closed, .stopCalled, .received [], .received [], .opened, .launched, .startCalled]) ∧
    (LifeCycle (play (stdioServerMachine emptyObjects) 0 serveTwo (.idle {})).state.log ∧
      (play (stdioServerMachine emptyObjects) 0 serveTwo (.idle {})).state.log =
        [.closed, .stopCalled, .received [], .received [], .opened, .startCalled]) ∧
    (LifeCycle ((play pipeMachine 0 deliverThenStop (.idle {})).state.transport .b).log ∧
      ((play pipeMachine 0 deliverThenStop (.idle {})).state.transport .b).log =
        [.closed, .stopCalled, .received [], .opened, .startCalled]) := by
  refine ⟨⟨(transport_life_cycle emptyObjects).1 {} _ (reaches_play ?_) (.inl rfl), rfl⟩,
    ⟨(transport_life_cycle emptyObjects).2.1 true _ (reaches_play ?_) (.inl rfl), rfl⟩,
    ⟨(transport_life_cycle emptyObjects).2.2 _ (reaches_play ?_) (.inl rfl) .b, rfl⟩⟩
  · exact ⟨trivial, trivial, rfl, trivial, .inl rfl, trivial, trivial, ⟨rfl, .inr rfl⟩, trivial,
      trivial⟩
  · exact ⟨trivial, trivial, trivial, trivial, trivial, fun _ => ⟨rfl, rfl⟩, trivial, trivial⟩
  · refine ⟨trivial, trivial, trivial, fun e message rest hq => ?_, trivial, trivial, trivial,
      trivial⟩
    -- the only delivery that waits is to the other end
    obtain ⟨rfl, -⟩ : PipeEnd.b = e ∧ ([] : JsonObject) = message :=
      Prod.mk.inj (List.cons.inj hq).1
    rfl

/-- The slot of the first of two messages stops the transport. -/
def stopFromSlot : List (Move (stdioMachine emptyObjects)) :=
  [.event .start, .answer childAnswers, .answer childAnswers,
    .event .readyReadStandardOutput, .answer childAnswers,
    .event .stop, .answer childAnswers, .answer childAnswers]

/-- The input channel finishes, and the slot of its last message stops the transport. -/
def stopWhileFinishing : List (Move (stdioServerMachine emptyObjects)) :=
  [.event .start, .event (.arrived [123, 125, Bytes.lf]), .event .readChannelFinished,
    .event .stop, .answer deviceAnswers, .answer deviceAnswers]

/-- A message is on its way to an end that is stopped. -/
def stopWhileQueued : List (Move pipeMachine) :=
  [.event (.start .a), .event (.start .b), .event (.send .a []), .event (.stop .b),
    .answer fun _ => (), .event .nextDelivery]

/-- A history that ends in what may not follow does not live. -/
theorem not_lifeCycle {o : TransportObservation} {earlier : List TransportObservation}
    (h : ¬ Lives earlier o) : ¬ LifeCycle (o :: earlier) := fun hl => h (ordered_cons.mp hl).1

/-- A message is received after `closed` over standard streams and over a pipe, and `closed` is
emitted twice over a pair of devices. -/
theorem transports_not_lifeCycle :
    (∃ c, Reaches (stdioSurroundings emptyObjects) (.idle {}) c ∧ c.Waiting ∧
      ¬ LifeCycle c.state.log) ∧
    (∃ c, Reaches (stdioServerSurroundings emptyObjects) (.idle {}) c ∧ c.Waiting ∧
      ¬ LifeCycle c.state.log) ∧
    (∃ c, Reaches (Surroundings.any pipeMachine) (.idle {}) c ∧ c.Waiting ∧
      ¬ LifeCycle (c.state.transport .b).log) := by
  refine ⟨⟨play _ 0 stopFromSlot _, reaches_play ?_, .inr ⟨_, _, rfl⟩, ?_⟩,
    ⟨play _ 0 stopWhileFinishing _, reaches_play ?_, .inr ⟨_, _, rfl⟩, ?_⟩,
    ⟨play _ 0 stopWhileQueued _, reaches_play ?_, .inr ⟨_, _, rfl⟩, ?_⟩⟩
  · exact ⟨trivial, trivial, trivial, trivial, trivial, trivial, trivial, trivial, trivial⟩
  · show ¬ LifeCycle [.received [], .closed, .stopCalled, .received [], .opened, .launched,
      .startCalled]
    exact not_lifeCycle Bool.noConfusion
  · exact ⟨trivial, trivial, trivial, trivial, trivial, trivial, trivial⟩
  · show ¬ LifeCycle [.closed, .closed, .stopCalled, .received [], .opened, .startCalled]
    exact not_lifeCycle Bool.noConfusion
  · exact ⟨trivial, trivial, trivial, trivial, trivial, trivial, trivial⟩
  · show ¬ LifeCycle [.received [], .closed, .stopCalled, .opened, .startCalled]
    exact not_lifeCycle Bool.noConfusion

end LLMQore.Mcp
