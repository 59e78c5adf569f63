import LLMQore.Mcp.McpToolBinder
import LLMQore.Mcp.TransportLifeCycle
import LLMQore.Reentrant.Implement

/-!
# LLMQore.Mcp.StdioBinding

The binder of the tools of MCP servers over the transports of its clients.

The client of a server that is a child process has a `StdioClientTransport`, which nobody but
its `ProtocolPeer` starts or stops. The peer starts a transport that is not open and stops one
that is; so of the three ways a transport comes to be closed, only `stop` leads to one that can
be started again.
-/

namespace LLMQore.Mcp

open Reentrant Rpc

/-- `ProtocolPeer::open`. -/
def ProtocolPeer.open : Proc StdioSig Unit := do
  if (← Proc.reads (S := StdioSig) (·.isOpen)) then
    pure ()
  else
    StdioClientTransport.start

/-- `ProtocolPeer::close`. -/
def ProtocolPeer.close : Proc StdioSig Unit := do
  if (← Proc.reads (S := StdioSig) (·.isOpen)) then
    StdioClientTransport.stop
  else
    pure ()

/-- The code of each event of a transport whose user is its peer. -/
def peerEntry (json : JsonCodec) : StdioEvent → Proc StdioSig Unit
  | .start => ProtocolPeer.open
  | .stop => ProtocolPeer.close
  | e => stdioEntry json e

/-! ### The binder over its transports -/

/-- A binder, and the transports of the clients. -/
structure BoundTransports where
  binder : ToolBinder := {}
  transport : ClientId → StdioClientTransport

inductive BoundOut where
  | binder (e : BinderOut)
  | transport (client : ClientId) (e : StdioOut)

def BoundOut.Ans : BoundOut → Type
  | .binder _ => Unit
  | .transport _ e => StdioOut.Ans e

abbrev BoundSig : Sig where
  State := BoundTransports
  Out := BoundOut
  Ans := BoundOut.Ans
  Fn := Empty
  Res := nofun

namespace BoundTransports

/-- The transport of a client. -/
def ofTransport (client : ClientId) : Implementation StdioSig BoundSig where
  part t := t.transport client
  withPart t s := { t with transport := Function.update t.transport client s }
  part_withPart _ _ := Function.update_self ..
  out e := Proc.query (S := BoundSig) (.transport client e)
  fn := nofun
  res := nofun

/-- What a call of the binder does first, where the client's transport is one of a child. -/
def callOut (launch : ClientId → Option StdioLaunchConfig) : BinderOut → Proc BoundSig Unit
  | .connectAndInitialize client =>
      if (launch client).isSome then ProtocolPeer.open.implement (ofTransport client) else pure ()
  | .shutdown client =>
      if (launch client).isSome then ProtocolPeer.close.implement (ofTransport client) else pure ()
  | _ => pure ()

/-- The binder. What a client does besides is up to the surroundings. -/
def ofBinder (launch : ClientId → Option StdioLaunchConfig) :
    Implementation BinderSig BoundSig where
  part t := t.binder
  withPart t s := { t with binder := s }
  part_withPart _ _ := rfl
  out e := callOut launch e >>= fun _ => Proc.query (S := BoundSig) (.binder e)
  fn := nofun
  res := nofun

/-- The transports as they are made. -/
def initial (launch : ClientId → Option StdioLaunchConfig) : BoundTransports where
  transport client := { config := (launch client).getD {} }

end BoundTransports

open BoundTransports

/-- What happens to the binder, and to the transport of a client. Others may open and close the
transport through the client as the binder does. -/
inductive BoundEvent where
  | binder (e : BinderEvent)
  | transport (client : ClientId) (e : StdioEvent)

def boundEntry (json : JsonCodec) (launch : ClientId → Option StdioLaunchConfig) :
    BoundEvent → Proc BoundSig Unit
  | .binder e => (binderEntry e).implement (ofBinder launch)
  | .transport client e => (peerEntry json e).implement (ofTransport client)

def boundMachine (json : JsonCodec) (launch : ClientId → Option StdioLaunchConfig) :
    Machine BoundSig where
  Event := BoundEvent
  entry := boundEntry json launch
  body := nofun

/-! ### A child that has ended -/

/-- How many child processes there were. -/
def launchCount : List TransportObservation → Nat
  | [] => 0
  | .launched :: earlier => launchCount earlier + 1
  | _ :: earlier => launchCount earlier

/-- A transport keeps a process that has ended, and launches no other. -/
def StaysEnded (s s' : StdioClientTransport) : Prop :=
  s.process = some .notRunning →
    s'.process = some .notRunning ∧ launchCount s'.log = launchCount s.log

namespace StaysEnded

theorem refl (s : StdioClientTransport) : StaysEnded s s := fun h => ⟨h, rfl⟩

theorem trans {s₁ s₂ s₃ : StdioClientTransport} (h₁ : StaysEnded s₁ s₂) (h₂ : StaysEnded s₂ s₃) :
    StaysEnded s₁ s₃ := by
  intro h
  obtain ⟨hp, hcount⟩ := h₁ h
  exact ⟨(h₂ hp).1, (h₂ hp).2.trans hcount⟩

/-- Whatever becomes of a transport whose process has not ended. -/
theorem of_ne {s s' : StdioClientTransport} (h : s.process ≠ some .notRunning) : StaysEnded s s' :=
  fun hp => absurd hp h

/-- Only a process that is starting goes on. -/
theorem settle (state : ProcessState) (s : StdioClientTransport) :
    StaysEnded s (s.settle state) := by
  intro h
  rw [StdioClientTransport.settle_of_ne (by rw [h]; nofun)]
  exact ⟨h, rfl⟩

end StaysEnded

open StdioClientTransport StaysEnded

/-- Code of a transport whose process stays ended. -/
abbrev KeepsEnded {α : Type} (p : Proc StdioSig α) : Prop := p.Within StaysEnded fun _ => True

theorem keepsEnded_composes : Composes fun _ (p : Proc StdioSig _) => KeepsEnded p :=
  Proc.Within.composes

theorem keepsEnded_query (e : StdioOut) : KeepsEnded (Proc.query e) := .query trivial

theorem keepsEnded_start : KeepsEnded start := by
  refine .bind (.modify fun s h => ⟨h, rfl⟩) fun _ s => ?_
  refine Proc.WithinAt.ite (S := StdioSig) _ (fun _ => trivial) fun hnone => ?_
  -- a transport without a process has none that has ended
  refine ⟨of_ne fun h => hnone (by rw [h]; rfl), ?_⟩
  refine (keepsEnded_query _).bind (fun _ => ?_) _
  refine .bind (keepsEnded_query .waitForStarted) fun (started : Bool) => ?_
  refine keepsEnded_composes.ite _ (.modify fun s => ?_) ?_
  · exact trans (settle .running s) fun h => ⟨h, rfl⟩
  · exact .bind (keepsEnded_query _) fun error => .bind (keepsEnded_query _) fun _ =>
      .bind (.modify fun s h => ⟨h, rfl⟩) fun _ => keepsEnded_query _

theorem keepsEnded_open : KeepsEnded ProtocolPeer.open :=
  .bind (.reads _) fun _ => keepsEnded_composes.ite _ (.pure ()) keepsEnded_start

/-- The peer stops only a transport whose process runs. -/
theorem keepsEnded_close : KeepsEnded ProtocolPeer.close := by
  refine fun s => Proc.WithinAt.ite (S := StdioSig) _ (fun hopen => ?_) fun _ => trivial
  have hrunning : s.process = some .running := of_decide_eq_true hopen
  refine ⟨fun h => ⟨h, rfl⟩, Proc.WithinAt.ite (S := StdioSig) _ (fun _ => trivial) fun _ => ?_⟩
  exact ⟨of_ne (s := s.observe .stopCalled) (hrunning.trans_ne nofun), keepsEnded_query _ _⟩

theorem keepsEnded_emitMessages (messages : List JsonObject) :
    KeepsEnded (emitMessages messages) := by
  induction messages with
  | nil => exact .pure ()
  | cons message rest ih =>
      exact .bind (.modify fun s h => ⟨h, rfl⟩) fun _ => .bind (keepsEnded_query _) fun _ => ih

theorem keepsEnded_emitLines (lines : List Bytes) : KeepsEnded (emitLines lines) := by
  induction lines with
  | nil => exact .pure ()
  | cons line rest ih => exact .bind (keepsEnded_query _) fun _ => ih

/-- No event of a transport whose user is its peer brings a process back. -/
theorem keepsEnded_peerEntry (json : JsonCodec) (e : StdioEvent) : KeepsEnded (peerEntry json e) := by
  cases e with
  | start => exact keepsEnded_open
  | stop => exact keepsEnded_close
  | send message =>
      exact .bind (.reads _) fun _ =>
        keepsEnded_composes.ite _ (keepsEnded_query _) (keepsEnded_query _)
  | readyReadStandardOutput =>
      refine .bind (.reads _) fun _ => keepsEnded_composes.ite _ (.pure ()) ?_
      exact .bind (keepsEnded_query _) fun data => .bind (.reads _) fun messages =>
        .bind (.modify fun s h => ⟨h, rfl⟩) fun _ => keepsEnded_emitMessages messages
  | readyReadStandardError =>
      refine .bind (.reads _) fun _ => keepsEnded_composes.ite _ (.pure ()) ?_
      exact .bind (keepsEnded_query _) fun data => .bind (.reads _) fun lines =>
        .bind (.modify fun s h => ⟨h, rfl⟩) fun _ => keepsEnded_emitLines lines
  | processStarted => exact .modify fun s => settle .running s
  | processError error =>
      have herror : KeepsEnded (onProcessErrorOccurred error) :=
        .bind (.reads _) fun _ => .bind (keepsEnded_composes.ite _ (keepsEnded_query _) (.pure _))
          fun _ => keepsEnded_query _
      refine .bind (.reads _) fun _ => keepsEnded_composes.ite _ (.bind ?_ fun _ => herror) (.pure ())
      exact keepsEnded_composes.ite _ (.modify fun s => settle .notRunning s) (.pure ())
  | processFinished =>
      refine fun s => Proc.WithinAt.ite (S := StdioSig) _ (fun hrunning => ?_) fun _ => trivial
      refine ⟨of_ne (hrunning.trans_ne nofun), ?_⟩
      exact Proc.Within.bind (.modify fun s h => ⟨h, rfl⟩) (fun _ => keepsEnded_query _) _

/-! ### Runs -/

namespace BoundTransports

/-- Every process that has ended stays so. -/
def AllStayEnded (t t' : BoundTransports) : Prop :=
  ∀ client, StaysEnded (t.transport client) (t'.transport client)

theorem AllStayEnded.refl (t : BoundTransports) : AllStayEnded t t := fun _ => .refl _

theorem AllStayEnded.trans {t₁ t₂ t₃ : BoundTransports} (h₁ : AllStayEnded t₁ t₂)
    (h₂ : AllStayEnded t₂ t₃) : AllStayEnded t₁ t₃ :=
  fun client => (h₁ client).trans (h₂ client)

/-- Code over all transports whose processes stay ended. -/
abbrev KeepsAllEnded {α : Type} (p : Proc BoundSig α) : Prop :=
  p.Within AllStayEnded fun _ => True

/-- Code of the transport of a client leaves the others alone. -/
theorem keepsAllEnded_transport (client : ClientId) {p : Proc StdioSig Unit} (h : KeepsEnded p) :
    KeepsAllEnded (p.implement (ofTransport client)) := by
  refine h.implement (fun t s hs other => ?_) fun e _ => .query trivial
  show StaysEnded (t.transport other) (Function.update t.transport client s other)
  by_cases hother : other = client
  · subst hother
    rw [Function.update_self]
    exact hs
  · rw [Function.update_of_ne hother]
    exact .refl _

theorem keepsAllEnded_callOut (launch : ClientId → Option StdioLaunchConfig) (e : BinderOut) :
    KeepsAllEnded (callOut launch e) := by
  have hpeer (client : ClientId) {p : Proc StdioSig Unit} (h : KeepsEnded p) :
      KeepsAllEnded (if (launch client).isSome then p.implement (ofTransport client) else pure ()) :=
    .ite _ (keepsAllEnded_transport client h) (.pure ())
  cases e with
  | connectAndInitialize client => exact hpeer client keepsEnded_open
  | shutdown client => exact hpeer client keepsEnded_close
  | _ => exact .pure ()

/-- The binder reaches the transports by its call-outs only. -/
theorem keepsAllEnded_binder (launch : ClientId → Option StdioLaunchConfig)
    (p : Proc BinderSig Unit) : KeepsAllEnded (p.implement (ofBinder launch)) := by
  refine Proc.Within.implement (R := fun _ _ => True) (Q := fun _ => True) (fun t s _ => .refl _)
    (fun e _ => .bind (keepsAllEnded_callOut launch e) fun _ => .query trivial) ?_
  exact .of_noFn Empty.elim p

theorem keepsAllEnded_entry (json : JsonCodec) (launch : ClientId → Option StdioLaunchConfig)
    (e : BoundEvent) : KeepsAllEnded (boundEntry json launch e) := by
  cases e with
  | binder e => exact keepsAllEnded_binder launch _
  | transport client e => exact keepsAllEnded_transport client (keepsEnded_peerEntry json e)

/-- Once the process of a transport has ended, none is launched for it. -/
theorem launched_no_more {json : JsonCodec} {launch : ClientId → Option StdioLaunchConfig}
    {c c' : Config BoundSig}
    (hrun : Reaches (Surroundings.any (boundMachine json launch)) (.idle (initial launch)) c)
    (hlater : Reaches (Surroundings.any (boundMachine json launch)) c c') :
    AllStayEnded c.state c'.state := by
  have hmoves {c₁ c₂ : Config BoundSig}
      (h : Reaches (Surroundings.any (boundMachine json launch)) c₁ c₂) :
      c₁.prog.WithinAt AllStayEnded (fun _ => True) c₁.state → AllStayEnded c₁.state c₂.state ∧
        c₂.prog.WithinAt AllStayEnded (fun _ => True) c₂.state :=
    Reaches.within .refl .trans (keepsAllEnded_entry json launch) h
  exact (hmoves hlater (hmoves hrun trivial).2).1

end BoundTransports

/-- A transport that is not open launches a child when it is started exactly where `stop` was
called since `start` was, if that ever was. The transport of a client is stopped only while it is
open, so once its child has ended it is never open again, and none is launched for it: not by the
reconnects of the binder, nor by anyone else. -/
theorem reopens_iff (json : JsonCodec) :
    (∀ config c, Reaches (stdioSurroundings json) (.idle { config }) c → c.Waiting →
      c.state.isOpen = false → (c.state.launches = true ↔ startedLast c.state.log = false)) ∧
    (∀ launch client c c',
      Reaches (Surroundings.any (boundMachine json launch)) (.idle (initial launch)) c →
      (c.state.transport client).process = some .notRunning →
      Reaches (Surroundings.any (boundMachine json launch)) c c' →
      (c'.state.transport client).isOpen = false ∧
        launchCount (c'.state.transport client).log =
          launchCount (c.state.transport client).log) := by
  refine ⟨fun _ _ hrun hw _ => launches_iff hrun hw, fun launch client c c' hrun hended hlater => ?_⟩
  obtain ⟨hprocess, hcount⟩ := launched_no_more hrun hlater client hended
  refine ⟨?_, hcount⟩
  show decide ((c'.state.transport client).process = some .running) = false
  rw [hprocess]
  rfl

/-- Children that start in time, and clients whose answers come later. -/
def boundAnswers : (e : BoundOut) → BoundOut.Ans e
  | .binder _ => ()
  | .transport _ e => childAnswers e

/-- Every server is a child process. -/
def children (_ : ClientId) : Option StdioLaunchConfig := some { program := "serve" }

abbrev childrenMachine : Machine BoundSig := boundMachine emptyObjects children

/-- A server is added, its child is started and its tools are listed; then the child ends, and the
binder learns of it. -/
def childEnds : List (Move childrenMachine) :=
  [.event (.binder (.addServer { name := "srv", command := "serve" })), .answer boundAnswers,
    .answer boundAnswers, .answer boundAnswers,
    .event (.binder (.connected 0)), .answer boundAnswers,
    .event (.binder (.listed 0 [])), .answer boundAnswers, .answer boundAnswers,
    .event (.transport 0 .processFinished), .event (.binder (.disconnected 0)),
    .answer boundAnswers, .answer boundAnswers]

/-- The timer of the reconnect ends. -/
def reconnects : List (Move childrenMachine) :=
  [.event (.binder (.reconnectTimer 0)), .answer boundAnswers]

/-- The child has ended. -/
def ended : Config BoundSig := play childrenMachine 0 childEnds (.idle (initial children))

/-- The binder has tried to reconnect. -/
def reconnected : Config BoundSig := play childrenMachine 0 reconnects ended

theorem reaches_ended : Reaches (Surroundings.any childrenMachine) (.idle (initial children)) ended :=
  reaches_play ⟨trivial, trivial, trivial, trivial, trivial, trivial, trivial, trivial, trivial,
    trivial, trivial, trivial, trivial, trivial⟩

theorem reaches_reconnected : Reaches (Surroundings.any childrenMachine) ended reconnected :=
  reaches_play ⟨trivial, trivial, trivial⟩

/-- A transport that was stopped can be started, and one whose child has ended stays closed. -/
theorem reopens_iff_stopped :
    (play (stdioMachine emptyObjects) 0
      [.event .start, .answer childAnswers, .answer childAnswers, .event .stop,
        .answer childAnswers] (.idle {})).state.launches = true ∧
    (reconnected.state.transport 0).isOpen = false := by
  have hstopped : Playable (stdioSurroundings emptyObjects) 0
      [.event .start, .answer childAnswers, .answer childAnswers, .event .stop,
        .answer childAnswers] (.idle {}) :=
    ⟨trivial, trivial, trivial, trivial, trivial, trivial⟩
  exact ⟨((reopens_iff emptyObjects).1 {} _ (reaches_play hstopped) (.inl rfl) rfl).mpr rfl,
    ((reopens_iff emptyObjects).2 children 0 _ _ reaches_ended rfl reaches_reconnected).1⟩

/-- A transport whose child has ended is not open and launches no other, and the reconnect of a
binding ends without a process. -/
theorem reopens_iff_crashed :
    (∃ c, Reaches (stdioSurroundings emptyObjects) (.idle {}) c ∧ c.Waiting ∧
      c.state.isOpen = false ∧ c.state.launches = false) ∧
    ∃ c c', Reaches (Surroundings.any childrenMachine) (.idle (initial children)) c ∧
      Reaches (Surroundings.any childrenMachine) c c' ∧ c.Waiting ∧ c'.Waiting ∧
      (c.state.transport 0).isOpen = false ∧ c.state.binder.timers.lookup 0 = some 0 ∧
      c'.state.binder.timers.lookup 0 = none ∧
      (c'.state.binder.attempts.lookup 1).map (·.phase) = some .connecting ∧
      (c'.state.transport 0).isOpen = false ∧
      launchCount (c.state.transport 0).log = 1 ∧ launchCount (c'.state.transport 0).log = 1 := by
  have hcrashed : Playable (stdioSurroundings emptyObjects) 0
      [.event .start, .answer childAnswers, .answer childAnswers, .event .processFinished,
        .answer childAnswers] (.idle {}) :=
    ⟨trivial, trivial, trivial, trivial, trivial, trivial⟩
  exact ⟨⟨_, reaches_play hcrashed, .inl rfl, rfl, rfl⟩,
    ended, reconnected, reaches_ended, reaches_reconnected, .inl rfl, .inl rfl, rfl, rfl, rfl, rfl,
    rfl, rfl, rfl⟩

end LLMQore.Mcp
