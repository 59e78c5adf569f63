import LLMQore.Rpc.SessionMachine
import LLMQore.Rpc.SessionRules

/-!
# LLMQore.Rpc.ProtocolPeer

A peer of a protocol (`ProtocolPeer`): a session over a transport, and the handshake before which
requests are refused.

The answer to a handshake is handled by a continuation. A `QFutureWatcher` calls it from the event
loop, so anything may happen between the answer and its continuation.
-/

namespace LLMQore.Rpc

open Reentrant

/-- The promise was settled with a result. -/
def Session.answered (s : Session) (promise : PromiseId) : Bool :=
  s.history.any fun
    | .settled q (.result _) => q == promise
    | _ => false

/-- A handshake. No code reads `closedSince`. -/
structure Handshake where
  promise : PromiseId
  /-- The transport was closed since the handshake was answered. -/
  closedSince : Bool := false

structure ProtocolPeer where
  session : Session := {}
  /-- `m_transport` is not null. -/
  hasTransport : Bool := true
  /-- `m_transport->isOpen()` -/
  transportOpen : Bool := false
  /-- `m_initialized` -/
  isInitialized : Bool := false
  /-- The handshakes whose continuation is still to come. -/
  handshakes : List Handshake := []
  /-- The exceptions a continuation passed on to the one after it (`onFailed`). -/
  failures : AList (fun _ : PromiseId => Exn) := ∅
  /-- The handshake that has set `m_initialized`. No code reads it. -/
  setBy : Option Handshake := none

/-- What the peer calls out to. -/
inductive PeerOut where
  | session (e : SessionOut)
  /-- `m_transport->start()` -/
  | start
  /-- `m_transport->stop()` -/
  | stop
  | closed
  /-- `errorOccurred`, with what the transport reports or a handshake failed with. -/
  | errorOccurred (error : String ⊕ Exn)

def PeerOut.Ans : PeerOut → Type
  | .session e => e.Ans
  | _ => Unit

/-- Every call-out returns, and a request handler returns a future. -/
def PeerOut.returns : (e : PeerOut) → e.Ans
  | .session e => e.returns
  | .start | .stop | .closed | .errorOccurred _ => ()

abbrev PeerSig : Sig where
  State := ProtocolPeer
  Out := PeerOut
  Ans := PeerOut.Ans
  Fn := Empty
  Res f := f.elim

namespace ProtocolPeer

/-- A new peer: the session answers `ping`. -/
def fresh : ProtocolPeer where
  session := { requestHandlers := {"ping"} }

/-- The surroundings of the session. -/
def host : SessionHost PeerSig where
  session s := s.session
  withSession s session := { s with session }
  isOpen s := s.hasTransport && s.transportOpen
  send answers message := do
    Proc.modify (S := PeerSig) fun s =>
      { s with session := s.session.observe (.sent message answers) }
    Proc.query (S := PeerSig) (.session (.send message))
  abandon id := Proc.query (S := PeerSig) (.session (.abandon id))
  emit signal := Proc.query (S := PeerSig) (.session (.emit signal))
  handle tag method params := Proc.query (S := PeerSig) (.session (.handle tag method params))
  notify method params := Proc.query (S := PeerSig) (.session (.notify method params))
  progress token progress total message :=
    Proc.query (S := PeerSig) (.session (.progress token progress total message))

/-- `open`. -/
def openTransport : Proc PeerSig Unit := do
  let s ← Proc.read (S := PeerSig)
  if s.hasTransport && !s.transportOpen then Proc.query (S := PeerSig) .start else pure ()

/-- `close`. -/
def closeTransport : Proc PeerSig Unit := do
  let s ← Proc.read (S := PeerSig)
  if s.hasTransport && s.transportOpen then Proc.query (S := PeerSig) .stop else pure ()

/-- A handshake is about to be sent: its promise is the next one the session makes. -/
def begin (s : ProtocolPeer) : ProtocolPeer :=
  { s with handshakes := s.handshakes ++ [{ promise := s.session.nextPromise }] }

/-- The continuation of a handshake has come. -/
def forget (s : ProtocolPeer) (promise : PromiseId) : ProtocolPeer :=
  { s with handshakes := s.handshakes.filter (·.promise != promise) }

/-- The transport was closed, which the handshakes that were answered remember. -/
def noteClosed (s : ProtocolPeer) : ProtocolPeer :=
  { s with
    handshakes := s.handshakes.map fun h =>
      { h with closedSince := h.closedSince || s.session.answered h.promise }
    setBy := s.setBy.map fun h => { h with closedSince := true } }

/-- `handshake`. -/
def handshake (method : String) (params : JsonObject) : Proc PeerSig Unit := do
  let hasTransport ← Proc.reads (S := PeerSig) (·.hasTransport)
  if hasTransport then
    openTransport
    Proc.modify (S := PeerSig) begin
    discard <| host.sendRequestImpl method params false
  else
    pure ()

/-- The continuation of a handshake, for what the session has settled its promise with. -/
def continuation (promise : PromiseId) : Outcome → Proc PeerSig Unit
  | .result _ =>
      Proc.modify (S := PeerSig) fun s =>
        { s.forget promise with
          isInitialized := true
          setBy := s.handshakes.find? (·.promise == promise) }
  | .exception error =>
      Proc.modify (S := PeerSig) fun s =>
        { s.forget promise with failures := s.failures.insert promise error }

/-- The continuation of a handshake that has failed (`onFailed`). -/
def onFailed (promise : PromiseId) : Proc PeerSig Unit := do
  let failures ← Proc.reads (S := PeerSig) (·.failures)
  match failures.lookup promise with
  | none => pure ()
  | some error =>
      Proc.modify (S := PeerSig) fun s => { s with failures := s.failures.erase promise }
      Proc.query (S := PeerSig) (.errorOccurred (.inr error))

/-- `request`. -/
def request (method : String) (params : JsonObject) : Proc PeerSig Unit := do
  let isInitialized ← Proc.reads (S := PeerSig) (·.isInitialized)
  if isInitialized then discard <| host.sendRequestImpl method params false else pure ()

/-- `requestUngated`. -/
def requestUngated (method : String) (params : JsonObject) : Proc PeerSig Unit := do
  let isOpen ← Proc.reads (S := PeerSig) host.isOpen
  if isOpen then discard <| host.sendRequestImpl method params false else pure ()

/-- The slots of `Transport::closed`: the session's, then the peer's. -/
def onClosed : Proc PeerSig Unit := do
  Proc.modify (S := PeerSig) noteClosed
  host.onTransportClosed
  Proc.modify (S := PeerSig) fun s => { s with isInitialized := false }
  Proc.query (S := PeerSig) .closed

end ProtocolPeer

/-- The events that reach a peer. -/
inductive PeerEvent where
  | openTransport
  | closeTransport
  | handshake (method : String) (params : JsonObject)
  | request (method : String) (params : JsonObject)
  | requestUngated (method : String) (params : JsonObject)
  /-- `notify`, `bindRequest`, `bindNotification`, calls of the session, its timers and the
  futures of its handlers. -/
  | session (c : SessionCall)
  | messageReceived (message : JsonObject)
  | sendFailed (message : JsonObject) (reason : String)
  | errorOccurred (reason : String)
  | transportClosed
  /-- The transport's `isOpen` changes. -/
  | transportOpen (isOpen : Bool)
  /-- The transport is gone. -/
  | transportDestroyed
  /-- The watcher of a handshake reports its outcome. -/
  | continued (promise : PromiseId) (outcome : Outcome)
  /-- The watcher behind it reports a failure. -/
  | failed (promise : PromiseId)

open ProtocolPeer in
/-- The code of each event. -/
def peerEntry : PeerEvent → Proc PeerSig Unit
  | .openTransport => openTransport
  | .closeTransport => closeTransport
  | .handshake method params => handshake method params
  | .request method params => request method params
  | .requestUngated method params => requestUngated method params
  | .session c => host.call c
  | .messageReceived message => host.onMessageReceived message
  | .sendFailed message reason => host.onSendFailed message reason
  | .errorOccurred reason => Proc.query (S := PeerSig) (.errorOccurred (.inl reason))
  | .transportClosed => onClosed
  | .transportOpen isOpen =>
      Proc.modify (S := PeerSig) fun s => { s with transportOpen := isOpen }
  | .transportDestroyed =>
      Proc.modify (S := PeerSig) fun s => { s with hasTransport := false }
  | .continued promise outcome => continuation promise outcome
  | .failed promise => onFailed promise

def peerMachine : Machine PeerSig where
  Event := PeerEvent
  entry := peerEntry
  body f := f.elim

/-- A watcher reports what the session has settled the promise of its handshake with, once. -/
def PeerEvent.Possible (s : ProtocolPeer) : PeerEvent → Prop
  | .continued promise outcome =>
      (∃ h ∈ s.handshakes, h.promise = promise) ∧ .settled promise outcome ∈ s.session.history
  | _ => True

/-- Where the transport is closed, no answer to a handshake waits for its continuation. -/
def PeerEvent.Clean (s : ProtocolPeer) : PeerEvent → Prop
  | .transportClosed => ∀ h ∈ s.handshakes, s.session.answered h.promise = false
  | _ => True

namespace ProtocolPeer

/-- The transport was not closed since the handshake that has set `m_initialized` was answered. -/
def Live (s : ProtocolPeer) : Prop :=
  s.isInitialized = true → ∃ h, s.setBy = some h ∧ h.closedSince = false

/-! ### The flag and the transport -/

/-- No handshake whose continuation is still to come has outlived its transport. -/
structure LiveInv (s : ProtocolPeer) : Prop where
  live : s.Live
  handshakes : ∀ h ∈ s.handshakes, h.closedSince = false

theorem LiveInv.init : LiveInv fresh where
  live := nofun
  handshakes := nofun

/-- The parts of a peer the invariant looks at are the same. -/
theorem LiveInv.same {s s' : ProtocolPeer} (h : LiveInv s)
    (hflag : s'.isInitialized = s.isInitialized) (hset : s'.setBy = s.setBy)
    (hshakes : s'.handshakes = s.handshakes) : LiveInv s' where
  live := by
    unfold Live
    rw [hflag, hset]
    exact h.live
  handshakes := by
    rw [hshakes]
    exact h.handshakes

theorem LiveInv.begin {s : ProtocolPeer} (h : LiveInv s) : LiveInv s.begin where
  live := h.live
  handshakes h' hh' := by
    rcases List.mem_append.mp hh' with hold | hnew
    · exact h.handshakes h' hold
    · obtain rfl := List.mem_singleton.mp hnew
      rfl

theorem LiveInv.forget {s : ProtocolPeer} (h : LiveInv s) (promise : PromiseId) :
    LiveInv (s.forget promise) where
  live := h.live
  handshakes h' hh' := h.handshakes h' (List.mem_filter.mp hh').1

/-- A handshake that has not outlived its transport sets the flag. -/
theorem LiveInv.set {s : ProtocolPeer} (h : LiveInv s) {promise : PromiseId}
    (hwaits : ∃ h ∈ s.handshakes, h.promise = promise) :
    LiveInv { s.forget promise with
      isInitialized := true
      setBy := s.handshakes.find? (·.promise == promise) } where
  live _ := by
    obtain ⟨h', hh', rfl⟩ := hwaits
    obtain ⟨found, hfound⟩ := Option.isSome_iff_exists.mp
      (List.find?_isSome.mpr ⟨h', hh', by simp⟩ :
        (s.handshakes.find? (·.promise == h'.promise)).isSome)
    exact ⟨found, hfound, h.handshakes found (List.mem_of_find?_eq_some hfound)⟩
  handshakes := (h.forget promise).handshakes

/-- Closing the transport where no answer waits: the flag is cleared. -/
theorem LiveInv.closed {s : ProtocolPeer} (h : LiveInv s)
    (hclean : ∀ h ∈ s.handshakes, s.session.answered h.promise = false) (session : Session) :
    LiveInv { s.noteClosed with session, isInitialized := false } where
  live := nofun
  handshakes h' hh' := by
    obtain ⟨h₀, hh₀, rfl⟩ := List.mem_map.mp hh'
    simp [h.handshakes h₀ hh₀, hclean h₀ hh₀]

def liveContract : Contract PeerSig := .plain LiveInv fun _ _ => True

theorem liveContract_preorder : liveContract.Preorder where
  refl _ := trivial
  trans _ _ := trivial

/-- Every answer of the surroundings is one. -/
abbrev anyAnswer : ProtocolPeer → (e : PeerOut) → e.Ans → Prop := fun _ _ _ => True

abbrev KeepsLive {α : Type} (p : Proc PeerSig α) : Prop := liveContract.Keeps anyAnswer p

theorem keepsLive_composes : Composes fun _ p => KeepsLive p :=
  Contract.Keeps.composes liveContract_preorder

theorem keepsLive_modify {f : ProtocolPeer → ProtocolPeer} (h : ∀ s, LiveInv s → LiveInv (f s)) :
    KeepsLive (Proc.modify (S := PeerSig) f) :=
  Contract.Keeps.modify fun s hs => ⟨h s hs, trivial⟩

theorem keepsLive_query (e : PeerOut) : KeepsLive (Proc.query (S := PeerSig) e) :=
  Contract.Keeps.query (S := PeerSig) e

/-- The session does not touch the flag. -/
theorem host_stays : host.Stays fun _ p => KeepsLive p where
  toComposes := keepsLive_composes
  send _ _ := keepsLive_composes.bind
    (keepsLive_modify fun _ hs => hs.same rfl rfl rfl) fun _ => keepsLive_query _
  abandon _ := keepsLive_query _
  emit _ := keepsLive_query _
  handle _ _ _ := keepsLive_query _
  notify _ _ := keepsLive_query _
  progress _ _ _ _ := keepsLive_query _
  update _ := keepsLive_modify fun _ hs => hs.same rfl rfl rfl

theorem keepsLive_discard {α : Type} {p : Proc PeerSig α} (h : KeepsLive p) :
    KeepsLive (discard p) :=
  keepsLive_composes.bind h fun _ => keepsLive_composes.pure ()

theorem keepsLive_openTransport : KeepsLive openTransport :=
  keepsLive_composes.bind (keepsLive_composes.reads id) fun _ =>
    keepsLive_composes.ite _ (keepsLive_query _) (keepsLive_composes.pure ())

theorem keepsLive_closeTransport : KeepsLive closeTransport :=
  keepsLive_composes.bind (keepsLive_composes.reads id) fun _ =>
    keepsLive_composes.ite _ (keepsLive_query _) (keepsLive_composes.pure ())

theorem keepsLive_sends (method : String) (params : JsonObject) (f : ProtocolPeer → Bool) :
    KeepsLive (do
      let may ← Proc.reads (S := PeerSig) f
      if may then discard <| host.sendRequestImpl method params false else pure ()) :=
  keepsLive_composes.bind (keepsLive_composes.reads f) fun _ => keepsLive_composes.ite _
    (keepsLive_discard (host_stays.sendRequestImpl method params false))
    (keepsLive_composes.pure ())

theorem keepsLive_handshake (method : String) (params : JsonObject) :
    KeepsLive (handshake method params) := by
  refine keepsLive_composes.bind (keepsLive_composes.reads _) fun _ =>
    keepsLive_composes.ite _ ?_ (keepsLive_composes.pure ())
  refine keepsLive_composes.bind keepsLive_openTransport fun _ => ?_
  refine keepsLive_composes.bind (keepsLive_modify fun _ hs => hs.begin) fun _ => ?_
  exact keepsLive_discard (host_stays.sendRequestImpl method params false)

theorem keepsLive_onFailed (promise : PromiseId) : KeepsLive (onFailed promise) := by
  refine keepsLive_composes.bind (keepsLive_composes.reads _) fun failures => ?_
  cases failures.lookup promise with
  | none => exact keepsLive_composes.pure ()
  | some error =>
      exact keepsLive_composes.bind (keepsLive_modify fun _ hs => hs.same rfl rfl rfl)
        fun _ => keepsLive_query _

/-- The code of every event keeps the invariant. -/
theorem keepsLive_entry (s : ProtocolPeer) (e : PeerEvent) (hs : LiveInv s)
    (he : e.Possible s ∧ e.Clean s) :
    wp anyAnswer liveContract (peerEntry e) (fun _ s' => LiveInv s' ∧ True) s := by
  cases e with
  | openTransport => exact keepsLive_openTransport s hs
  | closeTransport => exact keepsLive_closeTransport s hs
  | handshake method params => exact keepsLive_handshake method params s hs
  | request method params => exact keepsLive_sends method params _ s hs
  | requestUngated method params => exact keepsLive_sends method params _ s hs
  | session c => exact host_stays.call c s hs
  | messageReceived message => exact host_stays.onMessageReceived message s hs
  | sendFailed message reason =>
      exact keepsLive_composes.ite _ (host_stays.lookup _ fun _ => host_stays.update _)
        (keepsLive_composes.pure ()) s hs
  | errorOccurred reason => exact keepsLive_query _ s hs
  | transportClosed =>
      -- between the two slots nobody sees the flag
      have hclosed : LiveInv { s.noteClosed with
          session := s.session.abortPending "Transport closed", isInitialized := false } :=
        hs.closed he.2 _
      exact keepsLive_query .closed _ hclosed
  | transportOpen isOpen => exact ⟨hs.same rfl rfl rfl, trivial⟩
  | transportDestroyed => exact ⟨hs.same rfl rfl rfl, trivial⟩
  | continued promise outcome =>
      cases outcome with
      | result v => exact ⟨hs.set he.1.1, trivial⟩
      | exception error => exact ⟨(hs.forget promise).same rfl rfl rfl, trivial⟩
  | failed promise => exact keepsLive_onFailed promise s hs

/-- The surroundings of a peer whose transport is not closed while an answer to a handshake waits
for its continuation. -/
abbrev cleanly : Surroundings peerMachine :=
  .only peerMachine fun s e => e.Possible s ∧ e.Clean s

theorem live_valid : liveContract.Valid cleanly :=
  .of_guarded liveContract_preorder keepsLive_entry fun f => f.elim

/-- In every run in which the transport is not closed between the answer to a handshake and its
continuation, the flag means a live handshake. -/
theorem initialized_live {c : Config PeerSig} (hrun : Reaches cleanly (.idle fresh) c)
    (hw : c.Waiting) : c.state.Live :=
  (live_valid.waiting LiveInv.init hrun hw).live

/-- The answer to the handshake. -/
def pong : JsonObject := resultMessage (.str "1") (.obj [])

/-- The transport opens, and a handshake is sent and answered. -/
def answeredMoves : List (Move peerMachine) :=
  [.event (.handshake "initialize" []), .event (.transportOpen true), .answer PeerOut.returns,
    .answer PeerOut.returns, .event (.messageReceived pong)]

/-- The first promise of a session, settled with the result of the answer. -/
def answeredOutcome : Outcome := .result (.obj [])

/-- A handshake whose continuation comes before the transport is closed. -/
theorem initialized_live_handshake :
    ∃ c : Config PeerSig, Reaches cleanly (.idle fresh) c ∧ c.Waiting ∧
      c.state.isInitialized = true ∧ c.state.Live := by
  have hplay : Playable cleanly 0 (answeredMoves ++ [.event (.continued 0 answeredOutcome)])
      (.idle fresh) :=
    ⟨⟨trivial, trivial⟩, ⟨trivial, trivial⟩, trivial, trivial, ⟨trivial, trivial⟩,
      ⟨⟨⟨_, .head _, rfl⟩, .head _⟩, trivial⟩, trivial⟩
  have hrun := reaches_play hplay
  have hw : (play peerMachine 0 (answeredMoves ++ [.event (.continued 0 answeredOutcome)])
      (.idle fresh)).Waiting := Or.inl rfl
  exact ⟨_, hrun, hw, rfl, initialized_live hrun hw⟩

/-- The transport is closed between the answer and its continuation, which marks the peer
initialized all the same. -/
theorem initialized_when_closed :
    ∃ c : Config PeerSig, Reaches (.only peerMachine fun s e => e.Possible s) (.idle fresh) c ∧
      c.Waiting ∧ c.state.transportOpen = false ∧ ¬c.state.Live := by
  have hplay : Playable (.only peerMachine fun s e => e.Possible s) 0
      (answeredMoves ++ [.event (.transportOpen false), .event .transportClosed,
        .answer PeerOut.returns, .event (.continued 0 answeredOutcome)]) (.idle fresh) :=
    ⟨trivial, trivial, trivial, trivial, trivial, trivial, trivial, trivial,
      ⟨⟨_, .head _, rfl⟩, .head _⟩, trivial⟩
  refine ⟨_, reaches_play hplay, Or.inl rfl, rfl, fun hlive => ?_⟩
  obtain ⟨h, hset, hsince⟩ := hlive rfl
  cases hset
  cases hsince

end ProtocolPeer

end LLMQore.Rpc
