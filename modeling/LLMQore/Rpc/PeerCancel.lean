import LLMQore.Rpc.Outgoing

/-!
# LLMQore.Rpc.PeerCancel

What an incoming `notifications/cancelled` may touch.

The handler reads one id off the notification and files it, like every id, under
its string. Under that string it looks in two places: among the requests of the
peer in flight, where it leaves a mark, and among the requests this side has
pending, where it settles the entry as cancelled by the peer. Nothing filed under
another string changes.
-/

namespace LLMQore.Rpc

open Reentrant

/-- The message is an incoming `notifications/cancelled`. -/
structure IsCancelled (message : JsonObject) : Prop where
  version : (message.value "jsonrpc").toString = "2.0"
  kind : classify message = .notification
  method : (message.value "method").toString = Method.cancelled

/-- The parameters of a notification. -/
def notificationParams (message : JsonObject) : JsonObject := (message.value "params").toObject

/-- The string under which a cancellation files the id it names. -/
def cancelledKey (message : JsonObject) : String :=
  idToString ((notificationParams message).value "requestId")

/-- The exception a cancelled request ends with. -/
def peerCancelOutcome (message : JsonObject) : Outcome :=
  let reason := ((notificationParams message).value "reason").toString
  .exception (.cancelledError (if reason.isEmpty then "Cancelled by peer" else reason))

/-- What a cancellation filed under `key` may change between `s` and `s'`. -/
structure CancelEffect (key : String) (s s' : Session) : Prop where
  /-- A mark is only left for a request of the peer in flight under the key. -/
  marks : s'.cancelledIncomingIds = s.cancelledIncomingIds ∨
    key ∈ s.inFlightIncomingIds ∧ s'.cancelledIncomingIds = insert key s.cancelledIncomingIds
  in_flight : s'.inFlightIncomingIds = s.inFlightIncomingIds
  watchers : s'.watchers = s.watchers
  /-- Pending requests filed under other strings keep their entries. -/
  others : ∀ id, id ≠ key → s'.pending.lookup id = s.pending.lookup id
  /-- Where no pending request has the key, no request of this side is touched. -/
  not_pending : s.pending.lookup key = none →
    s'.pending = s.pending ∧ s'.timers = s.timers ∧
      s'.progressHandlers = s.progressHandlers ∧ s'.settledIds = s.settledIds
  /-- An empty key names no request. -/
  no_key : key = "" → s'.pending = s.pending ∧ s'.settledIds = s.settledIds ∧
    s'.cancelledIncomingIds = s.cancelledIncomingIds

/-- A pending request was cancelled by the peer: its entry is gone and its promise
was settled once. -/
structure CancelledByPeer (key : String) (p : Pending) (outcome : Outcome)
    (s s' : Session) : Prop where
  removed : s'.pending = s.pending.erase key
  settled : s'.history = .settled p.promise outcome :: .removed key p.promise :: s.history

section Updates

variable {s : Session} {i : String} {p : Pending}

theorem dropPending_cancelledIncomingIds :
    (s.dropPending i p).cancelledIncomingIds = s.cancelledIncomingIds := by
  unfold Session.dropPending
  split <;> rfl

theorem dropPending_inFlightIncomingIds :
    (s.dropPending i p).inFlightIncomingIds = s.inFlightIncomingIds := by
  unfold Session.dropPending
  split <;> rfl

theorem dropPending_watchers : (s.dropPending i p).watchers = s.watchers := by
  unfold Session.dropPending
  split <;> rfl

end Updates

section Mark

variable {s : Session} {k : String}

/-- A mark changes the set of marks and nothing else. -/
theorem markCancelled_eq :
    s.markCancelled k = { s with cancelledIncomingIds := (s.markCancelled k).cancelledIncomingIds } := by
  unfold Session.markCancelled
  split <;> rfl

theorem markCancelled_marks :
    (s.markCancelled k).cancelledIncomingIds = s.cancelledIncomingIds ∨
      k ∈ s.inFlightIncomingIds ∧
        (s.markCancelled k).cancelledIncomingIds = insert k s.cancelledIncomingIds := by
  unfold Session.markCancelled
  by_cases h : k ∈ s.inFlightIncomingIds
  · rw [if_pos h]; exact Or.inr ⟨h, rfl⟩
  · rw [if_neg h]; exact Or.inl rfl

theorem markCancelled_pending : (s.markCancelled k).pending = s.pending := by
  rw [markCancelled_eq]

theorem markCancelled_history : (s.markCancelled k).history = s.history := by
  rw [markCancelled_eq]

theorem markCancelled_inFlightIncomingIds :
    (s.markCancelled k).inFlightIncomingIds = s.inFlightIncomingIds := by
  rw [markCancelled_eq]

theorem markCancelled_watchers : (s.markCancelled k).watchers = s.watchers := by
  rw [markCancelled_eq]

theorem markCancelled_effect (hkey : k ≠ "") :
    CancelEffect k s (s.markCancelled k) where
  marks := markCancelled_marks
  in_flight := markCancelled_inFlightIncomingIds
  watchers := markCancelled_watchers
  others _ _ := by rw [markCancelled_pending]
  not_pending _ := by
    rw [markCancelled_eq]
    exact ⟨rfl, rfl, rfl, rfl⟩
  no_key h := absurd h hkey

end Mark

/-- The three cases of the handler: no key, no pending request under the key, and
a pending request under it. -/
theorem applyCancelled_cases (message : JsonObject) (s : Session) :
    let key := cancelledKey message
    let s' := SessionHost.applyCancelled (notificationParams message) s
    (key = "" ∧ s' = s) ∨
    (key ≠ "" ∧ s.pending.lookup key = none ∧ s' = s.markCancelled key) ∨
    ∃ p, key ≠ "" ∧ s.pending.lookup key = some p ∧
      s' = ((s.markCancelled key).dropPending key p).settle p.promise (peerCancelOutcome message) := by
  intro key s'
  by_cases hkey : key = ""
  · exact Or.inl ⟨hkey, if_pos (String.isEmpty_iff.mpr hkey)⟩
  · refine Or.inr ?_
    have hempty : ¬key.isEmpty = true := fun h => hkey (String.isEmpty_iff.mp h)
    have hlookup : (s.markCancelled (cancelledKey message)).pending.lookup (cancelledKey message) =
        s.pending.lookup key := by
      rw [markCancelled_pending]
    unfold cancelledKey at hlookup
    cases hp : s.pending.lookup key with
    | none =>
        refine Or.inl ⟨hkey, rfl, (if_neg hempty).trans ?_⟩
        rw [hlookup, hp]
        rfl
    | some p =>
        refine Or.inr ⟨p, hkey, rfl, (if_neg hempty).trans ?_⟩
        rw [hlookup, hp]
        rfl

theorem applyCancelled_effect (message : JsonObject) (s : Session) :
    CancelEffect (cancelledKey message) s
      (SessionHost.applyCancelled (notificationParams message) s) := by
  obtain ⟨hkey, heq⟩ | ⟨hkey, _, heq⟩ | ⟨p, hkey, hp, heq⟩ := applyCancelled_cases message s
  · rw [heq]
    exact ⟨Or.inl rfl, rfl, rfl, fun _ _ => rfl, fun _ => ⟨rfl, rfl, rfl, rfl⟩,
      fun _ => ⟨rfl, rfl, rfl⟩⟩
  · rw [heq]
    exact markCancelled_effect hkey
  · rw [heq]
    constructor
    · have hmarks := markCancelled_marks (s := s) (k := cancelledKey message)
      rwa [← dropPending_cancelledIncomingIds (i := cancelledKey message) (p := p)] at hmarks
    · exact (dropPending_inFlightIncomingIds (i := cancelledKey message)).trans
        markCancelled_inFlightIncomingIds
    · exact (dropPending_watchers (i := cancelledKey message)).trans markCancelled_watchers
    · intro id hid
      show ((s.markCancelled (cancelledKey message)).dropPending _ p).pending.lookup id = _
      rw [dropPending_pending, AList.lookup_erase_ne hid, markCancelled_pending]
    · intro hnone
      exact absurd (hp.symm.trans hnone) (by simp)
    · intro h
      exact absurd h hkey

/-- A pending request whose id the cancellation names is settled, once. -/
theorem applyCancelled_pending (message : JsonObject) (s : Session) {p : Pending}
    (hkey : cancelledKey message ≠ "")
    (hp : s.pending.lookup (cancelledKey message) = some p) :
    CancelledByPeer (cancelledKey message) p (peerCancelOutcome message) s
      (SessionHost.applyCancelled (notificationParams message) s) := by
  obtain ⟨hkey', _⟩ | ⟨_, hnone, _⟩ | ⟨p', _, hp', heq⟩ := applyCancelled_cases message s
  · exact absurd hkey' hkey
  · exact absurd (hp.symm.trans hnone) (by simp)
  · obtain rfl : p = p' := Option.some.inj (hp.symm.trans hp')
    rw [heq]
    constructor
    · show ((s.markCancelled (cancelledKey message)).dropPending _ p).pending = _
      rw [dropPending_pending, markCancelled_pending]
    · show _ :: ((s.markCancelled (cancelledKey message)).dropPending _ p).history = _
      rw [dropPending_history, markCancelled_history]

/-! ### The notification as it arrives -/

/-- The state with the arrival of a cancellation noted. -/
def noted (message : JsonObject) (s : SessionState) : SessionState :=
  { s with session :=
      s.session.observe (.notified Method.cancelled (notificationParams message)) }

/-- The handler of `notifications/cancelled` is the one the session installs. -/
def BuiltinCancel (s : SessionState) : Prop :=
  s.session.notifyHandlers.lookup Method.cancelled = some .cancelled

instance (s : SessionState) : Decidable (BuiltinCancel s) := inferInstanceAs (Decidable (_ = _))

theorem advance_cancelled {message : JsonObject} (h : IsCancelled message) (s : SessionState) :
    (sessionEntry (.messageReceived message)).advance s =
      (sessionHost.runNotifyHandler Method.cancelled (notificationParams message)
          (s.session.notifyHandlers.lookup Method.cancelled) >>= fun _ =>
        sessionHost.emit (.notificationReceived Method.cancelled (notificationParams message))).advance
        (noted message s) := by
  change (sessionHost.onMessageReceived message).advance s = _
  unfold SessionHost.onMessageReceived
  rw [if_neg (not_not.mpr h.version), h.kind]
  unfold noted
  rw [← h.method]
  rfl

/-- With the built-in handler a cancellation updates the session at once, and is
then reported. -/
theorem advance_cancelled_builtin {message : JsonObject} (h : IsCancelled message)
    {s : SessionState} (hb : BuiltinCancel s) :
    (sessionEntry (.messageReceived message)).advance s =
      (⟨SessionHost.applyCancelled (notificationParams message) (noted message s).session,
          s.transportOpen⟩,
        .out (.emit (.notificationReceived Method.cancelled (notificationParams message))) .ret) := by
  have hb : s.session.notifyHandlers.lookup Method.cancelled = some .cancelled := hb
  rw [advance_cancelled h, hb]
  rfl

/-- With another handler, or none, the session itself does nothing. -/
theorem advance_cancelled_replaced {message : JsonObject} (h : IsCancelled message)
    {s : SessionState} (hb : ¬BuiltinCancel s) :
    ((sessionEntry (.messageReceived message)).advance s).1 = noted message s := by
  rw [advance_cancelled h]
  cases hl : s.session.notifyHandlers.lookup Method.cancelled with
  | none => rfl
  | some handler =>
      cases handler with
      | cancelled => exact absurd hl hb
      | progress => rfl
      | user => rfl

/-- In every state, a cancellation changes nothing filed under another string; it
touches a pending request only where one has the string of the id it names, and
then, no request of the peer being in flight under that string, it is taken to
name that pending request and settles it. After that the session only reports the
notification. -/
theorem peer_cancel_effect {message : JsonObject} (h : IsCancelled message) (s : SessionState) :
    CancelEffect (cancelledKey message) (noted message s).session
      ((sessionEntry (.messageReceived message)).advance s).1.session ∧
    (BuiltinCancel s → ∀ p, cancelledKey message ≠ "" →
      s.session.pending.lookup (cancelledKey message) = some p →
      cancelledKey message ∉ s.session.inFlightIncomingIds →
      CancelledByPeer (cancelledKey message) p (peerCancelOutcome message) (noted message s).session
        ((sessionEntry (.messageReceived message)).advance s).1.session) ∧
    (BuiltinCancel s → ((sessionEntry (.messageReceived message)).advance s).2 =
      .out (.emit (.notificationReceived Method.cancelled (notificationParams message))) .ret) := by
  by_cases hb : BuiltinCancel s
  · rw [advance_cancelled_builtin h hb]
    exact ⟨applyCancelled_effect message _,
      fun _ p hkey hp _ => applyCancelled_pending message _ hkey hp, fun _ => rfl⟩
  · rw [advance_cancelled_replaced h hb]
    exact ⟨⟨Or.inl rfl, rfl, rfl, fun _ _ => rfl, fun _ => ⟨rfl, rfl, rfl, rfl⟩,
      fun _ => ⟨rfl, rfl, rfl⟩⟩, fun hb' => absurd hb' hb, fun hb' => absurd hb' hb⟩

/-- A cancellation of the request with id `"1"`. -/
def cancelOne : JsonObject :=
  notificationMessage Method.cancelled (JsonObject.ofFields [("requestId", .str "1")])

theorem isCancelled_cancelOne : IsCancelled cancelOne :=
  ⟨by decide, by decide, by decide⟩

/-- A request of this side is pending under `"1"`. -/
def pendingScript : List (Move sessionMachine) :=
  [.event (.call (.sendRequest "ping" [] false)), .answer SessionOut.returns]

/-- The peer names the pending request of this side, and its promise is settled. -/
theorem peer_cancel_effect_one :
    ∃ s : SessionState, Reaches (Surroundings.any sessionMachine) (.idle {}) (.idle s) ∧
      s.session.IsPending 0 ∧ "1" ∉ s.session.inFlightIncomingIds ∧
      CancelEffect "1" (noted cancelOne s).session
        ((sessionEntry (.messageReceived cancelOne)).advance s).1.session ∧
      CancelledByPeer "1" ⟨0, "", "ping"⟩ (.exception (.cancelledError "Cancelled by peer"))
        (noted cancelOne s).session
        ((sessionEntry (.messageReceived cancelOne)).advance s).1.session := by
  have hplay : Playable (Surroundings.any sessionMachine) 0 pendingScript (.idle {}) :=
    ⟨trivial, trivial, trivial⟩
  have hpending : (play sessionMachine 0 pendingScript (.idle {})).state.session.pending.lookup
      "1" = some ⟨0, "", "ping"⟩ := rfl
  have hnone : "1" ∉
      (play sessionMachine 0 pendingScript (.idle {})).state.session.inFlightIncomingIds :=
    Finset.notMem_empty _
  obtain ⟨heffect, hsettled, -⟩ := peer_cancel_effect isCancelled_cancelOne
    (play sessionMachine 0 pendingScript (.idle {})).state
  refine ⟨_, reaches_play hplay, ⟨"1", _, hpending, rfl⟩, hnone, heffect, ?_⟩
  exact hsettled rfl _ (by decide) hpending hnone

/-- A request of this side is pending under `"1"`, and so is one of the peer. -/
def crossedScript : List (Move sessionMachine) :=
  [.event (.call (.setRequestHandler "ask" true)), .event (.call (.sendRequest "ping" [] false)),
    .answer SessionOut.returns, .event (.messageReceived (requestMessage "1" "ask" [])),
    .answer SessionOut.returns, .answer SessionOut.returns]

/-- The peer cancels its own request, and the pending request of this side with the
same id string is settled. -/
theorem peer_cancel_settles_own :
    ∃ s : SessionState, Reaches (Surroundings.any sessionMachine) (.idle {}) (.idle s) ∧
      "1" ∈ s.session.inFlightIncomingIds ∧ s.session.IsPending 0 ∧
      ((sessionEntry (.messageReceived cancelOne)).advance s).1.session.settledIds = [0] := by
  have hplay : Playable (Surroundings.any sessionMachine) 0 crossedScript (.idle {}) :=
    ⟨trivial, trivial, trivial, trivial, trivial, trivial, trivial⟩
  refine ⟨(play sessionMachine 0 crossedScript (.idle {})).state, reaches_play hplay, ?_, ?_, rfl⟩
  · exact Finset.mem_insert_self _ _
  · exact ⟨"1", ⟨0, "", "ping"⟩, rfl, rfl⟩

end LLMQore.Rpc
