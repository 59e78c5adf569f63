import LLMQore.Rpc.PeerCancel

/-!
# LLMQore.Rpc.Incoming

Requests of the peer are answered exactly once.

The session files the ids of the peer's requests under their strings, in one set
for the requests in flight and in another for the cancelled ones, and it takes a
mark back only where a watcher finds it. So its sets agree with the observer's
ledger (`BooksInv`) only in runs that keep out of four corners: a cancellation
that cannot be filed under its own request alone, a request that arrives while a
mark is filed under its string, a handler that throws, or is missing, when its
request is already marked, and a future that is cancelled and has no exception,
from which the watcher takes a result that is not there. Besides, a message that
cannot be classified gets an error under whatever id it carries, which may be the
id of a request in flight. `IncomingEvent` and `IncomingAnswer` are these
conditions, each on the state before the step. In every run that meets them, a
request that ended was answered once, or not at all if it was cancelled.
-/

namespace LLMQore.Rpc

open Reentrant

structure IncomingInv (s : SessionState) : Prop where
  isOpen : s.transportOpen = true
  books : BooksInv s.session.books
  /-- The built-in handler of cancellations is installed for nothing else. -/
  handlers : ∀ method, s.session.notifyHandlers.lookup method = some .cancelled →
    method = Method.cancelled

/-- What a complete visit may do: requests being dispatched stay so. -/
def incomingRely (s s' : SessionState) : Prop :=
  ∀ t id, s.session.books.Dispatching t id → s'.session.books.Dispatching t id

def incomingContract : Contract SessionSig := .plain IncomingInv incomingRely

theorem incomingContract_preorder : incomingContract.Preorder where
  refl _ _ _ h := h
  trans h₁ h₂ t id h := h₂ t id (h₁ t id h)

/-! ### The conditions on a run -/

/-- The request with this tag has no mark filed under its string. -/
def Unmarked (s : SessionState) (t : RequestTag) : Prop :=
  ∀ id, (t, id) ∈ s.session.books.ledger.live → idToString id ∉ s.session.cancelledIncomingIds

/-- A request may arrive, and so may a cancellation; a message that cannot be classified is sent
under no id of a request in flight; a future is cancelled without an exception only where its
request is marked; the transport stays open. -/
def IncomingEvent (s : SessionState) : SessionEvent → Prop
  | .messageReceived message => (message.value "jsonrpc").toString = "2.0" →
      (classify message = .request → s.session.books.MayArrive (message.value "id")) ∧
      (classify message = .notification →
        (message.value "method").toString = Method.cancelled →
        s.session.books.MayCancel ((notificationParams message).value "requestId")
          (decide (BuiltinCancel s))) ∧
      (classify message = .invalid →
        ∀ r ∈ s.session.books.ledger.live, r.2 ≠ message.value "id")
  | .call (.handlerFinished tag .cancelled) =>
      ∀ w, s.session.watchers.lookup tag = some w → w.idStr ∈ s.session.cancelledIncomingIds
  | .transportOpen isOpen => isOpen = true
  | _ => True

/-- A request without a handler, or whose handler throws, is not marked. -/
def IncomingAnswer (s : SessionState) : (e : SessionOut) → e.Ans → Prop
  | .emit (.incomingRequest tag method), _ => method ∈ s.session.requestHandlers ∨ Unmarked s tag
  | .handle tag _ _, .error _ => Unmarked s tag
  | _, _ => True

/-! ### Code that does not concern the peer's requests -/

/-- A proof obligation of the contract. -/
abbrev KeepsIncoming {α : Type} (p : Proc SessionSig α) : Prop :=
  incomingContract.Keeps (S := SessionSig) IncomingAnswer p

theorem keepsIncoming_query (e : SessionOut) :
    KeepsIncoming (Proc.query (S := SessionSig) e) :=
  Contract.Keeps.query (S := SessionSig) e

theorem keepsIncoming_bind {α β : Type} {p : Proc SessionSig α} {g : α → Proc SessionSig β}
    (hp : KeepsIncoming p) (hg : ∀ a, KeepsIncoming (g a)) : KeepsIncoming (p >>= g) :=
  Contract.Keeps.bind incomingContract_preorder hp hg

theorem keepsIncoming_modify {f : Session → Session} (hb : ∀ s, (f s).books = s.books)
    (hn : ∀ s, (f s).notifyHandlers = s.notifyHandlers) :
    KeepsIncoming (sessionHost.modify f) := by
  refine Contract.Keeps.modify fun s hs => ?_
  have hs : IncomingInv s := hs
  refine ⟨⟨hs.isOpen, ?_, ?_⟩, fun t id h => ?_⟩
  · show BooksInv (f s.session).books
    rw [hb]
    exact hs.books
  · show ∀ method, (f s.session).notifyHandlers.lookup method = _ → _
    rw [hn]
    exact hs.handlers
  · show (f s.session).books.Dispatching t id
    rw [hb]
    exact h

/-- A message that answers no request in flight. -/
theorem keepsIncoming_sendAt {message : JsonObject} {s : SessionState} (hs : IncomingInv s)
    (hledger : ledger (.sent message none :: s.session.history) = ledger s.session.history) :
    incomingContract.KeepsAt (S := SessionSig) IncomingAnswer (sessionHost.send none message) s := by
  have hbooks := Session.books_sent hledger
  have hi : IncomingInv { s with session := s.session.observe (.sent message none) } :=
    ⟨hs.isOpen, hbooks ▸ hs.books, hs.handlers⟩
  refine wp_mono (keepsIncoming_query _ _ hi) fun _ s' h => ⟨h.1, fun t id hd => h.2 t id ?_⟩
  show (s.session.observe (.sent message none)).books.Dispatching t id
  rw [hbooks]
  exact hd

theorem keepsIncoming_send {message : JsonObject} (h : IsCall message) :
    KeepsIncoming (sessionHost.send none message) :=
  fun _ hs => keepsIncoming_sendAt hs (ledger_sent_call h _)

theorem incoming_quiet : SessionHost.Quiet sessionHost IncomingAnswer incomingContract where
  toPreorder := incomingContract_preorder
  send _ h := keepsIncoming_send h
  abandon id := keepsIncoming_query (.abandon id)
  emit signal := keepsIncoming_query (.emit signal)
  notify method params := keepsIncoming_query (.notify method params)
  progress token progress total message :=
    keepsIncoming_query (.progress token progress total message)
  update _ hb hn := keepsIncoming_modify hb hn

theorem keepsIncoming_setNotificationHandler (method : String) (handler : Bool) :
    KeepsIncoming (sessionHost.setNotificationHandler method handler) := by
  refine Contract.Keeps.modify fun s hs => ?_
  have hs : IncomingInv s := hs
  refine ⟨⟨hs.isOpen, hs.books, fun m hm => ?_⟩, fun _ _ h => h⟩
  have hold : ∀ m, m ≠ method → (if handler = true then
      s.session.notifyHandlers.insert method NotifyHandler.user
      else s.session.notifyHandlers.erase method).lookup m = s.session.notifyHandlers.lookup m := by
    intro m hne
    cases handler with
    | true => exact AList.lookup_insert_ne hne
    | false => exact AList.lookup_erase_ne hne
  have hm : (if handler = true then s.session.notifyHandlers.insert method NotifyHandler.user
      else s.session.notifyHandlers.erase method).lookup m = some .cancelled := hm
  by_cases hne : m = method
  · subst hne
    cases handler with
    | true => rw [if_pos rfl, AList.lookup_insert] at hm; cases hm
    | false => rw [if_neg Bool.false_ne_true, AList.lookup_erase] at hm; cases hm
  · rw [hold m hne] at hm
    exact hs.handlers m hm

/-! ### A request of the peer -/

/-- Answering a request that ended and is not marked. The answer leaves before
anybody else runs. -/
theorem wp_incoming_answer {s : SessionState} {t : RequestTag} {id : JsonValue} (how : HandlerEnd)
    (hs : IncomingInv s) (hd : s.session.books.Dispatching t id)
    (hm : idToString id ∉ s.session.cancelledIncomingIds)
    {Q : Unit → SessionState → Prop}
    (hQ : ∀ s', IncomingInv s' → (∀ t' id', t' ≠ t → s.session.books.Dispatching t' id' →
      s'.session.books.Dispatching t' id') → Q () s') :
    wp (S := SessionSig) IncomingAnswer incomingContract
      (do sessionHost.leaveFlight t (idToString id) how
          if ← Proc.reads (S := SessionSig) sessionHost.isOpen then
            sessionHost.send (some t) (answerMessage id how)) Q s := by
  change wp (S := SessionSig) IncomingAnswer incomingContract
    (if s.transportOpen = true then _ else _) Q _
  rw [if_pos hs.isOpen]
  have hbooks := hs.books.answered_inv how hd hm
  refine ⟨⟨hs.isOpen, hbooks, hs.handlers⟩, fun s' hr hi _ _ => hQ s' hi fun t' id' hne h => ?_⟩
  exact hr t' id' ⟨Ledger.mem_live_finish.mpr ⟨h.1, hne⟩, h.2⟩

/-- An error has the id it is sent under, also none. -/
theorem errorMessage_value_id (id : JsonValue) (answer : ErrorAnswer) :
    (errorMessage id answer).value "id" = id := by
  unfold errorMessage JsonObject.ofFields
  simp only [List.foldl_cons, List.foldl_nil]
  rw [JsonObject.value_insert_ne _ _ (by decide)]
  cases id <;> rfl

theorem wp_incoming_dispatchRequest {s : SessionState} (message : JsonObject)
    (hs : IncomingInv s) (hmay : s.session.books.MayArrive (message.value "id")) :
    wp (S := SessionSig) IncomingAnswer incomingContract (sessionHost.dispatchRequest message)
      (fun _ s' => IncomingInv s' ∧ incomingRely s s') s := by
  have harrive := hs.books.arrive hmay
  have hlive : (s.session.nextTag, message.value "id") ∈
      (s.session.books.arrive (message.value "id")).ledger.live :=
    (Ledger.mem_live_receive hs.books.fresh_not_ended).mpr (Or.inl rfl)
  have hnew : s.session.watchers.lookup s.session.nextTag = none := hs.books.fresh_not_watched
  have hkeep : ∀ t id, s.session.books.Dispatching t id →
      (s.session.books.arrive (message.value "id")).Dispatching t id ∧ t ≠ s.session.nextTag := by
    intro t id h
    refine ⟨⟨(Ledger.mem_live_receive hs.books.fresh_not_ended).mpr (Or.inr h.1), h.2⟩, ?_⟩
    exact (hs.books.live_lt h.1).ne
  refine ⟨⟨hs.isOpen, harrive, hs.handlers⟩, fun s₁ hr₁ hi₁ _ ha₁ => ?_⟩
  have hd₁ : s₁.session.books.Dispatching s.session.nextTag (message.value "id") :=
    hr₁ _ _ ⟨hlive, hnew⟩
  have hi₁ : IncomingInv s₁ := hi₁
  change wp (S := SessionSig) IncomingAnswer incomingContract
    (if _ ∈ s₁.session.requestHandlers then _ else _) _ s₁
  rw [wp_ite]
  constructor
  · intro _
    refine ⟨hi₁, fun s₂ hr₂ hi₂ answer ha₂ => ?_⟩
    have hd₂ : s₂.session.books.Dispatching s.session.nextTag (message.value "id") := hr₂ _ _ hd₁
    have hi₂ : IncomingInv s₂ := hi₂
    cases answer with
    | error e =>
        refine wp_incoming_answer (.threw e)
          (s := { s₂ with session := s₂.session.clearProgressToken })
          ⟨hi₂.isOpen, hi₂.books, hi₂.handlers⟩ hd₂ (ha₂ _ hd₂.1) fun s₃ hi₃ hr₃ => ⟨hi₃, ?_⟩
        intro t id h
        obtain ⟨h₀, hne⟩ := hkeep t id h
        exact hr₃ t id hne (hr₂ t id (hr₁ t id h₀))
    | ok u =>
        refine ⟨⟨hi₂.isOpen, hi₂.books.watch hd₂.1, hi₂.handlers⟩, fun t id h => ?_⟩
        obtain ⟨h₀, hne⟩ := hkeep t id h
        obtain ⟨hl, hw⟩ := hr₂ t id (hr₁ t id h₀)
        exact ⟨hl, (AList.lookup_insert_ne hne).trans hw⟩
  · intro hno
    have hm : idToString (message.value "id") ∉ s₁.session.cancelledIncomingIds :=
      (ha₁.resolve_left hno) _ hd₁.1
    refine wp_incoming_answer (.noHandler _)
      (s := { s₁ with session := s₁.session.clearProgressToken })
      ⟨hi₁.isOpen, hi₁.books, hi₁.handlers⟩ hd₁ hm fun s₃ hi₃ hr₃ => ⟨hi₃, ?_⟩
    intro t id h
    obtain ⟨h₀, hne⟩ := hkeep t id h
    exact hr₃ t id hne (hr₁ t id h₀)

theorem wp_incoming_handlerFinished {s : SessionState} (hs : IncomingInv s) {t : RequestTag}
    {outcome : FutureEnd} (hev : IncomingEvent s (.call (.handlerFinished t outcome))) :
    wp (S := SessionSig) IncomingAnswer incomingContract (sessionHost.handlerFinished t outcome)
      (fun _ s' => IncomingInv s' ∧ incomingRely s s') s := by
  refine Contract.KeepsAt.reads ?_
  have hsession : sessionHost.session s = s.session := rfl
  dsimp only
  rw [hsession]
  cases hw : s.session.watchers.lookup t with
  | none => exact ⟨hs, fun _ _ h => h⟩
  | some w =>
      obtain ⟨hlive, hkey⟩ := hs.books.watched t w hw
      -- without its watcher the request is being dispatched again
      have hi : IncomingInv { s with session := s.session.unwatch t } :=
        ⟨hs.isOpen, hs.books.unwatch t, hs.handlers⟩
      have hd : (s.session.unwatch t).books.Dispatching t w.idValue :=
        ⟨hlive, AList.lookup_erase _ _⟩
      have hrest : ∀ t' id', s.session.books.Dispatching t' id' →
          t' ≠ t ∧ (s.session.unwatch t).books.Dispatching t' id' :=
        fun t' id' h => ⟨h.ne hw, Session.dispatching_unwatch h (h.ne hw)⟩
      change wp (S := SessionSig) IncomingAnswer incomingContract
        (if (!w.idStr.isEmpty && decide (w.idStr ∈ s.session.cancelledIncomingIds)) = true then _
          else _) _ { s with session := s.session.unwatch t }
      rw [hkey, wp_ite]
      constructor
      · intro hmarked
        rw [Bool.and_eq_true, decide_eq_true_eq] at hmarked
        have hbooks := hi.books.suppressed_inv (.finished outcome) hd hmarked.2
        refine ⟨⟨hs.isOpen, hbooks, hs.handlers⟩, fun t' id' h => ?_⟩
        obtain ⟨hne, hl, hw'⟩ := hrest t' id' h
        exact ⟨Ledger.mem_live_finish.mpr ⟨hl, hne⟩, hw'⟩
      · intro hunmarked
        have hm : idToString w.idValue ∉ s.session.cancelledIncomingIds := by
          intro hmem
          have hne := (hs.books.marked _ hmem).1
          refine hunmarked ?_
          simpa [hmem] using hne
        cases outcome with
        | result v =>
            exact wp_incoming_answer (.finished (.result v)) hi hd hm fun s' hi' hr' =>
              ⟨hi', fun t' id' h => hr' t' id' (hrest t' id' h).1 (hrest t' id' h).2⟩
        | exception e =>
            exact wp_incoming_answer (.finished (.exception e)) hi hd hm fun s' hi' hr' =>
              ⟨hi', fun t' id' h => hr' t' id' (hrest t' id' h).1 (hrest t' id' h).2⟩
        | cancelled => exact absurd (hkey ▸ hev w hw) hm

/-! ### A notification of the peer -/

/-- A cancellation under the built-in handler: noted in the ledger, and marked. -/
theorem applyCancelled_books (message : JsonObject) (s : Session) :
    (SessionHost.applyCancelled (notificationParams message)
      (s.observe (.notified Method.cancelled (notificationParams message)))).books =
      if cancelledKey message = "" then
        { s.books with
          ledger := s.books.ledger.cancel ((notificationParams message).value "requestId") }
      else s.books.cancel ((notificationParams message).value "requestId") true := by
  have hmarked : ∀ k, (Session.markCancelled
      (s.observe (.notified Method.cancelled (notificationParams message))) k).books =
      { s.books with
        ledger := s.books.ledger.cancel ((notificationParams message).value "requestId")
        marks := if k ∈ s.books.inFlight then insert k s.books.marks else s.books.marks } := by
    intro k
    unfold Session.markCancelled
    have hiff : k ∈ (s.observe (.notified Method.cancelled
        (notificationParams message))).inFlightIncomingIds ↔ k ∈ s.books.inFlight := Iff.rfl
    by_cases h : k ∈ s.books.inFlight
    · rw [if_pos (hiff.mpr h), if_pos h]
      rfl
    · rw [if_neg (fun h' => h (hiff.mp h')), if_neg h]
      rfl
  have hcancel : s.books.cancel ((notificationParams message).value "requestId") true =
      { s.books with
        ledger := s.books.ledger.cancel ((notificationParams message).value "requestId")
        marks := if cancelledKey message ∈ s.books.inFlight then
            insert (cancelledKey message) s.books.marks else s.books.marks } := by
    unfold Books.cancel
    simp only [true_and]
    rfl
  obtain ⟨hkey, heq⟩ | ⟨hkey, _, heq⟩ | ⟨p, hkey, _, heq⟩ :=
    applyCancelled_cases message (s.observe (.notified Method.cancelled (notificationParams message)))
  · rw [heq, if_pos hkey]
    rfl
  · rw [heq, if_neg hkey, hmarked, hcancel]
  · rw [heq, if_neg hkey, hcancel, ← hmarked]
    exact dropPending_books _ _ p

/-- Without the built-in handler no request in flight may be named, so the ledger
is as it was. -/
theorem BooksInv.cancel_unmarked {b : Books} (hb : BooksInv b) {id : JsonValue}
    (h : b.MayCancel id false) : BooksInv { b with ledger := b.ledger.cancel id } := by
  have hcancel := hb.cancel h
  unfold Books.cancel at hcancel
  simpa using hcancel

/-- An empty key is in flight for no request. -/
theorem BooksInv.cancel_no_key {b : Books} (hb : BooksInv b) {id : JsonValue} {marks : Bool}
    (hkey : idToString id = "") (h : b.MayCancel id marks) :
    BooksInv { b with ledger := b.ledger.cancel id } := by
  have hno : idToString id ∉ b.inFlight := fun hin => (hb.in_flight _ hin).1 hkey
  have hcancel := hb.cancel h
  unfold Books.cancel at hcancel
  simpa [hno] using hcancel

/-- The arrival of a notification that cancels nothing. -/
theorem ledger_notified {method : String} (h : method ≠ Method.cancelled) (params : JsonObject)
    (older : List Observation) :
    ledger (.notified method params :: older) = ledger older :=
  if_neg h

/-- Noting the arrival of a notification, before its handler runs. -/
theorem wp_incoming_note {s : SessionState} {method : String} {params : JsonObject}
    {handler : Option NotifyHandler} (hh : handler ≠ some .cancelled)
    (hi : IncomingInv { s with session := s.session.observe (.notified method params) })
    (hlive : (ledger (.notified method params :: s.session.history)).live =
      (ledger s.session.history).live) :
    wp IncomingAnswer incomingContract
      (sessionHost.runNotifyHandler method params handler >>= fun _ =>
        sessionHost.emit (.notificationReceived method params))
      (fun _ s' => IncomingInv s' ∧ incomingRely s s')
      { s with session := s.session.observe (.notified method params) } := by
  have hkeeps : KeepsIncoming (sessionHost.runNotifyHandler method params handler >>= fun _ =>
      sessionHost.emit (.notificationReceived method params)) :=
    keepsIncoming_bind (incoming_quiet.runNotifyHandler _ _ hh) fun _ => keepsIncoming_query _
  refine hkeeps.wp hi fun _ s' hi' hr' => ⟨hi', fun t id h => hr' t id ⟨?_, h.2⟩⟩
  show (t, id) ∈ (ledger (.notified method params :: s.session.history)).live
  rw [hlive]
  exact h.1

theorem wp_incoming_dispatchNotification {s : SessionState} (message : JsonObject)
    (hs : IncomingInv s)
    (hmay : (message.value "method").toString = Method.cancelled →
      s.session.books.MayCancel ((notificationParams message).value "requestId")
        (decide (BuiltinCancel s))) :
    wp IncomingAnswer incomingContract (sessionHost.dispatchNotification message)
      (fun _ s' => IncomingInv s' ∧ incomingRely s s') s := by
  change wp IncomingAnswer incomingContract
    (sessionHost.runNotifyHandler _ (notificationParams message)
      (s.session.notifyHandlers.lookup (message.value "method").toString) >>= fun _ => _) _
    { s with
      session := s.session.observe
        (.notified (message.value "method").toString (notificationParams message)) }
  by_cases hmethod : (message.value "method").toString = Method.cancelled
  · have hmay := hmay hmethod
    rw [hmethod]
    by_cases hb : BuiltinCancel s
    · rw [decide_eq_true hb] at hmay
      have hlook : s.session.notifyHandlers.lookup Method.cancelled = some .cancelled := hb
      have hbooks : BooksInv (SessionHost.applyCancelled (notificationParams message)
          (s.session.observe (.notified Method.cancelled (notificationParams message)))).books := by
        rw [applyCancelled_books]
        by_cases hkey : cancelledKey message = ""
        · rw [if_pos hkey]
          exact hs.books.cancel_no_key hkey hmay
        · rw [if_neg hkey]
          exact hs.books.cancel hmay
      have hhandlers : (SessionHost.applyCancelled (notificationParams message)
          (s.session.observe (.notified Method.cancelled
            (notificationParams message)))).notifyHandlers = s.session.notifyHandlers := by
        obtain ⟨_, heq⟩ | ⟨_, _, heq⟩ | ⟨p, _, _, heq⟩ := applyCancelled_cases message
          (s.session.observe (.notified Method.cancelled (notificationParams message)))
        · rw [heq]; rfl
        · rw [heq, markCancelled_eq]; rfl
        · rw [heq]
          refine (dropPending_notifyHandlers _ (cancelledKey message) p).trans ?_
          rw [markCancelled_eq]; rfl
      have hdisp : ∀ t id, s.session.books.Dispatching t id →
          (SessionHost.applyCancelled (notificationParams message)
            (s.session.observe (.notified Method.cancelled
              (notificationParams message)))).books.Dispatching t id := by
        intro t id h
        rw [applyCancelled_books]
        split
        · exact h
        · exact h
      rw [hlook]
      refine ⟨⟨hs.isOpen, hbooks, ?_⟩, fun s' hr' hi' _ _ => ⟨hi', fun t id h => ?_⟩⟩
      · intro method hm
        have hm : (SessionHost.applyCancelled (notificationParams message)
          (s.session.observe (.notified Method.cancelled
            (notificationParams message)))).notifyHandlers.lookup method = _ := hm
        rw [hhandlers] at hm
        exact hs.handlers method hm
      · exact hr' t id (hdisp t id h)
    · rw [decide_eq_false hb] at hmay
      exact wp_incoming_note hb ⟨hs.isOpen, hs.books.cancel_unmarked hmay, hs.handlers⟩ rfl
  · have hledger := ledger_notified hmethod (notificationParams message) s.session.history
    refine wp_incoming_note (fun h => hmethod (hs.handlers _ h)) ⟨hs.isOpen, ?_, hs.handlers⟩
      (congrArg Ledger.live hledger)
    show BooksInv ⟨ledger (.notified _ _ :: s.session.history), _, _, _, _⟩
    rw [hledger]
    exact hs.books

theorem wp_incoming_onMessageReceived {s : SessionState} (message : JsonObject)
    (hs : IncomingInv s) (hev : IncomingEvent s (.messageReceived message)) :
    wp IncomingAnswer incomingContract (sessionHost.onMessageReceived message)
      (fun _ s' => IncomingInv s' ∧ incomingRely s s') s := by
  unfold SessionHost.onMessageReceived
  rw [wp_ite]
  refine ⟨fun _ => keepsIncoming_query _ s hs, fun hver => ?_⟩
  obtain ⟨hreq, hnot, hinvalid⟩ := hev (not_not.mp hver)
  cases hk : classify message with
  | request => exact wp_incoming_dispatchRequest message hs (hreq hk)
  | notification => exact wp_incoming_dispatchNotification message hs (hnot hk)
  | response => exact incoming_quiet.dispatchResponse message s hs
  | invalid =>
      refine Contract.KeepsAt.bind incomingContract_preorder ?_ fun _ s' h' =>
        keepsIncoming_query _ s' h'.1
      refine Contract.KeepsAt.reads ?_
      refine (wp_ite (S := SessionSig) _ _ _ _ s).mpr ⟨fun _ => ?_, fun _ => ⟨hs, fun _ _ h => h⟩⟩
      refine keepsIncoming_sendAt hs (ledger_sent_unanswering fun r hr => ?_)
      rw [errorMessage_value_id]
      exact hinvalid hk r hr

/-! ### Runs -/

theorem wp_incoming_entry {s : SessionState} (ev : SessionEvent) (hs : IncomingInv s)
    (hev : IncomingEvent s ev) :
    wp IncomingAnswer incomingContract (sessionEntry ev)
      (fun _ s' => IncomingInv s' ∧ incomingRely s s') s := by
  cases ev with
  | call c =>
      by_cases hfinished : ∃ tag outcome, c = .handlerFinished tag outcome
      · obtain ⟨tag, outcome, rfl⟩ := hfinished
        exact wp_incoming_handlerFinished hs hev
      · exact incoming_quiet.call keepsIncoming_setNotificationHandler
          (fun tag outcome h => absurd ⟨tag, outcome, h⟩ hfinished) s hs
  | messageReceived message => exact wp_incoming_onMessageReceived message hs hev
  | sendFailed message reason => exact incoming_quiet.onSendFailed message reason s hs
  | transportClosed => exact incoming_quiet.abortPending _ s hs
  | transportOpen isOpen => exact ⟨⟨hev, hs.books, hs.handlers⟩, fun _ _ h => h⟩

theorem incoming_valid :
    incomingContract.Valid (Surroundings.guarded sessionMachine IncomingEvent IncomingAnswer) :=
  Contract.Valid.of_guarded incomingContract_preorder
    (fun _ ev hs hev => wp_incoming_entry ev hs hev) fun f => f.elim

theorem incomingInv_init : IncomingInv {} where
  isOpen := rfl
  books := BooksInv.empty
  handlers := by
    intro method h
    by_contra hne
    have hprog : AList.lookup method (AList.insert Method.progress NotifyHandler.progress ∅ :
        AList fun _ : String => NotifyHandler) = some .cancelled :=
      (AList.lookup_insert_ne hne).symm.trans h
    by_cases hp : method = Method.progress
    · rw [hp, AList.lookup_insert] at hprog
      cases hprog
    · rw [AList.lookup_insert_ne hp] at hprog
      cases hprog

/-- Every request of the peer is answered as its end and its cancellation say. -/
structure AnsweredOnce (s : Session) : Prop where
  /-- A request that ended was answered once, or not at all if it was cancelled
  while it was in flight. -/
  ended : ∀ t id how, (t, id) ∈ (ledger s.history).received → (t, how) ∈ (ledger s.history).ends →
    (ledger s.history).answersTo t =
      if t ∈ (ledger s.history).cancelled then [] else [answerMessage id how]
  in_flight : ∀ t id, (t, id) ∈ (ledger s.history).live → (ledger s.history).answersTo t = []
  ends_once : ((ledger s.history).ends.map Prod.fst).Nodup
  /-- A mark belongs to a cancelled request in flight. -/
  marks : ∀ k ∈ s.cancelledIncomingIds, ∃ t id, (t, id) ∈ (ledger s.history).live ∧
    idToString id = k ∧ t ∈ (ledger s.history).cancelled

theorem IncomingInv.answeredOnce {s : SessionState} (hs : IncomingInv s) :
    AnsweredOnce s.session where
  ended t id how hr he := hs.books.answered (t, id) hr how he
  in_flight t id hl := hs.books.unanswered (t, id) hl
  ends_once := hs.books.ends_nodup
  marks := by
    intro k hk
    obtain ⟨_, ⟨t, id⟩, hl, hkey, hc, _⟩ := hs.books.marked k hk
    exact ⟨t, id, hl, hkey, hc⟩

/-- In every run whose arrivals, cancellations and handlers meet the conditions,
the requests of the peer are answered exactly once. -/
theorem incoming_answered_once {c : Config SessionSig}
    (hrun : Reaches (Surroundings.guarded sessionMachine IncomingEvent IncomingAnswer)
      (.idle {}) c) (hw : c.Waiting) : AnsweredOnce c.state.session := by
  have hinv : IncomingInv c.state := incoming_valid.waiting incomingInv_init hrun hw
  exact hinv.answeredOnce

/-- The peer asks, and the handler's future finishes with a result. -/
def askedScript : List (Move sessionMachine) :=
  [.event (.call (.setRequestHandler "ask" true)),
    .event (.messageReceived (requestMessage "1" "ask" [])), .answer SessionOut.returns,
    .answer SessionOut.returns, .event (.call (.handlerFinished 0 (.result (.str "yes")))),
    .answer SessionOut.returns]

theorem incoming_answered_once_asked :
    ∃ c : Config SessionSig, c.Waiting ∧ AnsweredOnce c.state.session ∧
      (ledger c.state.session.history).answersTo 0 = [resultMessage (.str "1") (.str "yes")] := by
  have harrive : IncomingEvent { session := { requestHandlers := insert "ask" ∅ } }
      (.messageReceived (requestMessage "1" "ask" [])) :=
    fun _ => ⟨fun _ => ⟨fun _ h => absurd h List.not_mem_nil, Finset.notMem_empty _⟩,
      fun hk => absurd hk (by decide), fun hk => absurd hk (by decide)⟩
  have hplay : Playable (Surroundings.guarded sessionMachine IncomingEvent IncomingAnswer) 0
      askedScript (.idle {}) :=
    ⟨trivial, harrive, Or.inl (Finset.mem_insert_self _ _), trivial, trivial, trivial, trivial⟩
  have hw : (play sessionMachine 0 askedScript (.idle {})).Waiting := Or.inl rfl
  exact ⟨_, hw, incoming_answered_once (reaches_play hplay) hw, rfl⟩

/-! ### Outside the conditions -/

/-- The id is a string or a number. -/
def IsIdValue : JsonValue → Prop
  | .str _ | .num _ => True
  | _ => False

/-- The requests in flight have pairwise different ids, and the transport stays
open. -/
def DistinctIds (s : SessionState) : SessionEvent → Prop
  | .messageReceived message => (message.value "jsonrpc").toString = "2.0" →
      classify message = .request → IsIdValue (message.value "id") ∧
        ∀ r ∈ s.session.books.ledger.live, r.2 ≠ message.value "id"
  | .transportOpen isOpen => isOpen = true
  | _ => True

/-- The handler of a request throws after the request was cancelled. -/
def thrownScript : List (Move sessionMachine) :=
  [.event (.call (.setRequestHandler "ask" true)),
    .event (.messageReceived (requestMessage "1" "ask" [])), .answer SessionOut.returns,
    .event (.messageReceived cancelOne), .answer SessionOut.returns,
    .answer fun e => match e with
      | .handle .. => .error (.stdException "no")
      | .send _ | .abandon _ | .emit _ | .notify .. | .progress .. => (),
    .answer SessionOut.returns]

/-- A request of the peer with the number `1` as its id. -/
def numberedRequest : JsonObject :=
  JsonObject.ofFields [("jsonrpc", .str "2.0"), ("id", .num 1), ("method", .str "ask")]

/-- The peer asks under `"1"` and under `1`, cancels the first and gets an answer to
it, and none to the second. -/
def conflatedScript : List (Move sessionMachine) :=
  [.event (.call (.setRequestHandler "ask" true)),
    .event (.messageReceived (requestMessage "1" "ask" [])), .answer SessionOut.returns,
    .answer SessionOut.returns,
    .event (.messageReceived numberedRequest), .answer SessionOut.returns,
    .answer SessionOut.returns,
    .event (.messageReceived cancelOne), .answer SessionOut.returns,
    .event (.call (.handlerFinished 1 (.result .null))),
    .event (.call (.handlerFinished 0 (.result .null))), .answer SessionOut.returns]

theorem incoming_answer_after_cancel :
    (∃ s : SessionState,
      Reaches (Surroundings.only sessionMachine DistinctIds) (.idle {}) (.idle s) ∧
      (ledger s.session.history).cancelled = [0] ∧
      (ledger s.session.history).answersTo 0 =
        [answerMessage (.str "1") (.threw (.stdException "no"))] ∧
      "1" ∈ s.session.cancelledIncomingIds ∧ ¬AnsweredOnce s.session) ∧
    (∃ s : SessionState,
      Reaches (Surroundings.only sessionMachine DistinctIds) (.idle {}) (.idle s) ∧
      (ledger s.session.history).cancelled = [0] ∧
      (ledger s.session.history).answersTo 0 = [resultMessage (.str "1") .null] ∧
      (ledger s.session.history).answersTo 1 = [] ∧ ¬AnsweredOnce s.session) := by
  have hone : ∀ s : SessionState, s.session.books.ledger.live = [] →
      DistinctIds s (.messageReceived (requestMessage "1" "ask" [])) := by
    intro s hs _ _
    refine ⟨trivial, fun r hr => ?_⟩
    rw [hs] at hr
    exact absurd hr List.not_mem_nil
  have hcancel : ∀ s, DistinctIds s (.messageReceived cancelOne) :=
    fun _ _ hk => absurd (isCancelled_cancelOne.kind.symm.trans hk) (by decide)
  constructor
  · have hplay : Playable (Surroundings.only sessionMachine DistinctIds) 0 thrownScript
        (.idle {}) :=
      ⟨trivial, hone _ rfl, trivial, hcancel _, trivial, trivial, trivial, trivial⟩
    refine ⟨_, reaches_play hplay, rfl, rfl, Finset.mem_insert_self _ _, fun h => ?_⟩
    have hended := h.ended 0 (.str "1") (.threw (.stdException "no")) List.mem_cons_self
      List.mem_cons_self
    exact absurd hended (List.cons_ne_nil _ _)
  · have hnumbered : ∀ s : SessionState, s.session.books.ledger.live = [(0, .str "1")] →
        DistinctIds s (.messageReceived numberedRequest) := by
      intro s hs _ _
      refine ⟨trivial, fun r hr => ?_⟩
      rw [hs] at hr
      obtain rfl := List.mem_singleton.mp hr
      exact JsonValue.noConfusion
    have hplay : Playable (Surroundings.only sessionMachine DistinctIds) 0 conflatedScript
        (.idle {}) :=
      ⟨trivial, hone _ rfl, trivial, trivial, hnumbered _ rfl, trivial, trivial, hcancel _,
        trivial, trivial, trivial, trivial, trivial⟩
    refine ⟨_, reaches_play hplay, rfl, rfl, rfl, fun h => ?_⟩
    have hended := h.ended 1 (.num 1) (.finished (.result .null)) List.mem_cons_self
      (List.mem_cons_of_mem _ List.mem_cons_self)
    exact absurd hended.symm (List.cons_ne_nil _ _)

end LLMQore.Rpc
