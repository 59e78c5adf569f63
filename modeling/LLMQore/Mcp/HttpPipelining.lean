import LLMQore.Mcp.HttpServerQueue

/-!
# LLMQore.Mcp.HttpPipelining

The responses of a connection and the requests they answer.

A response is written when its request is done with, whatever else was read from the
connection before, and every response closes the connection. So a connection serves one
request: a second one that is read while the first is being handled is answered before it, or
takes the connection away from it. What is proved is that a connection from which one request
is read gets the response to it (`answered_in_order`).

The proof follows the request of one connection through its stages (`Stage`). What happens
elsewhere in the transport leaves it in its stage or moves it on (`Stage.May`).
-/

namespace LLMQore.Mcp

open Reentrant Rpc

/-! ### What holds of a connection -/

namespace HttpServer

/-- The requests read from a socket, oldest first. -/
def requestsRead (s : HttpServer) (client : SocketId) : List HttpRequest :=
  s.log.reverse.filterMap fun
    | .read c req => if c = client then some req else none
    | _ => none

/-- The responses written to a socket, oldest first. -/
def responsesTo (s : HttpServer) (client : SocketId) : List HttpResponse :=
  s.log.reverse.filterMap fun
    | .wrote c response => if c = client then some response else none
    | _ => none

/-- A request has been read from the socket, and nothing written to it. -/
def Unanswered (s : HttpServer) (client : SocketId) : Prop :=
  s.requestsRead client ≠ [] ∧ s.responsesTo client = []

theorem requestsRead_read (s : HttpServer) (c client : SocketId) (req : HttpRequest) :
    (s.observe (.read c req)).requestsRead client =
      s.requestsRead client ++ if c = client then [req] else [] := by
  by_cases h : c = client <;> simp [requestsRead, observe, List.filterMap_append, h]

theorem responsesTo_wrote (s : HttpServer) (c client : SocketId) (response : HttpResponse) :
    (s.observe (.wrote c response)).responsesTo client =
      s.responsesTo client ++ if c = client then [response] else [] := by
  by_cases h : c = client <;> simp [responsesTo, observe, List.filterMap_append, h]

@[simp] theorem responsesTo_read (s : HttpServer) (c client : SocketId) (req : HttpRequest) :
    (s.observe (.read c req)).responsesTo client = s.responsesTo client := by
  simp [responsesTo, observe, List.filterMap_append]

@[simp] theorem requestsRead_wrote (s : HttpServer) (c client : SocketId)
    (response : HttpResponse) :
    (s.observe (.wrote c response)).requestsRead client = s.requestsRead client := by
  simp [requestsRead, observe, List.filterMap_append]

@[simp] theorem requestsRead_registered (s : HttpServer) (c client : SocketId) (tag : RequestTag)
    (msg : JsonObject) :
    (s.observe (.registered c tag msg)).requestsRead client = s.requestsRead client := by
  simp [requestsRead, observe, List.filterMap_append]

@[simp] theorem responsesTo_registered (s : HttpServer) (c client : SocketId) (tag : RequestTag)
    (msg : JsonObject) :
    (s.observe (.registered c tag msg)).responsesTo client = s.responsesTo client := by
  simp [responsesTo, observe, List.filterMap_append]

end HttpServer

/-- The response is one to the request: it refuses it, it ends with the answer to the JSON-RPC
request, or it acknowledges a message that is no request, with nothing made in answer to one. -/
def HttpRequest.AnsweredBy (req : HttpRequest) (response : HttpResponse) : Prop :=
  (400 ≤ response.status ∧ response.body = []) ∨
    ∃ msg, HttpServer.postedMessage req = some msg ∧
      if classify msg = .request then
        ∃ message tag, response.body.getLast? = some (message, tag) ∧
          HttpServer.isAnswer message = true ∧
          idToString (message.value "id") = idToString (msg.value "id")
      else
        ∀ b ∈ response.body, b.2 = none

/-- The request is a JSON-RPC request whose id is filed under `key`. -/
def HttpRequest.Asks (req : HttpRequest) (key : String) : Prop :=
  key ≠ "" ∧ ∃ msg, HttpServer.postedMessage req = some msg ∧ classify msg = .request ∧
    idToString (msg.value "id") = key

/-- The socket can be written to, and answers are. -/
structure Open (s : HttpServer) (client : SocketId) : Prop where
  isOpen : s.isOpen = true
  connected : client ∈ s.connected
  present : client ∉ s.deleted

/-- The client sends well-formed requests: JSON-RPC requests, notifications and responses. -/
def HttpRequest.WellFormed (req : HttpRequest) : Prop :=
  req.method = "POST" ∧ ∃ msg, HttpServer.postedMessage req = some msg ∧ classify msg ≠ .invalid

/-- The connection is neither closed by its client nor timed out, and what is read from it is
well formed. -/
def undisturbed (client : SocketId) : Surroundings queueMachine :=
  .guarded queueMachine
    (fun s e => match e with
      | .server (.connectionLost c) => c = client → client ∉ s.connected
      | .server (.disconnected c) => c = client → client ∉ s.connected
      | .server (.socketDeleted c) => c = client → client ∉ s.connected
      | .server (.pendingTimeout timer) => ∀ key, s.timers.lookup timer = some key →
          ∀ entry, s.pendingByRequestId.lookup key = some entry → entry.socket ≠ client
      | _ => True)
    (fun _ e a => match e, a with
      | .parseNext _, .needMoreData => True
      | .parseNext c, .complete req => c = client → req.WellFormed
      | .parseNext c, _ => c ≠ client
      | _, _ => True)

/-- Of the connection one request is read, while it is open and while neither a `DELETE` nor a
`stop` is under way. From then on, and until it is answered, nothing closes the connection from
the server's side: no `DELETE` ends the MCP session and the server is not stopped. The request is
not cancelled, and its handler finishes with a value or an exception. -/
def unpipelined (client : SocketId) : Surroundings queueMachine :=
  .guarded queueMachine
    (fun s e => (undisturbed client).event s e ∧ match e with
      | .server .stop => ¬ s.Unanswered client
      | .server (.session (.handlerFinished tag outcome)) => ∀ key entry,
          s.pendingByRequestId.lookup key = some entry → entry.socket = client →
          entry.tag = tag → key ∉ s.session.cancelledIncomingIds ∧ outcome.Answers
      | _ => True)
    (fun s e a => (undisturbed client).answer s e a ∧ match e, a with
      | .parseNext c, .complete req =>
          (c = client → s.requestsRead client = [] ∧ Open s client ∧ s.closings = 0) ∧
            (req.method = "DELETE" → ¬ s.Unanswered client)
      | _, _ => True)

/-! ### The stages of a request -/

/-- How far the transport is with the request of a connection. -/
inductive Stage where
  | unread
  /-- It was read, and has no entry in `pendingByRequestId`, or none any more. -/
  | handled (req : HttpRequest)
  /-- It has an entry, and its handler is being called. -/
  | dispatched (req : HttpRequest) (key : String) (entry : PendingRequestEntry)
  /-- It has an entry, and its handler has returned a future. -/
  | awaited (req : HttpRequest) (key : String) (entry : PendingRequestEntry)
  | answered (req : HttpRequest) (response : HttpResponse)

/-- What a complete visit of the transport may do to the stage. -/
inductive Stage.May : Stage → Stage → Prop
  | refl (stage : Stage) : Stage.May stage stage
  | ask (req : HttpRequest) (key : String) (entry : PendingRequestEntry) :
      Stage.May .unread (.awaited req key entry)
  | serve (req : HttpRequest) (response : HttpResponse) : Stage.May .unread (.answered req response)
  | answerDispatched (req : HttpRequest) (key : String) (entry : PendingRequestEntry)
      (response : HttpResponse) : Stage.May (.dispatched req key entry) (.answered req response)
  | answerAwaited (req : HttpRequest) (key : String) (entry : PendingRequestEntry)
      (response : HttpResponse) : Stage.May (.awaited req key entry) (.answered req response)

theorem Stage.May.trans {a b c : Stage} (h₁ : a.May b) (h₂ : b.May c) : a.May c := by
  cases h₁ with
  | refl => exact h₂
  | ask req key entry =>
      cases h₂ with
      | refl => exact .ask req key entry
      | answerAwaited _ _ _ response => exact .serve req response
  | serve req response =>
      cases h₂ with
      | refl => exact .serve req response
  | answerDispatched req key entry response =>
      cases h₂ with
      | refl => exact .answerDispatched req key entry response
  | answerAwaited req key entry response =>
      cases h₂ with
      | refl => exact .answerAwaited req key entry response

/-- No entry has the socket. -/
def NoEntry (s : HttpServer) (client : SocketId) : Prop :=
  ∀ key entry, s.pendingByRequestId.lookup key = some entry → entry.socket ≠ client

/-- The request of a connection has the only entry with its socket. -/
structure Entered (s : HttpServer) (client : SocketId) (req : HttpRequest) (key : String)
    (entry : PendingRequestEntry) : Prop where
  read : s.requestsRead client = [req]
  unwritten : s.responsesTo client = []
  opened : Open s client
  asks : req.Asks key
  entered : s.pendingByRequestId.lookup key = some entry
  socket : entry.socket = client
  only : ∀ k e, s.pendingByRequestId.lookup k = some e → e.socket = client → k = key
  tag_lt : entry.tag < s.session.nextTag

/-- The request of a connection is in a stage. -/
def HttpServer.At (s : HttpServer) (client : SocketId) : Stage → Prop
  | .unread => s.requestsRead client = [] ∧ s.responsesTo client = [] ∧ NoEntry s client
  | .handled req => s.requestsRead client = [req] ∧ s.responsesTo client = [] ∧
      NoEntry s client ∧ Open s client
  | .dispatched req key entry => Entered s client req key entry ∧
      s.session.watchers.lookup entry.tag = none
  | .awaited req key entry => Entered s client req key entry ∧
      ∃ w, s.session.watchers.lookup entry.tag = some w ∧ idToString w.idValue = key ∧
        w.idStr = key
  | .answered req response => s.requestsRead client = [req] ∧
      s.responsesTo client = [response] ∧ req.AnsweredBy response ∧ NoEntry s client

structure OrderInv (client : SocketId) (s : HttpServer) : Prop where
  stage : ∃ stage, s.At client stage
  watched : ∀ t w, s.session.watchers.lookup t = some w → t < s.session.nextTag

/-- Tags only grow, and an entry that is new has a new tag. What closes sockets is over again. -/
structure Since (client : SocketId) (s s' : HttpServer) : Prop where
  nextTag : s.session.nextTag ≤ s'.session.nextTag
  entries : ∀ k e, s'.pendingByRequestId.lookup k = some e → e.socket = client →
    s.pendingByRequestId.lookup k = some e ∨ s.session.nextTag ≤ e.tag
  closings : s'.closings = s.closings

theorem Since.refl (client : SocketId) (s : HttpServer) : Since client s s :=
  ⟨Nat.le_refl _, fun _ _ h _ => .inl h, rfl⟩

theorem Since.trans {client : SocketId} {s₁ s₂ s₃ : HttpServer} (h₁ : Since client s₁ s₂)
    (h₂ : Since client s₂ s₃) : Since client s₁ s₃ where
  nextTag := h₁.nextTag.trans h₂.nextTag
  entries k e hk he := by
    rcases h₂.entries k e hk he with hk | ht
    · exact h₁.entries k e hk he
    · exact .inr (h₁.nextTag.trans ht)
  closings := h₂.closings.trans h₁.closings

structure OrderRely (client : SocketId) (s s' : HttpServer) : Prop where
  since : Since client s s'
  stage : ∀ stage, s.At client stage → ∃ stage', s'.At client stage' ∧ stage.May stage'
  unread : s.closings ≠ 0 → s.requestsRead client = [] → s'.requestsRead client = []

def orderContract (client : SocketId) : Contract HttpSig where
  inv := OrderInv client
  rely := OrderRely client
  pre _ := OrderInv client
  post _ s _ s' := OrderInv client s' ∧ OrderRely client s s'

theorem orderContract_preorder (client : SocketId) : (orderContract client).Preorder where
  refl s := ⟨.refl client s, fun stage h => ⟨stage, h, .refl stage⟩, fun _ h => h⟩
  trans h₁ h₂ := by
    refine ⟨h₁.since.trans h₂.since, fun stage h => ?_, fun hclosing hnone => ?_⟩
    · obtain ⟨stage₁, hat₁, hmay₁⟩ := h₁.stage stage h
      obtain ⟨stage₂, hat₂, hmay₂⟩ := h₂.stage stage₁ hat₁
      exact ⟨stage₂, hat₂, hmay₁.trans hmay₂⟩
    · rw [← h₁.since.closings] at hclosing
      exact h₂.unread hclosing (h₁.unread (h₁.since.closings ▸ hclosing) hnone)

/-- An update that leaves the connection's request where it is. Before it is read, and once it
is answered, the connection may be closed. -/
structure Rests (client : SocketId) (s s' : HttpServer) : Prop where
  read : s'.requestsRead client = s.requestsRead client
  written : s'.responsesTo client = s.responsesTo client
  shrinks : ∀ k e, s'.pendingByRequestId.lookup k = some e → e.socket = client →
    s.pendingByRequestId.lookup k = some e
  nextTag : s.session.nextTag ≤ s'.session.nextTag
  watched : ∀ t w, s'.session.watchers.lookup t = some w →
    s.session.watchers.lookup t = some w ∨ t < s'.session.nextTag
  opened : s.Unanswered client → Open s client → Open s' client
  kept : s.Unanswered client → ∀ k e, s.pendingByRequestId.lookup k = some e →
    e.socket = client → s'.pendingByRequestId.lookup k = some e ∧
      s'.session.watchers.lookup e.tag = s.session.watchers.lookup e.tag

/-- Besides, nothing that closes sockets begins or ends. -/
structure Still (client : SocketId) (s s' : HttpServer) : Prop extends Rests client s s' where
  closings : s'.closings = s.closings

theorem Still.refl (client : SocketId) (s : HttpServer) : Still client s s where
  read := rfl
  written := rfl
  shrinks _ _ h _ := h
  nextTag := Nat.le_refl _
  watched _ _ h := .inl h
  opened _ h := h
  kept _ _ _ h _ := ⟨h, rfl⟩
  closings := rfl

section Stages

variable {client : SocketId} {s s' : HttpServer}

theorem Rests.unanswered (h : Rests client s s') : s'.Unanswered client ↔ s.Unanswered client := by
  unfold HttpServer.Unanswered
  rw [h.read, h.written]

theorem Still.trans {s₁ s₂ s₃ : HttpServer} (h₁ : Still client s₁ s₂) (h₂ : Still client s₂ s₃) :
    Still client s₁ s₃ where
  read := h₂.read.trans h₁.read
  written := h₂.written.trans h₁.written
  shrinks k e hk he := h₁.shrinks k e (h₂.shrinks k e hk he) he
  nextTag := h₁.nextTag.trans h₂.nextTag
  watched t w hw := by
    rcases h₂.watched t w hw with hw | hlt
    · exact (h₁.watched t w hw).imp_right fun hlt => lt_of_lt_of_le hlt h₂.nextTag
    · exact .inr hlt
  opened hwaits ho := h₂.opened (h₁.unanswered.mpr hwaits) (h₁.opened hwaits ho)
  kept hwaits k e hk he := by
    obtain ⟨hk₁, hw₁⟩ := h₁.kept hwaits k e hk he
    obtain ⟨hk₂, hw₂⟩ := h₂.kept (h₁.unanswered.mpr hwaits) k e hk₁ he
    exact ⟨hk₂, hw₂.trans hw₁⟩
  closings := h₂.closings.trans h₁.closings

theorem Rests.noEntry (h : Rests client s s') (hs : NoEntry s client) : NoEntry s' client :=
  fun k e hk he => hs k e (h.shrinks k e hk he) he

theorem Entered.unanswered {req : HttpRequest} {key : String} {entry : PendingRequestEntry}
    (h : Entered s client req key entry) : s.Unanswered client := by
  refine ⟨?_, h.unwritten⟩
  rw [h.read]
  exact List.cons_ne_nil _ _

theorem Rests.entered (h : Rests client s s') {req : HttpRequest} {key : String}
    {entry : PendingRequestEntry} (hs : Entered s client req key entry) :
    Entered s' client req key entry where
  read := h.read.trans hs.read
  unwritten := h.written.trans hs.unwritten
  opened := h.opened hs.unanswered hs.opened
  asks := hs.asks
  entered := (h.kept hs.unanswered key entry hs.entered hs.socket).1
  socket := hs.socket
  only k e hk he := hs.only k e (h.shrinks k e hk he) he
  tag_lt := lt_of_lt_of_le hs.tag_lt h.nextTag

theorem Rests.at (h : Rests client s s') {stage : Stage} (hs : s.At client stage) :
    s'.At client stage := by
  cases stage with
  | unread => exact ⟨h.read.trans hs.1, h.written.trans hs.2.1, h.noEntry hs.2.2⟩
  | handled req =>
      obtain ⟨hread, hnil, hno, hopen⟩ := hs
      have hwaits : s.Unanswered client := by
        refine ⟨?_, hnil⟩
        rw [hread]
        exact List.cons_ne_nil _ _
      exact ⟨h.read.trans hread, h.written.trans hnil, h.noEntry hno, h.opened hwaits hopen⟩
  | dispatched req key entry =>
      obtain ⟨he, hw⟩ := hs
      exact ⟨h.entered he, (h.kept he.unanswered key entry he.entered he.socket).2.trans hw⟩
  | awaited req key entry =>
      obtain ⟨he, w, hw, hkey⟩ := hs
      exact ⟨h.entered he, w, (h.kept he.unanswered key entry he.entered he.socket).2.trans hw,
        hkey⟩
  | answered req response =>
      obtain ⟨hread, hwritten, hanswers, hno⟩ := hs
      exact ⟨h.read.trans hread, h.written.trans hwritten, hanswers, h.noEntry hno⟩

theorem Rests.watchedLt (h : Rests client s s') (hs : OrderInv client s) :
    ∀ t w, s'.session.watchers.lookup t = some w → t < s'.session.nextTag := by
  intro t w hw
  rcases h.watched t w hw with hw | hlt
  · exact lt_of_lt_of_le (hs.watched t w hw) h.nextTag
  · exact hlt

theorem Rests.orderInv (h : Rests client s s') (hs : OrderInv client s) : OrderInv client s' := by
  obtain ⟨stage, hat⟩ := hs.stage
  exact ⟨⟨stage, h.at hat⟩, h.watchedLt hs⟩

theorem Still.since (h : Still client s s') : Since client s s' :=
  ⟨h.nextTag, fun k e hk he => .inl (h.shrinks k e hk he), h.closings⟩

theorem Still.moves (h : Still client s s') (hs : OrderInv client s) :
    OrderInv client s' ∧ OrderRely client s s' := by
  refine ⟨h.orderInv hs, h.since, fun stage hat => ⟨stage, h.at hat, .refl _⟩, fun _ hnone => ?_⟩
  exact h.read.trans hnone

/-- The entries with the socket have tags the session has given. -/
theorem OrderInv.tag_lt (hs : OrderInv client s) {k : String} {e : PendingRequestEntry}
    (hk : s.pendingByRequestId.lookup k = some e) (he : e.socket = client) :
    e.tag < s.session.nextTag := by
  obtain ⟨stage, hat⟩ := hs.stage
  have hentered : ∀ {req key entry}, Entered s client req key entry →
      e.tag < s.session.nextTag := by
    intro req key entry h
    obtain rfl := h.only k e hk he
    obtain rfl := Option.some.inj (h.entered.symm.trans hk)
    exact h.tag_lt
  cases stage with
  | unread => exact absurd he (hat.2.2 k e hk)
  | handled req => exact absurd he (hat.2.2.1 k e hk)
  | dispatched req key entry => exact hentered hat.1
  | awaited req key entry => exact hentered hat.1
  | answered req response => exact absurd he (hat.2.2.2 k e hk)

/-- An entry with the socket is that of the request, which is not answered. -/
theorem OrderInv.entered (hs : OrderInv client s) {k : String} {e : PendingRequestEntry}
    (hk : s.pendingByRequestId.lookup k = some e) (he : e.socket = client) :
    ∃ req, Entered s client req k e := by
  obtain ⟨stage, hat⟩ := hs.stage
  have hentered : ∀ {req key entry}, Entered s client req key entry →
      ∃ req, Entered s client req k e := by
    intro req key entry h
    obtain rfl := h.only k e hk he
    obtain rfl := Option.some.inj (h.entered.symm.trans hk)
    exact ⟨req, h⟩
  cases stage with
  | unread => exact absurd he (hat.2.2 k e hk)
  | handled req => exact absurd he (hat.2.2.1 k e hk)
  | dispatched req key entry => exact hentered hat.1
  | awaited req key entry => exact hentered hat.1
  | answered req response => exact absurd he (hat.2.2.2 k e hk)

/-- Something has been written only to a connection whose request is answered. -/
theorem OrderInv.answered (hs : OrderInv client s) (h : s.responsesTo client ≠ []) :
    ∃ req response, s.At client (.answered req response) := by
  obtain ⟨stage, hat⟩ := hs.stage
  cases stage with
  | unread => exact absurd hat.2.1 h
  | handled req => exact absurd hat.2.1 h
  | dispatched req key entry => exact absurd hat.1.unwritten h
  | awaited req key entry => exact absurd hat.1.unwritten h
  | answered req response => exact ⟨req, response, hat⟩

/-- What is answered stays so. -/
theorem OrderRely.answered (h : OrderRely client s s') {req : HttpRequest}
    {response : HttpResponse} (hs : s.At client (.answered req response)) :
    s'.At client (.answered req response) := by
  obtain ⟨stage', hat, hmay⟩ := h.stage _ hs
  cases hmay with
  | refl => exact hat

theorem OrderRely.handled (h : OrderRely client s s') {req : HttpRequest}
    (hs : s.At client (.handled req)) : s'.At client (.handled req) := by
  obtain ⟨stage', hat, hmay⟩ := h.stage _ hs
  cases hmay with
  | refl => exact hat

/-! ### Updates that leave the request where it is -/

/-- An update of what the stage does not depend on. -/
theorem Still.of_eq (hlog : s'.log = s.log)
    (hpending : s'.pendingByRequestId = s.pendingByRequestId) (hopen : s'.isOpen = s.isOpen)
    (hconnected : s'.connected = s.connected) (hdeleted : s'.deleted = s.deleted)
    (hwatchers : s'.session.watchers = s.session.watchers)
    (hnext : s'.session.nextTag = s.session.nextTag) (hclosings : s'.closings = s.closings) :
    Still client s s' where
  read := by rw [HttpServer.requestsRead, hlog]; rfl
  written := by rw [HttpServer.responsesTo, hlog]; rfl
  shrinks k e hk _ := by rwa [hpending] at hk
  nextTag := hnext.ge
  watched t w hw := .inl (by rwa [hwatchers] at hw)
  opened _ h :=
    ⟨hopen.trans h.isOpen, by rw [hconnected]; exact h.connected, by rw [hdeleted]; exact h.present⟩
  kept _ k e hk _ := by
    rw [hpending, hwatchers]
    exact ⟨hk, rfl⟩
  closings := hclosings

/-- An update of the session that leaves the tags alone. -/
theorem Still.session {session : Session} (h : s.session.books.SameTags session.books) :
    Still client s { s with session } :=
  .of_eq rfl rfl rfl rfl rfl h.watchers h.nextTag rfl

theorem still_wrote {c : SocketId} (hc : c ≠ client) (response : HttpResponse) :
    Still client s (s.observe (.wrote c response)) where
  read := HttpServer.requestsRead_wrote s c client response
  written := by rw [HttpServer.responsesTo_wrote, if_neg hc, List.append_nil]
  shrinks _ _ hk _ := hk
  nextTag := Nat.le_refl _
  watched _ _ hw := .inl hw
  opened _ h := ⟨h.isOpen, h.connected, h.present⟩
  kept _ _ _ hk _ := ⟨hk, rfl⟩
  closings := rfl

theorem still_read {c : SocketId} (hc : c ≠ client) (req : HttpRequest) :
    Still client s (s.observe (.read c req)) where
  read := by rw [HttpServer.requestsRead_read, if_neg hc, List.append_nil]
  written := HttpServer.responsesTo_read s c client req
  shrinks _ _ hk _ := hk
  nextTag := Nat.le_refl _
  watched _ _ hw := .inl hw
  opened _ h := ⟨h.isOpen, h.connected, h.present⟩
  kept _ _ _ hk _ := ⟨hk, rfl⟩
  closings := rfl

/-- An entry of another socket is dropped. -/
theorem still_dropEntry {k : String} {e : PendingRequestEntry}
    (hk : s.pendingByRequestId.lookup k = some e) (he : e.socket ≠ client) :
    Still client s (s.dropEntry k e) where
  read := rfl
  written := rfl
  shrinks k' e' hk' _ := (shrinks_dropEntry s k e).pending k' e' hk'
  nextTag := Nat.le_refl _
  watched _ _ hw := .inl hw
  opened _ h := ⟨h.isOpen, h.connected, h.present⟩
  kept := by
    intro _ k' e' hk' he'
    have hne : k' ≠ k := by
      rintro rfl
      obtain rfl := Option.some.inj (hk.symm.trans hk')
      exact he he'
    exact ⟨(AList.lookup_erase_ne hne).trans hk', rfl⟩
  closings := rfl

/-- An entry of another socket is made under a key that is free. -/
theorem still_register {c : SocketId} (hc : c ≠ client) {msg : JsonObject}
    (hfree : s.pendingByRequestId.lookup (idToString (msg.value "id")) = none) :
    Still client s (HttpServer.register c msg s) where
  read := HttpServer.requestsRead_registered _ c client _ msg
  written := HttpServer.responsesTo_registered _ c client _ msg
  shrinks k e hk he := by
    have hk : (s.pendingByRequestId.insert (idToString (msg.value "id"))
      ⟨c, s.nextTimer, s.session.nextTag⟩).lookup k = some e := hk
    by_cases h : k = idToString (msg.value "id")
    · subst h
      rw [AList.lookup_insert] at hk
      obtain rfl := Option.some.inj hk
      exact absurd he hc
    · rwa [AList.lookup_insert_ne h] at hk
  nextTag := Nat.le_refl _
  watched _ _ hw := .inl hw
  opened _ h := ⟨h.isOpen, h.connected, h.present⟩
  kept := by
    intro _ k e hk _
    have hne : k ≠ idToString (msg.value "id") := by
      rintro rfl
      exact absurd (hfree.symm.trans hk) nofun
    exact ⟨(AList.lookup_insert_ne hne).trans hk, rfl⟩
  closings := rfl

/-- The session receives a request. -/
theorem still_receive (client : SocketId) (idValue : JsonValue) (token : String) :
    Still client s { s with session := s.session.receive idValue token } where
  read := rfl
  written := rfl
  shrinks _ _ hk _ := hk
  nextTag := Nat.le_succ _
  watched _ _ hw := .inl hw
  opened _ h := ⟨h.isOpen, h.connected, h.present⟩
  kept _ _ _ hk _ := ⟨hk, rfl⟩
  closings := rfl

/-- A watcher is made for a request that has no entry with the socket. -/
theorem still_watch (client : SocketId) {t : RequestTag} (w : Watcher) (hlt : t < s.session.nextTag)
    (hno : ∀ k e, s.pendingByRequestId.lookup k = some e → e.socket = client → e.tag ≠ t) :
    Still client s
      { s with session := { s.session with watchers := s.session.watchers.insert t w } } where
  read := rfl
  written := rfl
  shrinks _ _ hk _ := hk
  nextTag := Nat.le_refl _
  watched := by
    intro t' w' hw
    have hw : (s.session.watchers.insert t w).lookup t' = some w' := hw
    by_cases h : t' = t
    · exact .inr (h ▸ hlt)
    · rw [AList.lookup_insert_ne h] at hw
      exact .inl hw
  opened _ h := ⟨h.isOpen, h.connected, h.present⟩
  kept _ k e hk he := ⟨hk, AList.lookup_insert_ne (hno k e hk he)⟩
  closings := rfl

/-- A watcher is dropped that is not that of the request. -/
theorem still_unwatch {t : RequestTag}
    (hno : ∀ k e, s.pendingByRequestId.lookup k = some e → e.socket = client → e.tag ≠ t) :
    Still client s { s with session := s.session.unwatch t } where
  read := rfl
  written := rfl
  shrinks _ _ hk _ := hk
  nextTag := Nat.le_refl _
  watched := by
    intro t' w' hw
    have hw : (s.session.watchers.erase t).lookup t' = some w' := hw
    by_cases h : t' = t
    · rw [h, AList.lookup_erase] at hw
      cases hw
    · rw [AList.lookup_erase_ne h] at hw
      exact .inl hw
  opened _ h := ⟨h.isOpen, h.connected, h.present⟩
  kept _ k e hk he := ⟨hk, AList.lookup_erase_ne (hno k e hk he)⟩
  closings := rfl

/-- Where no request of the connection waits, sockets may be closed and entries dropped. -/
theorem Rests.of_spared (hspared : ¬ s.Unanswered client) (hlog : s'.log = s.log)
    (hshrinks : ∀ k e, s'.pendingByRequestId.lookup k = some e →
      s.pendingByRequestId.lookup k = some e)
    (hsession : s'.session = s.session) : Rests client s s' where
  read := by rw [HttpServer.requestsRead, hlog]; rfl
  written := by rw [HttpServer.responsesTo, hlog]; rfl
  shrinks k e hk _ := hshrinks k e hk
  nextTag := by rw [hsession]
  watched t w hw := .inl (by rwa [hsession] at hw)
  opened hwaits _ := absurd hwaits hspared
  kept hwaits := absurd hwaits hspared

end Stages

/-! ### Code that leaves the request where it is -/

abbrev KeepsOrder (client : SocketId) {α : Type} (p : Proc HttpSig α) : Prop :=
  (orderContract client).Keeps (S := HttpSig) (unpipelined client).answer p

namespace KeepsOrder

variable {client : SocketId}

theorem composes : Composes (S := HttpSig) fun _ p => KeepsOrder client p :=
  Contract.Keeps.composes (orderContract_preorder client)

theorem query (e : HttpOut) : KeepsOrder client (Proc.query (S := HttpSig) e) :=
  Contract.Keeps.query (S := HttpSig) e

theorem still {f : HttpServer → HttpServer} (h : ∀ s, Still client s (f s)) :
    KeepsOrder client (Proc.modify (S := HttpSig) f) :=
  fun s hs => (h s).moves hs

theorem invoke (f : HttpFn) : KeepsOrder client (Proc.invoke (S := HttpSig) f) :=
  fun _ hs => ⟨hs, fun _ _ h => h⟩

theorem read {α : Type} {g : HttpServer → Proc HttpSig α}
    (h : ∀ s, OrderInv client s →
      (orderContract client).KeepsAt (S := HttpSig) (unpipelined client).answer (g s) s) :
    KeepsOrder client (Proc.read (S := HttpSig) >>= g) :=
  fun s hs => h s hs

theorem takeQueue (c : SocketId) :
    KeepsOrder client (Proc.modify (S := HttpSig) fun s => s.takeQueue c) :=
  still fun _ => .of_eq rfl rfl rfl rfl rfl rfl rfl rfl

/-! Writing to another socket. -/

theorem write {c : SocketId} (hc : c ≠ client) (response : HttpResponse) :
    KeepsOrder client (HttpServer.write c response) :=
  composes.bind (still fun _ => still_wrote hc response) fun _ => query _

theorem disconnectFromHost {c : SocketId} (hc : c ≠ client) :
    KeepsOrder client (HttpServer.disconnectFromHost c) := by
  refine composes.bind (still fun s => ?_) fun _ => query _
  exact
    { Still.refl client s with
      opened := fun _ h => ⟨h.isOpen, Finset.mem_erase.mpr ⟨hc.symm, h.connected⟩, h.present⟩ }

theorem respondWithStatus {c : SocketId} (hc : c ≠ client) (status : Nat) (reason : String) :
    KeepsOrder client (HttpServer.respondWithStatus c status reason) :=
  composes.bind (write hc _) fun _ => disconnectFromHost hc

theorem writeSseResponse {c : SocketId} (hc : c ≠ client)
    (body : List (JsonObject × Option RequestTag)) :
    KeepsOrder client (HttpServer.writeSseResponse c body) :=
  composes.bind (composes.reads _) fun _ => write hc _

theorem writeAckOrQueuedMessages {c : SocketId} (hc : c ≠ client) :
    KeepsOrder client (HttpServer.writeAckOrQueuedMessages c) := by
  refine composes.bind (composes.reads id) fun s => composes.ite _ ?_ ?_
  · exact composes.bind (write hc _) fun _ => disconnectFromHost hc
  · exact composes.bind (takeQueue c) fun _ => composes.bind (writeSseResponse hc _) fun _ =>
      disconnectFromHost hc

theorem writeAnswer {c : SocketId} (hc : c ≠ client) (message : JsonObject)
    (answers : Option RequestTag) : KeepsOrder client (HttpServer.writeAnswer c message answers) := by
  refine composes.bind (composes.reads id) fun s => composes.ite _ ?_ ?_
  · exact composes.bind (composes.bind (composes.reads _) fun _ => write hc _) fun _ =>
      disconnectFromHost hc
  · exact composes.bind (takeQueue c) fun _ => composes.bind (writeSseResponse hc _) fun _ =>
      disconnectFromHost hc

end KeepsOrder

/-! ### Code that closes sockets -/

/-- The request of the connection is answered, or something that closes sockets is under way,
so that it is not going to be read. -/
def Spared (client : SocketId) (s : HttpServer) : Prop :=
  s.responsesTo client ≠ [] ∨ s.requestsRead client = [] ∧ s.closings ≠ 0

theorem Spared.not_unanswered {client : SocketId} {s : HttpServer} (h : Spared client s) :
    ¬ s.Unanswered client := by
  intro hwaits
  rcases h with hdone | ⟨hnone, -⟩
  · exact hdone hwaits.2
  · exact hwaits.1 hnone

/-- While the connection is spared, the code leaves its request where it is. -/
def KeepsSpared (client : SocketId) {α : Type} (p : Proc HttpSig α) : Prop :=
  ∀ s, OrderInv client s → Spared client s →
    (orderContract client).KeepsAt (S := HttpSig) (unpipelined client).answer p s

theorem Rests.spared {client : SocketId} {s s' : HttpServer} (h : Rests client s s')
    (hwaits : ¬ s.Unanswered client) (hclosing : s'.closings ≠ 0) : Spared client s' := by
  by_cases hnone : s'.requestsRead client = []
  · exact .inr ⟨hnone, hclosing⟩
  · exact .inl fun hnil => hwaits (h.unanswered.mp ⟨hnone, hnil⟩)

theorem OrderRely.spared {client : SocketId} {s s' : HttpServer} (h : OrderRely client s s')
    (hs : OrderInv client s) (hspared : Spared client s) : Spared client s' := by
  rcases hspared with hdone | ⟨hnone, hclosing⟩
  · obtain ⟨req, response, hat⟩ := hs.answered hdone
    refine .inl ?_
    rw [(h.answered hat).2.1]
    exact List.cons_ne_nil _ _
  · exact .inr ⟨h.unread hclosing hnone, h.since.closings ▸ hclosing⟩

namespace KeepsSpared

variable {client : SocketId}

theorem of_keeps {α : Type} {p : Proc HttpSig α} (h : KeepsOrder client p) :
    KeepsSpared client p :=
  fun s hs _ => h s hs

theorem composes : Composes (S := HttpSig) fun _ p => KeepsSpared client p where
  pure a := of_keeps (KeepsOrder.composes.pure a)
  reads f := of_keeps (KeepsOrder.composes.reads f)
  bind hp hg s hs hspared := by
    refine Contract.KeepsAt.bind (orderContract_preorder client) (hp s hs hspared)
      fun a s' h => ?_
    have hrely : OrderRely client s s' := h.2
    exact hg a s' h.1 (hrely.spared hs hspared)

/-- Sockets are closed. -/
theorem modify {f : HttpServer → HttpServer} (hlog : ∀ s, (f s).log = s.log)
    (hpending : ∀ s, (f s).pendingByRequestId = s.pendingByRequestId)
    (hsession : ∀ s, (f s).session = s.session) (hclosings : ∀ s, (f s).closings = s.closings) :
    KeepsSpared client (Proc.modify (S := HttpSig) f) := by
  intro s hs hspared
  have hrests : Rests client s (f s) :=
    .of_spared hspared.not_unanswered (hlog s) (fun k e hk => by rwa [hpending] at hk) (hsession s)
  have hstill : Still client s (f s) := { hrests with closings := hclosings s }
  exact hstill.moves hs

theorem disconnectFromHost (c : SocketId) :
    KeepsSpared client (HttpServer.disconnectFromHost c) :=
  composes.bind (modify (fun _ => rfl) (fun _ => rfl) (fun _ => rfl) fun _ => rfl)
    fun _ => of_keeps (KeepsOrder.query _)

theorem disconnectEntries (entries : List (Sigma fun _ : String => PendingRequestEntry)) :
    KeepsSpared client (HttpServer.disconnectEntries entries) := by
  induction entries with
  | nil => exact composes.pure ()
  | cons e rest ih =>
      refine composes.bind
        (modify (fun _ => rfl) (fun _ => rfl) (fun _ => rfl) fun _ => rfl) fun _ => ?_
      refine composes.bind (composes.reads _) fun deleted => composes.ite _ ih ?_
      exact composes.bind (disconnectFromHost _) fun _ => ih

theorem abortSockets (clients : List SocketId) :
    KeepsSpared client (HttpServer.abortSockets clients) := by
  induction clients with
  | nil => exact composes.pure ()
  | cons c rest ih =>
      refine composes.bind
        (modify (fun _ => rfl) (fun _ => rfl) (fun _ => rfl) fun _ => rfl) fun _ => ?_
      exact composes.bind (of_keeps (KeepsOrder.query (.abort c))) fun _ => ih

end KeepsSpared

/-- The closing of sockets as a whole: it begins with `f` and is over with `g`, and no request of
the connection waits when it begins. -/
theorem orderRely_closing {client : SocketId} {s₁ s₂ : HttpServer} {f g : HttpServer → HttpServer}
    (hf : ∀ s, ¬ s.Unanswered client → Rests client s (f s))
    (hbegins : ∀ s, (f s).closings = s.closings + 1)
    (hg : ∀ s, ¬ s.Unanswered client → Rests client s (g s))
    (hends : ∀ s, (g s).closings = s.closings - 1)
    (hs : OrderInv client s₁) (hwaits : ¬ s₁.Unanswered client)
    (hs₂ : OrderInv client s₂) (hr : OrderRely client (f s₁) s₂) :
    OrderInv client (g s₂) ∧ OrderRely client s₁ (g s₂) := by
  have hfirst := hf s₁ hwaits
  have hclosing : (f s₁).closings ≠ 0 := by simp [hbegins]
  have hspared := hfirst.spared hwaits hclosing
  have hlast := hg s₂ (hr.spared (hfirst.orderInv hs) hspared).not_unanswered
  refine ⟨hlast.orderInv hs₂, ⟨?_, fun k e hk he => ?_, ?_⟩, fun stage hat => ?_,
    fun _ hnone => ?_⟩
  · exact hfirst.nextTag.trans (hr.since.nextTag.trans hlast.nextTag)
  · rcases hr.since.entries k e (hlast.shrinks k e hk he) he with hk | ht
    · exact .inl (hfirst.shrinks k e hk he)
    · exact .inr (hfirst.nextTag.trans ht)
  · rw [hends, hr.since.closings, hbegins, Nat.add_sub_cancel]
  · obtain ⟨stage', hat', hmay⟩ := hr.stage stage (hfirst.at hat)
    exact ⟨stage', hlast.at hat', hmay⟩
  · exact hlast.read.trans (hr.unread hclosing (hfirst.read.trans hnone))

namespace KeepsOrder

variable {client : SocketId}

/-- A call that closes sockets, where no request of the connection waits. -/
theorem closing {α : Type} {f g : HttpServer → HttpServer} {p : Proc HttpSig Unit}
    {q : Proc HttpSig α} (hf : ∀ s, ¬ s.Unanswered client → Rests client s (f s))
    (hbegins : ∀ s, (f s).closings = s.closings + 1) (hp : KeepsSpared client p)
    (hg : ∀ s, ¬ s.Unanswered client → Rests client s (g s))
    (hends : ∀ s, (g s).closings = s.closings - 1) (hq : KeepsOrder client q) {s : HttpServer}
    (hs : OrderInv client s) (hwaits : ¬ s.Unanswered client) :
    (orderContract client).KeepsAt (S := HttpSig) (unpipelined client).answer (do
      Proc.modify (S := HttpSig) f
      p
      Proc.modify (S := HttpSig) g
      q) s := by
  have hfirst := hf s hwaits
  have hspared : Spared client (f s) := hfirst.spared hwaits (by simp [hbegins])
  refine (wp_bind (S := HttpSig) _ _ _ _).mpr ?_
  refine (wp_modify (S := HttpSig) _ _ _).mpr ?_
  refine (wp_bind (S := HttpSig) _ _ _ _).mpr ?_
  refine wp_mono (hp (f s) (hfirst.orderInv hs) hspared) fun _ s₂ h₂ => ?_
  refine (wp_bind (S := HttpSig) _ _ _ _).mpr ?_
  refine (wp_modify (S := HttpSig) _ _ _).mpr ?_
  have hmove := orderRely_closing hf hbegins hg hends hs hwaits h₂.1 h₂.2
  exact Contract.KeepsAt.after (orderContract_preorder client) hmove (hq _ hmove.1)

theorem endSession {s : HttpServer} (hs : OrderInv client s) (hwaits : ¬ s.Unanswered client) :
    (orderContract client).KeepsAt (S := HttpSig) (unpipelined client).answer
      HttpServer.endSession s := by
  let f (s : HttpServer) : HttpServer := { s with closings := s.closings + 1 }
  let g (s : HttpServer) : HttpServer :=
    { s.discardQueue with
      pendingByRequestId := ∅
      endedSessions := insert s.sessionId s.endedSessions
      closings := s.closings - 1 }
  have hf : ∀ s, ¬ s.Unanswered client → Rests client s (f s) := fun s hwaits =>
    .of_spared hwaits rfl (fun _ _ h => h) rfl
  have hg : ∀ s, ¬ s.Unanswered client → Rests client s (g s) := fun s hwaits =>
    .of_spared hwaits rfl (fun k e hk => absurd hk (by simp [g])) rfl
  have hloop : KeepsSpared client (Proc.reads (S := HttpSig) (·.pendingByRequestId) >>=
      fun pending => HttpServer.disconnectEntries pending.entries) :=
    KeepsSpared.composes.bind (KeepsSpared.composes.reads _) fun _ => .disconnectEntries _
  have hid : KeepsOrder client (Proc.query (S := HttpSig) .createUuid >>= fun sessionId =>
      Proc.modify (S := HttpSig) fun s => { s with sessionId }) :=
    composes.bind (query _) fun _ => still fun _ => .of_eq rfl rfl rfl rfl rfl rfl rfl rfl
  exact closing hf (fun _ => rfl) hloop hg (fun _ => rfl) hid hs hwaits

end KeepsOrder

/-! ### Answers -/

/-- What `send` does: it refuses the message, finds no entry for an answer, finds the entry, or
puts the message in the queue. -/
theorem wp_send {ans : HttpServer → (e : HttpOut) → e.Ans → Prop} {C : Contract HttpSig}
    {s : HttpServer} {tag : Option RequestTag} {message : JsonObject}
    {Q : Unit → HttpServer → Prop}
    (hclosed : s.isOpen = false →
      wp ans C (Proc.query (S := HttpSig) (.errorOccurred "Transport not open")) Q s)
    (hfree : HttpServer.isAnswer message = true →
      s.pendingByRequestId.lookup (idToString (message.value "id")) = none → Q () s)
    (hentry : ∀ entry, HttpServer.isAnswer message = true →
      s.pendingByRequestId.lookup (idToString (message.value "id")) = some entry →
      wp ans C (if entry.socket ∉ s.deleted ∧ entry.socket ∈ s.connected then
        HttpServer.writeAnswer entry.socket message tag else pure ()) Q
        (s.dropEntry (idToString (message.value "id")) entry))
    (hcall : HttpServer.isAnswer message = false → Q () (s.enqueue message)) :
    wp ans C (HttpServer.send tag message) Q s := by
  refine (wp_ite _ _ _ _ _).mpr ⟨fun hc => hclosed (by simpa using hc), fun _ => ?_⟩
  refine (wp_ite _ _ _ _ _).mpr ⟨fun hanswer => ?_, fun hno => hcall (by simpa using hno)⟩
  dsimp only
  cases hk : s.pendingByRequestId.lookup (idToString (message.value "id")) with
  | none => exact hfree hanswer hk
  | some entry => exact hentry entry hanswer hk

section Answers

variable {client : SocketId} {s : HttpServer} {req : HttpRequest}

/-- The visit has answered the request. -/
structure Ended (client : SocketId) (req : HttpRequest) (s s' : HttpServer) : Prop where
  inv : OrderInv client s'
  since : Since client s s'
  answered : ∃ response, s'.At client (.answered req response)

theorem Ended.after {s₀ s' : HttpServer} (hsince : Since client s₀ s)
    (h : Ended client req s s') : Ended client req s₀ s' :=
  ⟨h.inv, hsince.trans h.since, h.answered⟩

/-- Code that runs behind the answer. -/
theorem Ended.wp {α : Type} {p : Proc HttpSig α} (hp : KeepsSpared client p) {s₁ : HttpServer}
    (h : Ended client req s s₁) :
    wp (unpipelined client).answer (orderContract client) p
      (fun _ s' => Ended client req s s') s₁ := by
  obtain ⟨response, hat⟩ := h.answered
  have hdone : s₁.responsesTo client ≠ [] := by
    rw [hat.2.1]
    exact List.cons_ne_nil _ _
  refine wp_mono (hp s₁ h.inv (.inl hdone)) fun _ s' hs' => ?_
  have hrely : OrderRely client s₁ s' := hs'.2
  exact ⟨hs'.1, h.since.trans hrely.since, response, hrely.answered hat⟩

/-- The response is written to the connection. -/
theorem wrote_ended (hs : OrderInv client s) (hat : s.At client (.handled req))
    {response : HttpResponse} (hanswers : req.AnsweredBy response) :
    Ended client req s (s.observe (.wrote client response)) := by
  obtain ⟨hread, hnil, hno, hopen⟩ := hat
  have hat' : (s.observe (.wrote client response)).At client (.answered req response) := by
    refine ⟨?_, ?_, hanswers, hno⟩
    · rw [HttpServer.requestsRead_wrote, hread]
    · rw [HttpServer.responsesTo_wrote, hnil, if_pos rfl, List.nil_append]
  exact ⟨⟨⟨_, hat'⟩, hs.watched⟩, ⟨Nat.le_refl _, fun _ _ hk _ => .inl hk, rfl⟩, response, hat'⟩

/-- The response is written, and the connection closed. -/
theorem wp_order_respond (hs : OrderInv client s) (hat : s.At client (.handled req))
    {response : HttpResponse} (hanswers : req.AnsweredBy response) :
    wp (unpipelined client).answer (orderContract client)
      (do HttpServer.write client response
          HttpServer.disconnectFromHost client) (fun _ s' => Ended client req s s') s := by
  have hended := wrote_ended hs hat hanswers
  have hrest : KeepsSpared client (do
      Proc.query (S := HttpSig) (.flush client)
      HttpServer.disconnectFromHost client) :=
    KeepsSpared.composes.bind (.of_keeps (KeepsOrder.query _)) fun _ =>
      .disconnectFromHost client
  exact hended.wp hrest

theorem wp_order_respondWithStatus (hs : OrderInv client s) (hat : s.At client (.handled req))
    {status : Nat} (hstatus : 400 ≤ status) (reason : String) :
    wp (unpipelined client).answer (orderContract client)
      (HttpServer.respondWithStatus client status reason) (fun _ s' => Ended client req s s') s :=
  wp_order_respond hs hat (.inl ⟨hstatus, rfl⟩)

/-- The queue is emptied in front of what the request waits for. -/
theorem wp_order_flush (hs : OrderInv client s) (hat : s.At client (.handled req))
    {body : List (JsonObject × Option RequestTag)}
    (hanswers : ∀ headers, req.AnsweredBy { status := 200, reason := "OK", headers, body }) :
    wp (unpipelined client).answer (orderContract client) (do
      Proc.modify (S := HttpSig) fun s => s.takeQueue client
      HttpServer.writeSseResponse client body
      HttpServer.disconnectFromHost client) (fun _ s' => Ended client req s s') s := by
  have hstill : Still client s (s.takeQueue client) := .of_eq rfl rfl rfl rfl rfl rfl rfl rfl
  have hwrite := wp_order_respond (hstill.moves hs).1 (hstill.at hat)
    (hanswers ((s.takeQueue client).standardResponseHeaders
      [("Content-Type", "text/event-stream")]))
  exact wp_mono hwrite fun _ s' h => h.after hstill.since

/-- A message that is no request is acknowledged. -/
theorem wp_order_writeAck (hs : OrderInv client s)
    (hat : s.At client (.handled req)) {msg : JsonObject}
    (hmsg : HttpServer.postedMessage req = some msg) (hkind : classify msg ≠ .request) :
    wp (unpipelined client).answer (orderContract client)
      (HttpServer.writeAckOrQueuedMessages client) (fun _ s' => Ended client req s s') s := by
  show wp _ (orderContract client) (if s.queuedServerMessages.isEmpty = true then _ else _) _ s
  by_cases hempty : s.queuedServerMessages.isEmpty = true
  · rw [if_pos hempty]
    refine wp_order_respond hs hat (.inr ⟨msg, hmsg, ?_⟩)
    rw [if_neg hkind]
    exact fun _ hb => absurd hb List.not_mem_nil
  · rw [if_neg hempty]
    refine wp_order_flush hs hat fun headers => .inr ⟨msg, hmsg, ?_⟩
    rw [if_neg hkind]
    intro b hb
    obtain ⟨message, -, rfl⟩ := List.mem_map.mp hb
    rfl

/-- An answer with the key of the request. -/
theorem wp_order_writeAnswer (hs : OrderInv client s) (hat : s.At client (.handled req))
    {key : String} (hasks : req.Asks key) {message : JsonObject}
    (hanswer : HttpServer.isAnswer message = true) (hkey : idToString (message.value "id") = key)
    (tag : Option RequestTag) :
    wp (unpipelined client).answer (orderContract client)
      (HttpServer.writeAnswer client message tag) (fun _ s' => Ended client req s s') s := by
  obtain ⟨-, msg, hmsg, hkind, hid⟩ := hasks
  have hanswers : ∀ (response : HttpResponse),
      response.body.getLast? = some (message, tag) → req.AnsweredBy response := by
    intro response hlast
    refine .inr ⟨msg, hmsg, ?_⟩
    rw [if_pos hkind]
    exact ⟨message, tag, hlast, hanswer, hkey.trans hid.symm⟩
  show wp _ (orderContract client) (if s.queuedServerMessages.isEmpty = true then _ else _) _ s
  by_cases hempty : s.queuedServerMessages.isEmpty = true
  · rw [if_pos hempty]
    exact wp_order_respond hs hat (hanswers _ rfl)
  · rw [if_neg hempty]
    exact wp_order_flush hs hat fun headers => hanswers _ List.getLast?_concat

/-- The entry of the request is dropped: what is left is to write its response. -/
theorem Entered.dropped {key : String} {entry : PendingRequestEntry}
    (h : Entered s client req key entry) :
    (s.dropEntry key entry).At client (.handled req) := by
  refine ⟨h.read, h.unwritten, fun k e hk he => ?_,
    ⟨h.opened.isOpen, h.opened.connected, h.opened.present⟩⟩
  have hk' := (shrinks_dropEntry s key entry).pending k e hk
  obtain rfl := h.only k e hk' he
  have hnone : (s.pendingByRequestId.erase k).lookup k = none := AList.lookup_erase _ _
  exact absurd (hnone.symm.trans hk) nofun

/-- The entry of the request is found for an answer: the response is written. -/
theorem wp_order_answerEntry (hs : OrderInv client s) {key : String} {entry : PendingRequestEntry}
    (h : Entered s client req key entry) {message : JsonObject}
    (hanswer : HttpServer.isAnswer message = true) (hkey : idToString (message.value "id") = key)
    (tag : Option RequestTag) :
    wp (unpipelined client).answer (orderContract client)
      (if entry.socket ∉ s.deleted ∧ entry.socket ∈ s.connected then
        HttpServer.writeAnswer entry.socket message tag else pure ())
      (fun _ s' => Ended client req s s') (s.dropEntry key entry) := by
  have hdropped := h.dropped
  have hinv : OrderInv client (s.dropEntry key entry) := ⟨⟨_, hdropped⟩, hs.watched⟩
  have hsince : Since client s (s.dropEntry key entry) :=
    ⟨Nat.le_refl _, fun k e hk _ => .inl ((shrinks_dropEntry s key entry).pending k e hk), rfl⟩
  rw [h.socket, if_pos ⟨h.opened.present, h.opened.connected⟩]
  exact wp_mono (wp_order_writeAnswer hinv hdropped h.asks hanswer hkey tag) fun _ s' he =>
    he.after hsince

/-- `send` with an answer under the key of the request writes the response to it. -/
theorem wp_order_send_entered (hs : OrderInv client s) {key : String}
    {entry : PendingRequestEntry} (h : Entered s client req key entry) {message : JsonObject}
    (hanswer : HttpServer.isAnswer message = true) (hkey : idToString (message.value "id") = key)
    (tag : Option RequestTag) :
    wp (unpipelined client).answer (orderContract client) (HttpServer.send tag message)
      (fun _ s' => Ended client req s s') s := by
  refine wp_send (fun hclosed => absurd (h.opened.isOpen.symm.trans hclosed) nofun)
    (fun _ hk => ?_) (fun entry' _ hk => ?_)
    fun hno => absurd (hanswer.symm.trans hno) nofun
  · rw [hkey, h.entered] at hk
    cases hk
  · rw [hkey, h.entered] at hk
    obtain rfl := Option.some.inj hk
    rw [hkey]
    exact wp_order_answerEntry hs h hanswer hkey tag

/-- The visit that ends in the answer was one of a request in its stage. -/
theorem Ended.moves {s' : HttpServer} {key : String} {entry : PendingRequestEntry}
    (hentered : Entered s client req key entry) (h : Ended client req s s') :
    OrderInv client s' ∧ OrderRely client s s' := by
  obtain ⟨response, hat⟩ := h.answered
  refine ⟨h.inv, h.since, fun stage hs => ⟨.answered req response, hat, ?_⟩,
    fun _ hnone => absurd hnone hentered.unanswered.1⟩
  cases stage with
  | unread => exact absurd (hs.1.symm.trans hentered.read) nofun
  | handled r => exact absurd hentered.socket (hs.2.2.1 _ _ hentered.entered)
  | dispatched r k e =>
      obtain rfl : r = req := by simpa using hs.1.read.symm.trans hentered.read
      exact .answerDispatched r k e response
  | awaited r k e =>
      obtain rfl : r = req := by simpa using hs.1.read.symm.trans hentered.read
      exact .answerAwaited r k e response
  | answered r response' => exact absurd (hs.2.1.symm.trans hentered.unwritten) nofun

end Answers

namespace KeepsOrder

variable {client : SocketId}

theorem enqueue (message : JsonObject) :
    KeepsOrder client (Proc.modify (S := HttpSig) fun s => s.enqueue message) := by
  refine still fun s => ?_
  unfold HttpServer.enqueue HttpServer.enforceQueueBudget
  dsimp only
  split
  · exact .of_eq rfl rfl rfl rfl rfl rfl rfl rfl
  · exact .of_eq rfl rfl rfl rfl rfl rfl rfl rfl

theorem send (tag : Option RequestTag) (message : JsonObject) :
    KeepsOrder client (HttpServer.send tag message) := by
  intro s hs
  refine wp_send (fun _ => query _ s hs) (fun _ _ => composes.pure () s hs)
    (fun entry hanswer hk => ?_) fun _ => enqueue message s hs
  by_cases hsocket : entry.socket = client
  · -- the answer is that of the connection's request
    obtain ⟨req, hentered⟩ := hs.entered hk hsocket
    exact wp_mono (wp_order_answerEntry hs hentered hanswer rfl tag) fun _ _ he =>
      he.moves hentered
  · have hdrop := (still_dropEntry hk hsocket).moves hs
    refine Contract.KeepsAt.after (orderContract_preorder client) hdrop ?_
    exact composes.ite _ (writeAnswer hsocket message tag) (composes.pure ()) _ hdrop.1

theorem quiet : SessionHost.Quiet HttpServer.host (unpipelined client).answer
    (orderContract client) where
  toPreorder := orderContract_preorder client
  send message _ := send none message
  abandon _ := composes.pure ()
  emit signal := query (.emit signal)
  notify method params := query (.notify method params)
  progress token progress total message := query (.progress token progress total message)
  update _ hbooks _ := still fun s => Still.session (.of_eq (hbooks s.session))

/-- An update of the session that leaves the tags alone. -/
theorem session {f : Session → Session} (h : ∀ s : Session, s.books.SameTags (f s).books) :
    KeepsOrder client (HttpServer.host.modify f) :=
  still fun s => Still.session (h s.session)

theorem runNotifyHandler (method : String) (params : JsonObject)
    (handler : Option NotifyHandler) :
    KeepsOrder client (HttpServer.host.runNotifyHandler method params handler) := by
  by_cases h : handler = some .cancelled
  · subst h
    exact session (applyCancelled_sameTags params)
  · exact quiet.runNotifyHandler method params h

theorem dispatchNotification (message : JsonObject) :
    KeepsOrder client (HttpServer.host.dispatchNotification message) := by
  refine composes.bind (session (notified_sameTags _ _)) fun _ => ?_
  refine composes.bind (composes.reads _) fun handlers => ?_
  exact composes.bind (runNotifyHandler _ _ _) fun _ => query _

theorem sendError (tag : Option RequestTag) (id : JsonValue) (answer : ErrorAnswer) :
    KeepsOrder client (HttpServer.host.sendError tag id answer) :=
  composes.bind (composes.reads _) fun _ => composes.ite _ (send tag _) (composes.pure ())

/-- A message that is no request. -/
theorem onMessageReceived {message : JsonObject} (h : classify message ≠ .request) :
    KeepsOrder client (HttpServer.host.onMessageReceived message) := by
  refine composes.ite _ (query _) ?_
  cases hk : classify message with
  | request => exact absurd hk h
  | notification => exact dispatchNotification message
  | response => exact quiet.dispatchResponse message
  | invalid => exact composes.bind (sendError _ _ _) fun _ => query _

end KeepsOrder

/-! ### The handlers of requests -/

section Handlers

variable {client : SocketId} {s : HttpServer} {req : HttpRequest}

/-- The request that has been given tag `t` is not the one the connection waits for. -/
structure Elsewhere (client : SocketId) (t : RequestTag) (s : HttpServer) : Prop where
  lt : t < s.session.nextTag
  no : ∀ k e, s.pendingByRequestId.lookup k = some e → e.socket = client → e.tag ≠ t

theorem Elsewhere.since {t : RequestTag} {s' : HttpServer} (h : Elsewhere client t s)
    (hsince : Since client s s') : Elsewhere client t s' where
  lt := lt_of_lt_of_le h.lt hsince.nextTag
  no k e hk he := by
    rcases hsince.entries k e hk he with hk | hle
    · exact h.no k e hk he
    · exact (lt_of_lt_of_le h.lt hle).ne'

/-- A request is dispatched: through its call-outs `K` is kept, and both ways to end give `Q`. -/
theorem wp_order_dispatchRequest {message : JsonObject} {K : HttpServer → Prop}
    {Q : Unit → HttpServer → Prop}
    (hreceived : ∀ token, OrderInv client
        { s with session := s.session.receive (message.value "id") token } ∧
      K { s with session := s.session.receive (message.value "id") token })
    (hkeep : ∀ s₁ s₂, K s₁ → OrderRely client s₁ s₂ → K s₂)
    (hwatch : ∀ s₁, OrderInv client s₁ → K s₁ → Q () { s₁ with session := { s₁.session with
      watchers := s₁.session.watchers.insert s.session.nextTag
        ⟨message.value "id", idToString (message.value "id")⟩ } })
    (hsend : ∀ s₁ answer, OrderInv client s₁ → K s₁ →
      wp (unpipelined client).answer (orderContract client)
        (HttpServer.host.sendError (some s.session.nextTag) (message.value "id") answer) Q s₁) :
    wp (unpipelined client).answer (orderContract client)
      (HttpServer.host.dispatchRequest message) Q s := by
  have hquiet : ∀ (f : Session → Session) s₁, (∀ s : Session, (f s).watchers = s.watchers) →
      (∀ s : Session, (f s).nextTag = s.nextTag) → OrderInv client s₁ → K s₁ →
      OrderInv client (HttpServer.host.withSession s₁ (f s₁.session)) ∧
        K (HttpServer.host.withSession s₁ (f s₁.session)) := by
    intro f s₁ hw hn hs₁ hK₁
    have hstill : Still client s₁ (HttpServer.host.withSession s₁ (f s₁.session)) :=
      .of_eq rfl rfl rfl rfl rfl (hw _) (hn _) rfl
    exact ⟨(hstill.moves hs₁).1, hkeep _ _ hK₁ (hstill.moves hs₁).2⟩
  have hfail : ∀ s₁ how answer, OrderInv client s₁ → K s₁ →
      wp (unpipelined client).answer (orderContract client) (do
        HttpServer.host.modify fun s => s.clearProgressToken
        HttpServer.host.leaveFlight s.session.nextTag (idToString (message.value "id")) how
        HttpServer.host.sendError (some s.session.nextTag) (message.value "id") answer) Q s₁ := by
    intro s₁ how answer hs₁ hK₁
    obtain ⟨hs₂, hK₂⟩ := hquiet (fun s => s.clearProgressToken) s₁ (fun _ => rfl) (fun _ => rfl)
      hs₁ hK₁
    obtain ⟨hs₃, hK₃⟩ := hquiet (fun s₁ => s₁.leaveFlight s.session.nextTag
      (idToString (message.value "id")) how) _ (fun _ => rfl) (fun _ => rfl) hs₂ hK₂
    exact hsend _ answer hs₃ hK₃
  refine ⟨(hreceived _).1, fun s₁ hr₁ hs₁ _ _ => ?_⟩
  have hK₁ := hkeep _ s₁ (hreceived _).2 hr₁
  refine (wp_ite _ _ _ _ _).mpr ⟨fun _ => ?_, fun _ => hfail s₁ _ _ hs₁ hK₁⟩
  refine ⟨hs₁, fun s₂ hr₂ hs₂ answer _ => ?_⟩
  have hK₂ := hkeep s₁ s₂ hK₁ hr₂
  cases answer with
  | error e => exact hfail s₂ _ _ hs₂ hK₂
  | ok u =>
      obtain ⟨hs₃, hK₃⟩ := hquiet (fun s => s.clearProgressToken) s₂ (fun _ => rfl) (fun _ => rfl)
        hs₂ hK₂
      exact hwatch _ hs₃ hK₃

/-- A request that has no entry with the socket is dispatched. -/
theorem wp_order_dispatch_elsewhere (hs : OrderInv client s) (message : JsonObject) :
    wp (unpipelined client).answer (orderContract client)
      (HttpServer.host.dispatchRequest message)
      (fun _ s' => OrderInv client s' ∧ OrderRely client s s') s := by
  have hC := orderContract_preorder client
  refine wp_order_dispatchRequest
    (K := fun s' => Elsewhere client s.session.nextTag s' ∧ OrderRely client s s')
    (fun token => ?_) (fun s₁ s₂ hK hr => ⟨hK.1.since hr.since, hC.trans hK.2 hr⟩)
    (fun s₁ hs₁ hK => ?_) fun s₁ answer hs₁ hK => ?_
  · have hmove := (still_receive client (message.value "id") token).moves hs
    exact ⟨hmove.1, ⟨Nat.lt_succ_self _, fun k e hk he => (hs.tag_lt hk he).ne⟩, hmove.2⟩
  · have hmove := (still_watch client ⟨message.value "id", idToString (message.value "id")⟩
      hK.1.lt hK.1.no).moves hs₁
    exact ⟨hmove.1, hC.trans hK.2 hmove.2⟩
  · exact (KeepsOrder.sendError _ _ answer).wp hs₁ fun _ s₂ hs₂ hr => ⟨hs₂, hC.trans hK.2 hr⟩

theorem isAnswer_errorMessage {id : JsonValue} (h : idToString id ≠ "") (answer : ErrorAnswer) :
    HttpServer.isAnswer (errorMessage id answer) = true := by
  obtain ⟨hundef, hnull⟩ := id_of_key h
  have hm := errorMessage_id hundef answer
  have herror : (errorMessage id answer).contains "error" = true := by
    unfold errorMessage
    exact (JsonObject.contains_ofFields "error" (by simp [hundef])).trans (by simp)
  unfold HttpServer.isAnswer
  rw [hm.1, hm.2, hnull, herror]
  simp

theorem isAnswer_resultMessage {id result : JsonValue} (h : idToString id ≠ "")
    (hresult : result ≠ .undefined) : HttpServer.isAnswer (resultMessage id result) = true := by
  obtain ⟨hundef, hnull⟩ := id_of_key h
  have hm : (resultMessage id result).value "id" = id ∧
      (resultMessage id result).contains "id" = true := ofFields_id hundef (by decide)
  have hdefined : result.isUndefined = false := by
    cases result with
    | undefined => exact absurd rfl hresult
    | _ => rfl
  have hcontains : (resultMessage id result).contains "result" = true := by
    unfold resultMessage
    exact (JsonObject.contains_ofFields "result"
      (by simp [hundef, hdefined])).trans (by simp)
  unfold HttpServer.isAnswer
  rw [hm.1, hm.2, hnull, hcontains]
  simp

/-- The answer of the session under the key of the request. -/
theorem wp_order_answer_entered (hs : OrderInv client s) {key : String}
    {entry : PendingRequestEntry} (h : Entered s client req key entry) {message : JsonObject}
    (hanswer : HttpServer.isAnswer message = true) (hkey : idToString (message.value "id") = key)
    (tag : Option RequestTag) :
    wp (unpipelined client).answer (orderContract client)
      (do if ← Proc.reads (S := HttpSig) HttpServer.host.isOpen then
            HttpServer.host.send tag message) (fun _ s' => Ended client req s s') s := by
  show wp _ (orderContract client) (if s.isOpen = true then HttpServer.send tag message
    else pure ()) _ s
  rw [if_pos h.opened.isOpen]
  exact wp_order_send_entered hs h hanswer hkey tag

/-- The request of the connection has been answered, or its handler has returned a future. -/
def Settled (client : SocketId) (req : HttpRequest) (s : HttpServer) : Prop :=
  (∃ key entry, s.At client (.awaited req key entry)) ∨
    ∃ response, s.At client (.answered req response)

/-- The visit has done with the request what can be done at once. -/
structure Done (client : SocketId) (req : HttpRequest) (s s' : HttpServer) : Prop where
  inv : OrderInv client s'
  since : Since client s s'
  settled : Settled client req s'

theorem Ended.done {s' : HttpServer} (h : Ended client req s s') : Done client req s s' :=
  ⟨h.inv, h.since, .inr h.answered⟩

theorem lookup_insert_ite {β : Type} (entries : AList fun _ : String => β) (key : String) (b : β)
    (k : String) :
    (entries.insert key b).lookup k = if k = key then some b else entries.lookup k := by
  by_cases h : k = key
  · rw [h, AList.lookup_insert, if_pos rfl]
  · rw [AList.lookup_insert_ne h, if_neg h]

/-- Where the session has received a request of the connection, its entry has been made. -/
theorem entered_received (hat : s.At client (.handled req)) {msg : JsonObject}
    (hmsg : HttpServer.postedMessage req = some msg) (hkind : classify msg = .request)
    (hkey : idToString (msg.value "id") ≠ "") (token : String) :
    Entered { HttpServer.register client msg s with
        session := s.session.receive (msg.value "id") token } client req
      (idToString (msg.value "id")) ⟨client, s.nextTimer, s.session.nextTag⟩ := by
  obtain ⟨hread, hnil, hno, hopen⟩ := hat
  exact
    { read := (HttpServer.requestsRead_registered _ client client _ msg).trans hread
      unwritten := (HttpServer.responsesTo_registered _ client client _ msg).trans hnil
      opened := ⟨hopen.isOpen, hopen.connected, hopen.present⟩
      asks := ⟨hkey, msg, hmsg, hkind, rfl⟩
      entered := (lookup_insert_ite _ _ _ _).trans (if_pos rfl)
      socket := rfl
      only := by
        intro k e hk he
        by_contra h
        exact hno k e (((lookup_insert_ite _ _ _ k).trans (if_neg h)).symm.trans hk) he
      tag_lt := Nat.lt_succ_self _ }

/-- Where the handler has returned a future, the request waits for it. -/
theorem Entered.awaited {key : String} {entry : PendingRequestEntry}
    (h : Entered s client req key entry) {idValue : JsonValue} (hid : idToString idValue = key) :
    HttpServer.At { s with session := { s.session with
        watchers := s.session.watchers.insert entry.tag ⟨idValue, key⟩ } }
      client (.awaited req key entry) :=
  ⟨{ h with opened := ⟨h.opened.isOpen, h.opened.connected, h.opened.present⟩ },
    _, AList.lookup_insert _, hid, rfl⟩

/-- The request of the connection is entered, and dispatched. -/
theorem wp_order_dispatch_own (hs : OrderInv client s) (hat : s.At client (.handled req))
    {msg : JsonObject} (hmsg : HttpServer.postedMessage req = some msg)
    (hkind : classify msg = .request) (hkey : idToString (msg.value "id") ≠ "") :
    wp (unpipelined client).answer (orderContract client)
      (HttpServer.host.dispatchRequest msg) (fun _ s' => Done client req s s')
      (HttpServer.register client msg s) := by
  let key := idToString (msg.value "id")
  let entry : PendingRequestEntry := ⟨client, s.nextTimer, s.session.nextTag⟩
  let K : HttpServer → Prop := fun s' => s.session.nextTag < s'.session.nextTag ∧
    Since client s s' ∧ (s'.At client (.dispatched req key entry) ∨
      ∃ response, s'.At client (.answered req response))
  refine wp_order_dispatchRequest (s := HttpServer.register client msg s) (K := K)
    (fun token => ?_) (fun s₁ s₂ hK hr => ?_) (fun s₁ hs₁ hK => ?_) fun s₁ answer hs₁ hK => ?_
  · have hentered := entered_received hat hmsg hkind hkey token
    have hwatch : s.session.watchers.lookup s.session.nextTag = none := by
      cases hw : s.session.watchers.lookup s.session.nextTag with
      | none => rfl
      | some w => exact absurd (hs.watched _ w hw) (lt_irrefl _)
    refine ⟨⟨⟨.dispatched req key entry, hentered, hwatch⟩, fun t w hw => ?_⟩,
      Nat.lt_succ_self _, ⟨Nat.le_succ _, fun k e hk he => ?_, rfl⟩, .inl ⟨hentered, hwatch⟩⟩
    · exact (hs.watched t w hw).trans (Nat.lt_succ_self _)
    · have hlookup := lookup_insert_ite s.pendingByRequestId key entry k
      by_cases h : k = key
      · obtain rfl := Option.some.inj ((hlookup.trans (if_pos h)).symm.trans hk)
        exact .inr (Nat.le_refl _)
      · exact .inl ((hlookup.trans (if_neg h)).symm.trans hk)
  · refine ⟨lt_of_lt_of_le hK.1 hr.since.nextTag, hK.2.1.trans hr.since, ?_⟩
    rcases hK.2.2 with hat | ⟨response, hat⟩
    · obtain ⟨stage', hat', hmay⟩ := hr.stage _ hat
      cases hmay with
      | refl => exact .inl hat'
      | answerDispatched _ _ _ response => exact .inr ⟨response, hat'⟩
    · exact .inr ⟨response, hr.answered hat⟩
  · obtain ⟨hlt, hsince, hat⟩ := hK
    rcases hat with ⟨hentered, -⟩ | ⟨response, hat⟩
    · have hat' := hentered.awaited (show idToString (msg.value "id") = key from rfl)
      refine ⟨⟨⟨_, hat'⟩, fun t w hw => ?_⟩, ⟨hsince.nextTag, hsince.entries, hsince.closings⟩,
        .inl ⟨key, entry, hat'⟩⟩
      have hw : (s₁.session.watchers.insert s.session.nextTag
        ⟨msg.value "id", key⟩).lookup t = some w := hw
      by_cases h : t = s.session.nextTag
      · exact h ▸ hlt
      · rw [AList.lookup_insert_ne h] at hw
        exact hs₁.watched t w hw
    · have hstill := still_watch client ⟨msg.value "id", key⟩ hlt
        fun k e hk he => absurd he (hat.2.2.2 k e hk)
      exact ⟨(hstill.moves hs₁).1, hsince.trans hstill.since, .inr ⟨response, hstill.at hat⟩⟩
  · obtain ⟨hlt, hsince, hat⟩ := hK
    rcases hat with ⟨hentered, -⟩ | ⟨response, hat⟩
    · have hid := (errorMessage_id (id_of_key hkey).1 answer).1
      refine wp_mono (wp_order_answer_entered hs₁ hentered (isAnswer_errorMessage hkey answer)
        (congrArg idToString hid) _) fun _ s₂ he => (he.after hsince).done
    · exact (KeepsOrder.sendError _ _ answer).wp hs₁ fun _ s₂ hs₂ (hr : OrderRely client s₁ s₂) =>
        ⟨hs₂, hsince.trans hr.since, .inr ⟨response, hr.answered hat⟩⟩

/-- What the slot of a watcher does once the watcher is dropped. -/
def afterWatcher (t : RequestTag) (w : Watcher) (outcome : FutureEnd) :
    Proc HttpSig Unit := do
  let cancelled ← HttpServer.host.reads (·.cancelledIncomingIds)
  if !w.idStr.isEmpty && decide (w.idStr ∈ cancelled) then
    HttpServer.host.modify fun s =>
      { s with cancelledIncomingIds := s.cancelledIncomingIds.erase w.idStr }
    HttpServer.host.leaveFlight t w.idStr (.finished outcome)
  else
    HttpServer.host.leaveFlight t w.idStr (.finished outcome)
    match outcome with
    | .result v => HttpServer.host.sendResponse t w.idValue v
    | .exception e => HttpServer.host.sendError (some t) w.idValue (errorAnswerFor e)
    | .cancelled => pure ()

/-- The watcher of the connection's request. -/
theorem OrderInv.watcher (hs : OrderInv client s) {key : String} {entry : PendingRequestEntry}
    (h : Entered s client req key entry) {w : Watcher}
    (hw : s.session.watchers.lookup entry.tag = some w) :
    idToString w.idValue = key ∧ w.idStr = key := by
  obtain ⟨stage, hat⟩ := hs.stage
  cases stage with
  | unread => exact absurd h.socket (hat.2.2 _ _ h.entered)
  | handled r => exact absurd h.socket (hat.2.2.1 _ _ h.entered)
  | dispatched r k e =>
      obtain rfl := hat.1.only key entry h.entered h.socket
      obtain rfl := Option.some.inj (h.entered.symm.trans hat.1.entered)
      exact absurd (hw.symm.trans hat.2) nofun
  | awaited r k e =>
      obtain rfl := hat.1.only key entry h.entered h.socket
      obtain rfl := Option.some.inj (h.entered.symm.trans hat.1.entered)
      obtain ⟨-, w', hw', hkeys⟩ := hat
      obtain rfl := Option.some.inj (hw.symm.trans hw')
      exact hkeys
  | answered r response => exact absurd h.socket (hat.2.2.2 _ _ h.entered)

/-- The handler of the connection's request has finished: the request is answered. -/
theorem wp_order_finished_own (hs : OrderInv client s) {key : String}
    {entry : PendingRequestEntry} (h : Entered s client req key entry) {w : Watcher}
    (hw : s.session.watchers.lookup entry.tag = some w) {outcome : FutureEnd}
    (hnot : key ∉ s.session.cancelledIncomingIds) (hdefined : outcome.Answers) :
    wp (unpipelined client).answer (orderContract client) (afterWatcher entry.tag w outcome)
      (fun _ s' => Ended client req s s')
      { s with session := s.session.unwatch entry.tag } := by
  obtain ⟨hkey, hstr⟩ := hs.watcher h hw
  -- without its watcher and out of flight the request still has its entry
  let s₁ : HttpServer := { s with session := s.session.unwatch entry.tag }
  let s₂ : HttpServer :=
    { s₁ with session := s₁.session.leaveFlight entry.tag w.idStr (.finished outcome) }
  have hentered₂ : Entered s₂ client req key entry :=
    { h with opened := ⟨h.opened.isOpen, h.opened.connected, h.opened.present⟩ }
  have hinv₂ : OrderInv client s₂ := by
    refine ⟨⟨.dispatched req key entry, hentered₂, AList.lookup_erase _ _⟩, fun t w' hw' => ?_⟩
    have hw' : (s.session.watchers.erase entry.tag).lookup t = some w' := hw'
    by_cases heq : t = entry.tag
    · rw [heq, AList.lookup_erase] at hw'
      cases hw'
    · rw [AList.lookup_erase_ne heq] at hw'
      exact hs.watched t w' hw'
  have hsince : Since client s s₂ := ⟨Nat.le_refl _, fun _ _ hk _ => .inl hk, rfl⟩
  refine (wp_ite _ _ _ _ _).mpr ⟨fun hc => ?_, fun _ => ?_⟩
  · rw [hstr] at hc
    rw [Bool.and_eq_true, decide_eq_true_iff] at hc
    exact absurd hc.2 hnot
  have hne : idToString w.idValue ≠ "" := by
    rw [hkey]
    exact h.asks.1
  cases outcome with
  | result v =>
      have hid := (ofFields_id (v := v) (id_of_key hne).1 (by decide : "result" ≠ "id")).1
      have hanswer := isAnswer_resultMessage hne hdefined
      exact wp_mono (wp_order_answer_entered hinv₂ hentered₂ hanswer
        ((congrArg idToString hid).trans hkey) (some entry.tag)) fun _ _ he => he.after hsince
  | exception e =>
      have hid := (errorMessage_id (id_of_key hne).1 (errorAnswerFor e)).1
      exact wp_mono (wp_order_answer_entered hinv₂ hentered₂
        (isAnswer_errorMessage hne (errorAnswerFor e))
        ((congrArg idToString hid).trans hkey) (some entry.tag)) fun _ _ he => he.after hsince
  | cancelled => exact hdefined.elim

end Handlers

namespace KeepsOrder

variable {client : SocketId}

theorem afterWatcher (t : RequestTag) (w : Watcher) (outcome : FutureEnd) :
    KeepsOrder client (Mcp.afterWatcher t w outcome) := by
  have hflight : KeepsOrder client
      (HttpServer.host.leaveFlight t w.idStr (.finished outcome)) :=
    still fun s => .of_eq rfl rfl rfl rfl rfl rfl rfl rfl
  refine composes.bind (composes.reads _) fun cancelled => composes.ite _ ?_ ?_
  · exact composes.bind (still fun _ => .of_eq rfl rfl rfl rfl rfl rfl rfl rfl) fun _ => hflight
  · refine composes.bind hflight fun _ => ?_
    cases outcome with
    | result v =>
        exact composes.bind (composes.reads _) fun _ => composes.ite _ (send _ _) (composes.pure ())
    | exception e => exact sendError _ _ _
    | cancelled => exact composes.pure ()

/-- The future of a handler has finished. If it is that of the connection's request, the request
is not cancelled and the outcome can be sent. -/
theorem handlerFinished {t : RequestTag} {outcome : FutureEnd} {s : HttpServer}
    (hs : OrderInv client s)
    (h : ∀ key entry, s.pendingByRequestId.lookup key = some entry → entry.socket = client →
      entry.tag = t → key ∉ s.session.cancelledIncomingIds ∧ outcome.Answers) :
    (orderContract client).KeepsAt (S := HttpSig) (unpipelined client).answer
      (HttpServer.host.handlerFinished t outcome) s := by
  refine Contract.KeepsAt.reads ?_
  have hsession : HttpServer.host.session s = s.session := rfl
  dsimp only
  rw [hsession]
  cases hw : s.session.watchers.lookup t with
  | none => exact composes.pure () s hs
  | some w =>
      by_cases hown : ∃ key entry, s.pendingByRequestId.lookup key = some entry ∧
          entry.socket = client ∧ entry.tag = t
      · obtain ⟨key, entry, hk, he, rfl⟩ := hown
        obtain ⟨hnot, hdefined⟩ := h key entry hk he rfl
        obtain ⟨req, hentered⟩ := hs.entered hk he
        exact wp_mono (wp_order_finished_own hs hentered hw hnot hdefined) fun _ _ he =>
          he.moves hentered
      · have hunwatch : Still client s { s with session := s.session.unwatch t } :=
          still_unwatch fun k e hk he ht => hown ⟨k, e, hk, he, ht⟩
        exact (afterWatcher t w outcome).wp (hunwatch.moves hs).1 fun _ s' hs' hr =>
          ⟨hs', (orderContract_preorder client).trans (hunwatch.moves hs).2 hr⟩

end KeepsOrder

/-! ### Reading -/

/-- The session takes a request it is handed to its handler. -/
theorem onMessageReceived_request {msg : JsonObject}
    (hver : (msg.value "jsonrpc").toString = "2.0") (hkind : classify msg = .request) :
    HttpServer.host.onMessageReceived msg = HttpServer.host.dispatchRequest msg := by
  unfold SessionHost.onMessageReceived
  rw [if_neg (not_not.mpr hver), hkind]

theorem rejection_status {s : HttpServer} {req : HttpRequest} {rejected : Nat × String}
    (h : s.rejection req = some rejected) : 400 ≤ rejected.1 := by
  unfold HttpServer.rejection at h
  dsimp only at h
  split at h
  · cases h
    decide
  split at h
  · cases h
    decide
  split at h
  · cases h
    decide
  split at h
  · cases h
    decide
  · cases h

namespace KeepsOrder

variable {client : SocketId}

/-! The requests of other connections. -/

theorem processMessage {c : SocketId} (hc : c ≠ client) {msg : JsonObject}
    (hver : (msg.value "jsonrpc").toString = "2.0") :
    KeepsOrder client (HttpServer.processMessage c msg) := by
  refine Contract.Keeps.ite _ (fun hkind => ?_) fun hkind => ?_
  · intro s hs
    refine (wp_ite _ _ _ _ _).mpr ⟨fun _ => respondWithStatus hc _ _ s hs, fun _ => ?_⟩
    refine (wp_ite _ _ _ _ _).mpr ⟨fun _ => respondWithStatus hc _ _ s hs, fun hfree => ?_⟩
    have hregister := (still_register hc (Option.not_isSome_iff_eq_none.mp hfree)).moves hs
    rw [onMessageReceived_request hver hkind]
    have hdispatch := Contract.KeepsAt.after (orderContract_preorder client) hregister
      (wp_order_dispatch_elsewhere hregister.1 msg)
    exact hdispatch
  · exact composes.bind (onMessageReceived hkind) fun _ => writeAckOrQueuedMessages hc

theorem processRequest {c : SocketId} (hc : c ≠ client) {req : HttpRequest} {s : HttpServer}
    (hs : OrderInv client s) (hdelete : req.method = "DELETE" → ¬ s.Unanswered client) :
    (orderContract client).KeepsAt (S := HttpSig) (unpipelined client).answer
      (HttpServer.processRequest c req) s := by
  refine (wp_ite _ _ _ _ _).mpr ⟨fun _ => ?_, fun _ => ?_⟩
  · exact composes.bind (write hc _) (fun _ => disconnectFromHost hc) s hs
  generalize s.rejection req = rejection
  cases rejection with
  | some rejected => exact respondWithStatus hc _ _ s hs
  | none =>
      refine (wp_ite _ _ _ _ _).mpr ⟨fun hmethod => ?_, fun _ => ?_⟩
      · refine (wp_ite _ _ _ _ _).mpr ⟨fun _ => respondWithStatus hc _ _ s hs, fun _ => ?_⟩
        refine Contract.KeepsAt.bind (orderContract_preorder client)
          (endSession hs (hdelete hmethod)) fun _ s' h' => ?_
        exact respondWithStatus hc 200 "OK" s' h'.1
      · cases hmsg : HttpServer.postedMessage req with
        | none => exact respondWithStatus hc _ _ s hs
        | some msg => exact processMessage hc (postedMessage_version hmsg) s hs

end KeepsOrder

section Own

variable {client : SocketId} {s : HttpServer} {req : HttpRequest}

/-- The message of the connection's request is handled. -/
theorem wp_order_processMessage (hs : OrderInv client s) (hat : s.At client (.handled req))
    {msg : JsonObject} (hmsg : HttpServer.postedMessage req = some msg) :
    wp (unpipelined client).answer (orderContract client)
      (HttpServer.processMessage client msg) (fun _ s' => Done client req s s') s := by
  have hrefuse : wp (unpipelined client).answer (orderContract client)
      (HttpServer.respondWithStatus client 400 "Bad Request")
      (fun _ s' => Done client req s s') s :=
    wp_mono (wp_order_respondWithStatus hs hat (Nat.le_refl _) _) fun _ _ h => h.done
  refine (wp_ite _ _ _ _ _).mpr ⟨fun hkind => ?_, fun hkind => ?_⟩
  · refine (wp_ite _ _ _ _ _).mpr ⟨fun _ => hrefuse, fun hkey => ?_⟩
    refine (wp_ite _ _ _ _ _).mpr ⟨fun _ => hrefuse, fun _ => ?_⟩
    rw [onMessageReceived_request (postedMessage_version hmsg) hkind]
    exact wp_order_dispatch_own hs hat hmsg hkind (by simpa using hkey)
  · refine (wp_bind _ _ _ _).mpr ?_
    refine (KeepsOrder.onMessageReceived hkind).wp hs
      fun _ s₁ hs₁ (hr : OrderRely client s s₁) => ?_
    exact wp_mono (wp_order_writeAck hs₁ (hr.handled hat) hmsg hkind) fun _ _ h =>
      (h.after hr.since).done

/-- The connection's request is processed. -/
theorem wp_order_processRequest (hs : OrderInv client s) (hat : s.At client (.handled req))
    (hreq : req.WellFormed) :
    wp (unpipelined client).answer (orderContract client)
      (HttpServer.processRequest client req) (fun _ s' => Done client req s s') s := by
  obtain ⟨hmethod, msg, hmsg, -⟩ := hreq
  refine (wp_ite _ _ _ _ _).mpr ⟨fun h => absurd hmethod h.1, fun _ => ?_⟩
  cases hrejection : s.rejection req with
  | some rejected =>
      exact wp_mono (wp_order_respondWithStatus hs hat (rejection_status hrejection) _)
        fun _ _ h => h.done
  | none =>
      refine (wp_ite _ _ _ _ _).mpr ⟨fun h => absurd (hmethod.symm.trans h) (by decide), fun _ => ?_⟩
      rw [hmsg]
      exact wp_order_processMessage hs hat hmsg

/-- The request is read from the connection. -/
theorem OrderInv.readOwn (hs : OrderInv client s) (hnone : s.requestsRead client = [])
    (hopen : Open s client) (req : HttpRequest) :
    OrderInv client (s.observe (.read client req)) ∧ s.At client .unread ∧
      (s.observe (.read client req)).At client (.handled req) := by
  obtain ⟨stage, hat⟩ := hs.stage
  have hunread : s.At client .unread := by
    cases stage with
    | unread => exact hat
    | handled r => exact absurd (hnone.symm.trans hat.1) nofun
    | dispatched r key entry => exact absurd (hnone.symm.trans hat.1.read) nofun
    | awaited r key entry => exact absurd (hnone.symm.trans hat.1.read) nofun
    | answered r response => exact absurd (hnone.symm.trans hat.1) nofun
  have hat' : (s.observe (.read client req)).At client (.handled req) := by
    refine ⟨?_, ?_, hunread.2.2, ⟨hopen.isOpen, hopen.connected, hopen.present⟩⟩
    · rw [HttpServer.requestsRead_read, hnone, if_pos rfl, List.nil_append]
    · rw [HttpServer.responsesTo_read, hunread.2.1]
  exact ⟨⟨⟨_, hat'⟩, hs.watched⟩, hunread, hat'⟩

/-- The visit in which the request was read. -/
theorem Done.moves {s₀ s' : HttpServer} (hunread : s₀.At client .unread)
    (hclosings : s₀.closings = 0) (hsince : Since client s₀ s) (h : Done client req s s') :
    OrderInv client s' ∧ OrderRely client s₀ s' := by
  refine ⟨h.inv, hsince.trans h.since, fun stage hs => ?_, fun hclosing => absurd hclosings hclosing⟩
  have hstage : stage = .unread := by
    cases stage with
    | unread => rfl
    | handled r => exact absurd (hunread.1.symm.trans hs.1) nofun
    | dispatched r key entry => exact absurd (hunread.1.symm.trans hs.1.read) nofun
    | awaited r key entry => exact absurd (hunread.1.symm.trans hs.1.read) nofun
    | answered r response => exact absurd (hunread.1.symm.trans hs.1) nofun
  subst hstage
  rcases h.settled with ⟨key, entry, hat⟩ | ⟨response, hat⟩
  · exact ⟨_, hat, .ask req key entry⟩
  · exact ⟨_, hat, .serve req response⟩

end Own

namespace KeepsOrder

variable {client : SocketId}

/-- A request that is found in the bytes of a connection. -/
theorem takeRequest {c : SocketId} {req : HttpRequest} {s : HttpServer} (hs : OrderInv client s)
    (h : (unpipelined client).answer s (.parseNext c) (.complete req)) :
    (orderContract client).KeepsAt (S := HttpSig) (unpipelined client).answer (do
      Proc.modify (S := HttpSig) fun s => s.observe (.read c req)
      HttpServer.processRequest c req) s := by
  obtain ⟨hwell, hone, hdelete⟩ := h
  by_cases hc : c = client
  · subst hc
    obtain ⟨hnone, hopen, hclosings⟩ := hone rfl
    obtain ⟨hs₁, hunread, hat⟩ := hs.readOwn hnone hopen req
    have hsince : Since c s (s.observe (.read c req)) :=
      ⟨Nat.le_refl _, fun _ _ hk _ => .inl hk, rfl⟩
    exact wp_mono (wp_order_processRequest hs₁ hat (hwell rfl)) fun _ _ hdone =>
      hdone.moves hunread hclosings hsince
  · have hread := (still_read (s := s) hc req).moves hs
    have hprocess := processRequest hc hread.1 fun hmethod hwaits =>
      hdelete hmethod ((still_read hc req).unanswered.mp hwaits)
    have hvisit := Contract.KeepsAt.after (orderContract_preorder client) hread hprocess
    exact hvisit

/-- The body of the loop of `onReadyRead`. -/
theorem readLoop (c : SocketId) : KeepsOrder client (HttpServer.readLoop c) := by
  refine fun s hs => ⟨hs, fun s₁ hr hs₁ result hresult => ?_⟩
  refine Contract.KeepsAt.after (orderContract_preorder client) ⟨hs₁, hr⟩ ?_
  cases result with
  | needMoreData => exact composes.pure () s₁ hs₁
  | complete req =>
      have hagain : KeepsOrder client (do
          let s ← Proc.read (S := HttpSig)
          if c ∈ s.connections ∧ c ∈ s.connected then
            Proc.invoke (S := HttpSig) (.readLoop c)
          else
            pure ()) :=
        composes.bind (composes.reads id) fun _ =>
          composes.ite _ (invoke (.readLoop c)) (composes.pure ())
      have hloop := Contract.KeepsAt.bind (orderContract_preorder client)
        (takeRequest hs₁ hresult) fun _ s₂ h₂ => hagain s₂ h₂.1
      exact hloop
  | headerOverflow => exact respondWithStatus hresult.1 _ _ s₁ hs₁
  | bodyTooLarge => exact respondWithStatus hresult.1 _ _ s₁ hs₁
  | invalidContentLength => exact respondWithStatus hresult.1 _ _ s₁ hs₁
  | invalidRequestLine => exact respondWithStatus hresult.1 _ _ s₁ hs₁

/-! ### The other events -/

theorem session_call {c : SessionCall} {s : HttpServer} (hs : OrderInv client s)
    (h : (unpipelined client).event s (.server (.session c))) :
    (orderContract client).KeepsAt (S := HttpSig) (unpipelined client).answer
      (HttpServer.host.call c) s := by
  by_cases hfin : ∃ tag outcome, c = .handlerFinished tag outcome
  · obtain ⟨tag, outcome, rfl⟩ := hfin
    exact handlerFinished hs h.2
  · exact quiet.call (fun _ _ => still fun _ => .of_eq rfl rfl rfl rfl rfl rfl rfl rfl)
      (fun tag outcome hc => absurd ⟨tag, outcome, hc⟩ hfin) s hs

theorem start : KeepsOrder client HttpServer.start := by
  refine composes.bind (composes.reads _) fun isOpen => composes.ite _ (composes.pure ()) ?_
  refine composes.bind (query .listen) fun listening => composes.ite _ ?_ (query _)
  exact still fun s =>
    { Still.refl client s with
      opened := fun _ h => ⟨rfl, h.connected, h.present⟩ }

theorem newConnection (count : Nat) : KeepsOrder client (HttpServer.onNewConnection count) := by
  refine still fun s => ?_
  induction count generalizing s with
  | zero => exact .refl client s
  | succ count ih =>
      have haccept : Still client s s.accept :=
        { Still.refl client s with
          opened := fun _ h => ⟨h.isOpen, Finset.mem_insert_of_mem h.connected, h.present⟩ }
      exact haccept.trans (ih s.accept)

/-- Another socket leaves the connected state. -/
theorem still_disconnected {s : HttpServer} {c : SocketId} (hc : c = client → client ∉ s.connected) :
    Still client s { s with connected := s.connected.erase c } :=
  { Still.refl client s with
    opened := fun _ h =>
      ⟨h.isOpen, Finset.mem_erase.mpr ⟨fun he => hc he.symm h.connected, h.connected⟩, h.present⟩ }

theorem lookup_dropEntriesOf {c : SocketId} {k : String} {e : PendingRequestEntry}
    (entries : List (Sigma fun _ : String => PendingRequestEntry)) (s : HttpServer)
    (hentries : ∀ x ∈ entries, x.1 = k → x.2 = e) (hpresent : e.socket ∉ s.deleted)
    (hc : e.socket ≠ c) (hk : s.pendingByRequestId.lookup k = some e) :
    (HttpServer.dropEntriesOf c entries s).pendingByRequestId.lookup k = some e := by
  induction entries generalizing s with
  | nil => exact hk
  | cons x rest ih =>
      obtain ⟨k', e'⟩ := x
      have hrest : ∀ x ∈ rest, x.1 = k → x.2 = e := fun x hx =>
        hentries x (List.mem_cons_of_mem _ hx)
      unfold HttpServer.dropEntriesOf
      split
      · rename_i hdrop
        have hne : k ≠ k' := by
          rintro rfl
          obtain rfl : e' = e := hentries _ List.mem_cons_self rfl
          exact hdrop.elim hpresent hc
        exact ih _ hrest hpresent ((AList.lookup_erase_ne hne).trans hk)
      · exact ih s hrest hpresent hk

@[simp] theorem dropEntriesOf_other (c : SocketId)
    (entries : List (Sigma fun _ : String => PendingRequestEntry)) (s : HttpServer) :
    (HttpServer.dropEntriesOf c entries s).isOpen = s.isOpen ∧
      (HttpServer.dropEntriesOf c entries s).connected = s.connected ∧
      (HttpServer.dropEntriesOf c entries s).deleted = s.deleted ∧
      (HttpServer.dropEntriesOf c entries s).session = s.session ∧
      (HttpServer.dropEntriesOf c entries s).closings = s.closings := by
  induction entries generalizing s with
  | nil => exact ⟨rfl, rfl, rfl, rfl, rfl⟩
  | cons x rest ih =>
      unfold HttpServer.dropEntriesOf
      split
      · exact ih (s.dropEntry x.1 x.2)
      · exact ih s

/-- The entries of a socket that has disconnected are dropped. -/
theorem still_dropEntriesOf {s : HttpServer} (hs : OrderInv client s) {c : SocketId}
    (hc : c = client → client ∉ s.connected) :
    Still client s (HttpServer.dropEntriesOf c s.pendingByRequestId.entries s) := by
  obtain ⟨hopen, hconnected, hdeleted, hsession, hclosings⟩ :=
    dropEntriesOf_other c s.pendingByRequestId.entries s
  have hshrinks := shrinks_dropEntriesOf c s.pendingByRequestId.entries s
  exact
    { read := by rw [HttpServer.requestsRead, hshrinks.log]; rfl
      written := by rw [HttpServer.responsesTo, hshrinks.log]; rfl
      shrinks := fun k e hk _ => hshrinks.pending k e hk
      nextTag := by rw [hsession]
      watched := fun t w hw => .inl (by rwa [hsession] at hw)
      opened := fun _ h => ⟨hopen.trans h.isOpen, by rw [hconnected]; exact h.connected,
        by rw [hdeleted]; exact h.present⟩
      kept := by
        intro _ k e hk he
        obtain ⟨req, hentered⟩ := hs.entered hk he
        refine ⟨lookup_dropEntriesOf _ s (fun x hx hxk => ?_) ?_ ?_ hk, by rw [hsession]⟩
        · obtain ⟨k', e'⟩ := x
          obtain rfl : k' = k := hxk
          exact Option.some.inj ((AList.mem_lookup_iff.mpr hx).symm.trans hk)
        · rw [he]
          exact hentered.opened.present
        · rw [he]
          exact fun h => hc h.symm hentered.opened.connected
      closings := hclosings }

theorem onDisconnected {c : SocketId} {s : HttpServer} (hs : OrderInv client s)
    (hc : c = client → client ∉ s.connected) :
    (orderContract client).KeepsAt (S := HttpSig) (unpipelined client).answer
      (HttpServer.onDisconnected c) s := by
  have hforget : Still client s { s with connections := s.connections.erase c } :=
    .of_eq rfl rfl rfl rfl rfl rfl rfl rfl
  exact (hforget.trans (still_dropEntriesOf (hforget.moves hs).1 hc)).moves hs

/-- A timer of another connection's entry fires. -/
theorem pendingTimeout {timer : TimerId} {s : HttpServer} (hs : OrderInv client s)
    (h : ∀ key, s.timers.lookup timer = some key →
      ∀ entry, s.pendingByRequestId.lookup key = some entry → entry.socket ≠ client) :
    (orderContract client).KeepsAt (S := HttpSig) (unpipelined client).answer
      (HttpServer.pendingTimeout timer) s := by
  refine Contract.KeepsAt.reads ?_
  cases htimer : s.timers.lookup timer with
  | none => exact composes.pure () s hs
  | some key =>
      refine (wp_bind (Proc.modify (S := HttpSig) _) _ _ s).mpr ?_
      refine (wp_modify (S := HttpSig) _ _ s).mpr ?_
      refine wp_of_read ?_
      dsimp only
      have htimers : Still client s { s with timers := s.timers.erase timer } :=
        .of_eq rfl rfl rfl rfl rfl rfl rfl rfl
      cases hk : s.pendingByRequestId.lookup key with
      | none => exact htimers.moves hs
      | some entry =>
          have hsocket := h key htimer entry hk
          have hdrop : Still client (s.dropEntry key entry)
              { s with
                timers := s.timers.erase timer
                pendingByRequestId := s.pendingByRequestId.erase key } :=
            .of_eq rfl rfl rfl rfl rfl rfl rfl rfl
          have hmove := ((still_dropEntry hk hsocket).trans hdrop).moves hs
          have hwrite : KeepsOrder client
              (if entry.socket ∉ s.deleted ∧ entry.socket ∈ s.connected then do
                HttpServer.writeStatus entry.socket 504 "Gateway Timeout"
                  [("Content-Length", "0"), ("Connection", "close")]
                HttpServer.disconnectFromHost entry.socket
              else pure ()) :=
            composes.ite _ (composes.bind (write hsocket _) fun _ => disconnectFromHost hsocket)
              (composes.pure ())
          have hvisit := Contract.KeepsAt.after (orderContract_preorder client) hmove
            (hwrite _ hmove.1)
          exact hvisit

theorem stop {s : HttpServer} (hs : OrderInv client s) (hwaits : ¬ s.Unanswered client) :
    (orderContract client).KeepsAt (S := HttpSig) (unpipelined client).answer HttpServer.stop s := by
  refine wp_of_read ?_
  refine (wp_ite _ _ _ _ _).mpr ⟨fun _ => ?_, fun _ => composes.pure () s hs⟩
  refine closing (f := fun s => { s with isOpen := false, closings := s.closings + 1 })
    (g := fun s => { s.clearPending.discardQueue with
      connections := ∅, closings := s.closings - 1 })
    (fun _ hwaits => .of_spared hwaits rfl (fun _ _ h => h) rfl) (fun _ => rfl)
    (.abortSockets _) (fun _ hwaits => .of_spared hwaits rfl ?_ rfl) (fun _ => rfl)
    (quiet.abortPending _) hs hwaits
  intro k e hk
  exact absurd hk (by simp [HttpServer.clearPending, HttpServer.discardQueue])

theorem entry {e : QueueEvent} {s : HttpServer} (hs : OrderInv client s)
    (h : (unpipelined client).event s e) :
    (orderContract client).KeepsAt (S := HttpSig) (unpipelined client).answer
      (queueMachine.entry e) s := by
  cases e with
  | send message => exact send none message s hs
  | server e =>
      cases e with
      | session c => exact session_call hs h
      | start => exact start s hs
      | stop => exact stop hs h.2
      | newConnection count => exact newConnection count s hs
      | readyRead c =>
          have hread : KeepsOrder client (httpEntry (.readyRead c)) := by
            refine composes.bind (composes.reads _) fun subscribed =>
              composes.ite _ ?_ (composes.pure ())
            refine composes.bind (composes.reads _) fun connections => ?_
            exact composes.ite _ (invoke (.readLoop c)) (composes.pure ())
          exact hread s hs
      | connectionLost c => exact (still_disconnected h.1).moves hs
      | disconnected c =>
          have hlost := (still_disconnected h.1).moves hs
          have hgone : c = client → client ∉ s.connected.erase c := by
            rintro rfl
            exact Finset.notMem_erase _ _
          have hrest : (orderContract client).KeepsAt (S := HttpSig) (unpipelined client).answer
              (if c ∈ s.subscribed then HttpServer.onDisconnected c else pure ())
              { s with connected := s.connected.erase c } :=
            (wp_ite _ _ _ _ _).mpr ⟨fun _ => onDisconnected hlost.1 hgone,
              fun _ => composes.pure () _ hlost.1⟩
          have hvisit := Contract.KeepsAt.after (orderContract_preorder client) hlost hrest
          exact hvisit
      | socketDeleted c =>
          have hdeleted : Still client s
              { s with
                connected := s.connected.erase c
                subscribed := s.subscribed.erase c
                deleted := insert c s.deleted } :=
            { Still.refl client s with
              opened := fun _ ho => by
                have hne : client ≠ c := fun he => h.1 he.symm ho.connected
                refine ⟨ho.isOpen, Finset.mem_erase.mpr ⟨hne, ho.connected⟩, fun hmem => ?_⟩
                exact (Finset.mem_insert.mp hmem).elim hne ho.present }
          exact hdeleted.moves hs
      | pendingTimeout timer => exact pendingTimeout hs h.1

end KeepsOrder

/-! ### Runs -/

theorem order_valid (client : SocketId) : (orderContract client).Valid (unpipelined client) :=
  .of_guarded (orderContract_preorder client) (fun _ _ hs he => KeepsOrder.entry hs he)
    fun f s hs => match f with
      | .readLoop c => KeepsOrder.readLoop c s hs

theorem orderInv_init (client : SocketId) (config : HttpServerConfig) (sessionId : String) :
    OrderInv client { config, sessionId } where
  stage := ⟨.unread, rfl, rfl, fun _ _ h => absurd h nofun⟩
  watched _ _ h := absurd h nofun

end LLMQore.Mcp
