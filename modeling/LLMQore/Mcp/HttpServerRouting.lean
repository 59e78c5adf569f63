import LLMQore.Mcp.HttpServer
import LLMQore.Rpc.SessionRules

/-!
# LLMQore.Mcp.HttpServerRouting

A response goes to the request it answers.

The transport finds the socket of an answer by the id string alone. The entry
under that string may have been dropped (a disconnect, a timeout, the end of the
MCP session) while the handler of its request was still running, and the string
may have been taken by another request since. So the invariant that carries the
result, `Routed`, is about the strings: whoever is in flight in the session under
the string of a pending entry is the request the entry was made for. It is kept
by everything but the registration of a request whose string is still in flight,
and an answer is matched rightly under it. `FreshPost` excludes that, and excludes
the other way to a socket: an error for a message that cannot be classified is
sent under that message's own id.
-/

namespace LLMQore.Mcp

open Reentrant Rpc

/-! ### What holds of a response -/

/-- A message in a body is the answer the session's handler computed for the
request that was read from the socket it is written to. -/
def RightAnswer (s : HttpServer) (client : SocketId) (b : JsonObject × Option RequestTag) : Prop :=
  ∃ tag msg how, b.2 = some tag ∧ HttpObservation.registered client tag msg ∈ s.log ∧
    (tag, msg.value "id") ∈ s.session.books.ledger.received ∧
    (tag, how) ∈ s.session.books.ledger.ends ∧ b.1 = answerMessage (msg.value "id") how

/-- Every response message written to a socket is the right answer there. -/
def RightSocket (s : HttpServer) : Prop :=
  ∀ client response, HttpObservation.wrote client response ∈ s.log → ∀ b ∈ response.body,
    ¬IsCall b.1 → RightAnswer s client b

/-- The entry under `k` is that of the only request in flight under `k`, if any. -/
structure Routed (s : HttpServer) (k : String) (entry : PendingRequestEntry) : Prop where
  registered : ∃ msg, HttpObservation.registered entry.socket entry.tag msg ∈ s.log ∧
    idToString (msg.value "id") = k ∧
    (entry.tag, msg.value "id") ∈ s.session.books.ledger.received
  only : ∀ r ∈ s.session.books.ledger.live, idToString r.2 = k → r.1 = entry.tag

structure HttpInv (s : HttpServer) : Prop where
  tags : TagsInv s.session.books
  keyed : ∀ r ∈ s.session.books.ledger.received, idToString r.2 ≠ ""
  routed : ∀ k entry, s.pendingByRequestId.lookup k = some entry → Routed s k entry
  queued : ∀ message ∈ s.queuedServerMessages, IsCall message
  written : RightSocket s

/-- What a complete visit may do: requests being dispatched stay so. -/
def httpRely (s s' : HttpServer) : Prop :=
  ∀ t id, s.session.books.Dispatching t id → s'.session.books.Dispatching t id

def httpContract : Contract HttpSig where
  inv := HttpInv
  rely := httpRely
  pre _ := HttpInv
  post _ s _ s' := HttpInv s' ∧ httpRely s s'

theorem httpContract_preorder : httpContract.Preorder where
  refl _ _ _ h := h
  trans h₁ h₂ t id h := h₂ t id (h₁ t id h)

/-! ### The condition on a run -/

/-- A request that would be registered finds none in flight under its string, and
a message that cannot be classified has an id nobody waits for. -/
def FreshPost (s : HttpServer) (req : HttpRequest) : Prop :=
  ∀ msg, req.method = "POST" → s.rejection req = none →
    HttpServer.postedMessage req = some msg →
    (classify msg = .request → s.pendingByRequestId.lookup (idToString (msg.value "id")) = none →
      ∀ r ∈ s.session.books.ledger.live, idToString r.2 ≠ idToString (msg.value "id")) ∧
    (classify msg = .invalid → (msg.value "id").isNull = false ∧
      (msg.value "id").isUndefined = false ∧
      s.pendingByRequestId.lookup (idToString (msg.value "id")) = none)

/-- The requests that are read meet the condition. -/
def HttpAnswer (s : HttpServer) : (e : HttpOut) → e.Ans → Prop
  | .parseNext _, .complete req => FreshPost s req
  | _, _ => True

/-! ### Updates -/

/-- An update that drops entries, queued messages or neither. -/
structure Shrinks (s s' : HttpServer) : Prop where
  tags : s.session.books.SameTags s'.session.books
  pending : ∀ k entry, s'.pendingByRequestId.lookup k = some entry →
    s.pendingByRequestId.lookup k = some entry
  queue : ∀ message ∈ s'.queuedServerMessages, message ∈ s.queuedServerMessages
  log : s'.log = s.log

theorem Shrinks.refl (s : HttpServer) : Shrinks s s :=
  ⟨⟨rfl, rfl, rfl, rfl⟩, fun _ _ h => h, fun _ h => h, rfl⟩

theorem Shrinks.trans {s₁ s₂ s₃ : HttpServer} (h₁ : Shrinks s₁ s₂) (h₂ : Shrinks s₂ s₃) :
    Shrinks s₁ s₃ where
  tags := ⟨h₂.tags.received.trans h₁.tags.received, h₂.tags.ends.trans h₁.tags.ends,
    h₂.tags.nextTag.trans h₁.tags.nextTag, h₂.tags.watchers.trans h₁.tags.watchers⟩
  pending k e h := h₁.pending k e (h₂.pending k e h)
  queue m h := h₁.queue m (h₂.queue m h)
  log := h₂.log.trans h₁.log

theorem RightAnswer.mono {s s' : HttpServer} {client : SocketId}
    {b : JsonObject × Option RequestTag} (h : RightAnswer s client b)
    (hlog : ∀ o ∈ s.log, o ∈ s'.log)
    (hrec : ∀ r ∈ s.session.books.ledger.received, r ∈ s'.session.books.ledger.received)
    (hend : ∀ e ∈ s.session.books.ledger.ends, e ∈ s'.session.books.ledger.ends) :
    RightAnswer s' client b := by
  obtain ⟨tag, msg, how, hb, hreg, hr, he, hm⟩ := h
  exact ⟨tag, msg, how, hb, hlog _ hreg, hrec _ hr, hend _ he, hm⟩

theorem Shrinks.inv {s s' : HttpServer} (h : Shrinks s s') (hs : HttpInv s) : HttpInv s' where
  tags := hs.tags.congr h.tags
  keyed := by rw [h.tags.received]; exact hs.keyed
  routed := by
    intro k entry hk
    obtain ⟨hreg, honly⟩ := hs.routed k entry (h.pending k entry hk)
    refine ⟨?_, ?_⟩
    · rw [h.log, h.tags.received]; exact hreg
    · rw [h.tags.live]; exact honly
  queued m hm := hs.queued m (h.queue m hm)
  written := by
    intro client response hw b hb hcall
    rw [h.log] at hw
    refine (hs.written client response hw b hb hcall).mono ?_ ?_ ?_
    · rw [h.log]; exact fun _ ho => ho
    · rw [h.tags.received]; exact fun _ hr => hr
    · rw [h.tags.ends]; exact fun _ he => he

theorem Shrinks.rely {s s' : HttpServer} (h : Shrinks s s') : httpRely s s' :=
  fun _ _ hd => h.tags.dispatching hd

/-- Writing a response whose messages are calls or right answers. -/
theorem HttpInv.wrote {s : HttpServer} (hs : HttpInv s) {client : SocketId}
    {response : HttpResponse} (h : ∀ b ∈ response.body, ¬IsCall b.1 → RightAnswer s client b) :
    HttpInv (s.observe (.wrote client response)) where
  tags := hs.tags
  keyed := hs.keyed
  routed := by
    intro k entry hk
    obtain ⟨⟨msg, hreg, hid, hrec⟩, honly⟩ := hs.routed k entry hk
    exact ⟨⟨msg, List.mem_cons_of_mem _ hreg, hid, hrec⟩, honly⟩
  queued := hs.queued
  written := by
    intro client' response' hw b hb hcall
    have hmono : ∀ o ∈ s.log, o ∈ (s.observe (.wrote client response)).log :=
      fun o ho => List.mem_cons_of_mem _ ho
    rcases List.mem_cons.mp hw with heq | hw
    · obtain ⟨rfl, rfl⟩ := HttpObservation.wrote.inj heq
      exact (h b hb hcall).mono hmono (fun _ hr => hr) fun _ he => he
    · exact (hs.written client' response' hw b hb hcall).mono hmono (fun _ hr => hr)
        fun _ he => he

/-- A request was read: nothing else changes. -/
theorem HttpInv.read {s : HttpServer} (hs : HttpInv s) (client : SocketId) (req : HttpRequest) :
    HttpInv (s.observe (.read client req)) where
  tags := hs.tags
  keyed := hs.keyed
  routed := by
    intro k entry hk
    obtain ⟨⟨msg, hreg, hid, hrec⟩, honly⟩ := hs.routed k entry hk
    exact ⟨⟨msg, List.mem_cons_of_mem _ hreg, hid, hrec⟩, honly⟩
  queued := hs.queued
  written := by
    intro client' response hw b hb hcall
    rcases List.mem_cons.mp hw with heq | hw
    · cases heq
    · exact (hs.written client' response hw b hb hcall).mono
        (fun _ ho => List.mem_cons_of_mem _ ho) (fun _ hr => hr) fun _ he => he

/-! ### Code that keeps the invariant -/

/-- A proof obligation of the contract. -/
abbrev KeepsHttp {α : Type} (p : Proc HttpSig α) : Prop :=
  httpContract.Keeps (S := HttpSig) HttpAnswer p

theorem keepsHttp_bind {α β : Type} {p : Proc HttpSig α} {g : α → Proc HttpSig β}
    (hp : KeepsHttp p) (hg : ∀ a, KeepsHttp (g a)) : KeepsHttp (p >>= g) :=
  Contract.Keeps.bind httpContract_preorder hp hg

theorem keepsHttp_pure {α : Type} (a : α) : KeepsHttp (pure a : Proc HttpSig α) :=
  Contract.Keeps.pure httpContract_preorder a

theorem keepsHttp_reads {α : Type} (f : HttpServer → α) :
    KeepsHttp (Proc.reads (S := HttpSig) f) :=
  Contract.Keeps.reads httpContract_preorder f

theorem keepsHttp_query (e : HttpOut) : KeepsHttp (Proc.query (S := HttpSig) e) :=
  Contract.Keeps.query (S := HttpSig) e

theorem keepsHttp_shrink {f : HttpServer → HttpServer} (h : ∀ s, Shrinks s (f s)) :
    KeepsHttp (Proc.modify (S := HttpSig) f) :=
  Contract.Keeps.modify fun s hs => ⟨(h s).inv hs, (h s).rely⟩

theorem keepsHttp_invoke (f : HttpFn) : KeepsHttp (Proc.invoke (S := HttpSig) f) :=
  fun _ hs => ⟨hs, fun _ _ h => h⟩

/-- Code that reads the state and goes on. -/
theorem keepsHttp_read {α : Type} {g : HttpServer → Proc HttpSig α}
    (h : ∀ s, HttpInv s → wp HttpAnswer httpContract (g s)
      (fun _ s' => HttpInv s' ∧ httpRely s s') s) :
    KeepsHttp (Proc.read (S := HttpSig) >>= g) :=
  fun s hs => h s hs

theorem wp_http_write {s : HttpServer} (hs : HttpInv s) {client : SocketId}
    {response : HttpResponse} (h : ∀ b ∈ response.body, ¬IsCall b.1 → RightAnswer s client b) :
    wp HttpAnswer httpContract (HttpServer.write client response)
      (fun _ s' => HttpInv s' ∧ httpRely s s') s :=
  ⟨hs.wrote h, fun _ hr hi _ _ => ⟨hi, hr⟩⟩

theorem keepsHttp_disconnectFromHost (client : SocketId) :
    KeepsHttp (HttpServer.disconnectFromHost client) :=
  keepsHttp_bind (keepsHttp_shrink fun _ => ⟨⟨rfl, rfl, rfl, rfl⟩, fun _ _ h => h, fun _ h => h, rfl⟩)
    fun _ => keepsHttp_query _

theorem keepsHttp_writeStatus (client : SocketId) (status : Nat) (reason : String)
    (headers : List (String × String)) :
    KeepsHttp (HttpServer.writeStatus client status reason headers) :=
  fun _ hs => wp_http_write hs fun _ hb => absurd hb List.not_mem_nil

theorem keepsHttp_respondWithStatus (client : SocketId) (status : Nat) (reason : String) :
    KeepsHttp (HttpServer.respondWithStatus client status reason) :=
  keepsHttp_bind (keepsHttp_writeStatus _ _ _ _) fun _ => keepsHttp_disconnectFromHost client

/-- A body of messages of which each is a call or a right answer. -/
theorem wp_http_body {s : HttpServer} (hs : HttpInv s) {client : SocketId} {status : Nat}
    {reason : String} {body : List (JsonObject × Option RequestTag)}
    {headers : HttpServer → List (String × String)}
    (h : ∀ b ∈ body, ¬IsCall b.1 → RightAnswer s client b) :
    wp HttpAnswer httpContract
      ((do let headers ← Proc.reads (S := HttpSig) headers
           HttpServer.write client { status, reason, headers, body }) >>= fun _ =>
        HttpServer.disconnectFromHost client)
      (fun _ s' => HttpInv s' ∧ httpRely s s') s := by
  refine (wp_bind _ _ _ _).mpr ?_
  refine (wp_bind _ _ _ _).mpr ?_
  rw [wp_reads]
  refine wp_mono (wp_http_write hs h) fun _ s₁ h₁ => ?_
  exact (keepsHttp_disconnectFromHost client).wp h₁.1 fun _ s₂ h₂ hr₂ =>
    ⟨h₂, fun t id hd => hr₂ t id (h₁.2 t id hd)⟩

theorem shrinks_takeQueue (s : HttpServer) (client : SocketId) : Shrinks s (s.takeQueue client) :=
  ⟨⟨rfl, rfl, rfl, rfl⟩, fun _ _ h => h, fun _ h => absurd h List.not_mem_nil, rfl⟩

/-- The queue holds no answers. -/
theorem HttpInv.queuedBody {s : HttpServer} (hs : HttpInv s) :
    ∀ b ∈ s.queuedBody, IsCall b.1 := by
  intro b hb
  obtain ⟨m, hm, rfl⟩ := List.mem_map.mp hb
  exact hs.queued m hm

theorem keepsHttp_writeAckOrQueuedMessages (client : SocketId) :
    KeepsHttp (HttpServer.writeAckOrQueuedMessages client) := by
  refine keepsHttp_read fun s hs => ?_
  rw [wp_ite]
  constructor
  · intro _
    exact keepsHttp_bind (keepsHttp_writeStatus _ _ _ _)
      (fun _ => keepsHttp_disconnectFromHost client) s hs
  · intro _
    have hclear := shrinks_takeQueue s client
    refine (wp_bind _ _ _ _).mpr ?_
    rw [wp_modify]
    refine wp_http_body (hclear.inv hs) fun b hb hcall => ?_
    exact absurd (hs.queuedBody b hb) hcall

/-- An answer for the socket whose request it answers. -/
theorem wp_http_writeAnswer {s : HttpServer} (hs : HttpInv s) {client : SocketId}
    {message : JsonObject} {answers : Option RequestTag}
    (h : ¬IsCall message → RightAnswer s client (message, answers)) :
    wp HttpAnswer httpContract (HttpServer.writeAnswer client message answers)
      (fun _ s' => HttpInv s' ∧ httpRely s s') s := by
  change wp HttpAnswer httpContract (if s.queuedServerMessages.isEmpty = true then _ else _) _ s
  rw [wp_ite]
  constructor
  · intro _
    refine wp_http_body hs fun b hb => ?_
    obtain rfl := List.mem_singleton.mp hb
    exact h
  · intro _
    have hclear := shrinks_takeQueue s client
    refine (wp_bind _ _ _ _).mpr ?_
    rw [wp_modify]
    refine wp_http_body (hclear.inv hs) fun b hb hcall => ?_
    rcases List.mem_append.mp hb with hb | hb
    · exact absurd (hs.queuedBody b hb) hcall
    · obtain rfl := List.mem_singleton.mp hb
      exact (h hcall).mono (fun _ ho => ho) (fun _ hr => hr) fun _ he => he

theorem shrinks_dropEntry (s : HttpServer) (k : String) (entry : PendingRequestEntry) :
    Shrinks s (s.dropEntry k entry) where
  tags := ⟨rfl, rfl, rfl, rfl⟩
  pending := by
    intro k' e h
    have h : (s.pendingByRequestId.erase k).lookup k' = some e := h
    by_cases hk : k' = k
    · rw [hk, AList.lookup_erase] at h
      cases h
    · rwa [AList.lookup_erase_ne hk] at h
  queue _ h := h
  log := rfl

/-- Dropping messages of the queue, with or without a record of them. -/
theorem shrinks_enforceQueueBudget (s : HttpServer) : Shrinks s s.enforceQueueBudget := by
  unfold HttpServer.enforceQueueBudget
  dsimp only
  split
  · exact Shrinks.refl s
  · exact ⟨⟨rfl, rfl, rfl, rfl⟩, fun _ _ h => h, fun _ h => List.mem_of_mem_drop h, rfl⟩

/-- The queue with one more message, within its budget. -/
theorem HttpInv.enqueue {s : HttpServer} (hs : HttpInv s) {message : JsonObject}
    (h : IsCall message) : HttpInv (s.enqueue message) := by
  refine (shrinks_enforceQueueBudget _).inv ?_
  exact
    { tags := hs.tags
      keyed := hs.keyed
      routed := fun k e hk => ⟨(hs.routed k e hk).registered, (hs.routed k e hk).only⟩
      queued := by
        intro m hm
        rcases List.mem_append.mp hm with hm | hm
        · exact hs.queued m hm
        · obtain rfl := List.mem_singleton.mp hm
          exact h
      written := hs.written }

theorem enqueue_session (s : HttpServer) (message : JsonObject) :
    (s.enqueue message).session = s.session := by
  unfold HttpServer.enqueue HttpServer.enforceQueueBudget
  dsimp only
  split <;> rfl

/-- Sending a message: an answer must be right for the socket that waits for it,
and anything else must be a call. -/
theorem wp_http_send {s : HttpServer} (hs : HttpInv s) {message : JsonObject}
    {answers : Option RequestTag}
    (hans : ∀ entry, s.pendingByRequestId.lookup (idToString (message.value "id")) = some entry →
      ¬IsCall message → RightAnswer s entry.socket (message, answers))
    (hcall : HttpServer.isAnswer message = false → IsCall message) :
    wp HttpAnswer httpContract (HttpServer.send answers message)
      (fun _ s' => HttpInv s' ∧ httpRely s s') s := by
  refine (wp_ite _ _ _ _ _).mpr ⟨fun _ => keepsHttp_query _ s hs, fun _ => ?_⟩
  rw [wp_ite]
  constructor
  · intro _
    dsimp only
    cases hlook : s.pendingByRequestId.lookup (idToString (message.value "id")) with
    | none => exact ⟨hs, fun _ _ h => h⟩
    | some entry =>
        have hdrop := shrinks_dropEntry s (idToString (message.value "id")) entry
        refine (wp_bind _ _ _ _).mpr ?_
        rw [wp_modify, wp_ite]
        refine ⟨fun _ => ?_, fun _ => ⟨hdrop.inv hs, hdrop.rely⟩⟩
        refine wp_http_writeAnswer (hdrop.inv hs) fun hno => ?_
        exact (hans entry hlook hno).mono (fun _ ho => ho) (fun _ hr => hr) fun _ he => he
  · intro hno
    refine ⟨hs.enqueue (hcall (by simpa using hno)), fun t id h => ?_⟩
    show (s.enqueue message).session.books.Dispatching t id
    rw [enqueue_session]
    exact h

theorem keepsHttp_send {message : JsonObject} (h : IsCall message) (answers : Option RequestTag) :
    KeepsHttp (HttpServer.send answers message) :=
  fun _ hs => wp_http_send hs (fun _ _ hno => absurd h hno) fun _ => h

/-! #### The transport's other slots -/

theorem shrinks_dropEntriesOf (client : SocketId)
    (entries : List (Sigma fun _ : String => PendingRequestEntry)) :
    ∀ s : HttpServer, Shrinks s (HttpServer.dropEntriesOf client entries s) := by
  induction entries with
  | nil => exact Shrinks.refl
  | cons e rest ih =>
      obtain ⟨k, entry⟩ := e
      intro s
      refine Shrinks.trans ?_ (ih _)
      split
      · exact shrinks_dropEntry s k entry
      · exact Shrinks.refl s

theorem keepsHttp_onDisconnected (client : SocketId) :
    KeepsHttp (HttpServer.onDisconnected client) := by
  refine keepsHttp_shrink fun s => ?_
  have hforget : Shrinks s { s with connections := s.connections.erase client } :=
    ⟨⟨rfl, rfl, rfl, rfl⟩, fun _ _ h => h, fun _ h => h, rfl⟩
  exact hforget.trans (shrinks_dropEntriesOf client _ _)

theorem shrinks_eraseEntry (s : HttpServer) (k : String) :
    Shrinks s { s with pendingByRequestId := s.pendingByRequestId.erase k } :=
  ⟨⟨rfl, rfl, rfl, rfl⟩, (shrinks_dropEntry s k ⟨0, 0, 0⟩).pending, fun _ h => h, rfl⟩

theorem keepsHttp_onPendingTimeout (idStr : String) :
    KeepsHttp (HttpServer.onPendingTimeout idStr) := by
  refine keepsHttp_read fun s hs => ?_
  cases s.pendingByRequestId.lookup idStr with
  | none => exact keepsHttp_pure () s hs
  | some entry =>
      refine keepsHttp_bind (keepsHttp_shrink fun s => shrinks_eraseEntry s idStr) (fun _ => ?_) s hs
      refine Contract.Keeps.ite _ (fun _ => ?_) fun _ => keepsHttp_pure ()
      exact keepsHttp_bind (keepsHttp_writeStatus _ _ _ _) fun _ => keepsHttp_disconnectFromHost _

theorem keepsHttp_pendingTimeout (timer : TimerId) :
    KeepsHttp (HttpServer.pendingTimeout timer) := by
  refine keepsHttp_bind (keepsHttp_reads _) fun timers => ?_
  cases timers.lookup timer with
  | none => exact keepsHttp_pure ()
  | some idStr =>
      exact keepsHttp_bind
        (keepsHttp_shrink fun _ => ⟨⟨rfl, rfl, rfl, rfl⟩, fun _ _ h => h, fun _ h => h, rfl⟩)
        fun _ => keepsHttp_onPendingTimeout idStr

theorem keepsHttp_disconnectEntries
    (entries : List (Sigma fun _ : String => PendingRequestEntry)) :
    KeepsHttp (HttpServer.disconnectEntries entries) := by
  induction entries with
  | nil => exact keepsHttp_pure ()
  | cons e rest ih =>
      refine keepsHttp_bind
        (keepsHttp_shrink fun _ => ⟨⟨rfl, rfl, rfl, rfl⟩, fun _ _ h => h, fun _ h => h, rfl⟩)
        fun _ => ?_
      refine keepsHttp_bind (keepsHttp_reads _) fun deleted => ?_
      refine Contract.Keeps.ite _ (fun _ => ih) fun _ => ?_
      exact keepsHttp_bind (keepsHttp_disconnectFromHost _) fun _ => ih

theorem keepsHttp_endSession : KeepsHttp HttpServer.endSession := by
  refine keepsHttp_bind
    (keepsHttp_shrink fun _ => ⟨⟨rfl, rfl, rfl, rfl⟩, fun _ _ h => h, fun _ h => h, rfl⟩)
    fun _ => ?_
  refine keepsHttp_bind (keepsHttp_reads _) fun pending => ?_
  refine keepsHttp_bind (keepsHttp_disconnectEntries _) fun _ => ?_
  refine keepsHttp_bind (keepsHttp_shrink fun s => ?_) fun _ => ?_
  · exact ⟨⟨rfl, rfl, rfl, rfl⟩, fun _ _ h => absurd h (by simp),
      fun _ h => absurd h List.not_mem_nil, rfl⟩
  · refine keepsHttp_bind (keepsHttp_query _) fun sessionId => ?_
    exact keepsHttp_shrink fun _ => ⟨⟨rfl, rfl, rfl, rfl⟩, fun _ _ h => h, fun _ h => h, rfl⟩

theorem keepsHttp_start : KeepsHttp HttpServer.start := by
  refine keepsHttp_bind (keepsHttp_reads _) fun isOpen => ?_
  refine Contract.Keeps.ite _ (fun _ => keepsHttp_pure ()) fun _ => ?_
  refine keepsHttp_bind (keepsHttp_query .listen) fun listening => ?_
  refine Contract.Keeps.ite _ (fun _ => ?_) fun _ => keepsHttp_query _
  exact keepsHttp_shrink fun _ => ⟨⟨rfl, rfl, rfl, rfl⟩, fun _ _ h => h, fun _ h => h, rfl⟩

theorem keepsHttp_abortSockets (clients : List SocketId) :
    KeepsHttp (HttpServer.abortSockets clients) := by
  induction clients with
  | nil => exact keepsHttp_pure ()
  | cons client rest ih =>
      refine keepsHttp_bind
        (keepsHttp_shrink fun _ => ⟨⟨rfl, rfl, rfl, rfl⟩, fun _ _ h => h, fun _ h => h, rfl⟩)
        fun _ => ?_
      exact keepsHttp_bind (keepsHttp_query (.abort client)) fun _ => ih

theorem shrinks_accept (count : Nat) : ∀ s : HttpServer, Shrinks s (HttpServer.accept^[count] s) := by
  induction count with
  | zero => exact Shrinks.refl
  | succ count ih =>
      intro s
      rw [Function.iterate_succ_apply]
      have haccept : Shrinks s s.accept :=
        ⟨⟨rfl, rfl, rfl, rfl⟩, fun _ _ h => h, fun _ h => h, rfl⟩
      exact haccept.trans (ih _)

/-! ### The session's code -/

/-- An update of the session that leaves the tags alone. -/
theorem keepsHttp_update {f : Session → Session}
    (h : ∀ s : Session, s.books.SameTags (f s).books) :
    KeepsHttp (HttpServer.host.modify f) :=
  keepsHttp_shrink fun s => ⟨h s.session, fun _ _ h => h, fun _ h => h, rfl⟩

theorem http_quiet : SessionHost.Quiet HttpServer.host HttpAnswer httpContract where
  toPreorder := httpContract_preorder
  send _ h := keepsHttp_send h none
  abandon _ := keepsHttp_pure ()
  emit signal := keepsHttp_query (.emit signal)
  notify method params := keepsHttp_query (.notify method params)
  progress token progress total message := keepsHttp_query (.progress token progress total message)
  update _ hb _ := keepsHttp_update fun s => .of_eq (hb s)

theorem keepsHttp_stop : KeepsHttp HttpServer.stop := by
  refine keepsHttp_read fun s hs => ?_
  refine Contract.Keeps.ite _ (fun _ => ?_) (fun _ => keepsHttp_pure ()) s hs
  refine keepsHttp_bind
    (keepsHttp_shrink fun _ => ⟨⟨rfl, rfl, rfl, rfl⟩, fun _ _ h => h, fun _ h => h, rfl⟩)
    fun _ => ?_
  refine keepsHttp_bind (keepsHttp_abortSockets _) fun _ => ?_
  refine keepsHttp_bind (keepsHttp_shrink fun s => ?_) fun _ => http_quiet.abortPending _
  exact ⟨⟨rfl, rfl, rfl, rfl⟩,
    fun _ _ h => absurd h (by simp [HttpServer.clearPending, HttpServer.discardQueue]),
    fun _ h => absurd h List.not_mem_nil, rfl⟩

theorem applyCancelled_sameTags (params : JsonObject) (s : Session) :
    s.books.SameTags (SessionHost.applyCancelled params s).books := by
  have hmark : ∀ k, s.books.SameTags (s.markCancelled k).books := by
    intro k
    unfold Session.markCancelled
    split
    · exact ⟨rfl, rfl, rfl, rfl⟩
    · exact ⟨rfl, rfl, rfl, rfl⟩
  unfold SessionHost.applyCancelled
  dsimp only
  split
  · exact ⟨rfl, rfl, rfl, rfl⟩
  · split
    · exact hmark _
    · rename_i p _
      have hdrop := dropPending_books (s.markCancelled (idToString (params.value "requestId")))
        (idToString (params.value "requestId")) p
      exact (congrArg (s.books.SameTags ·) hdrop).mpr (hmark _)

theorem keepsHttp_runNotifyHandler (method : String) (params : JsonObject)
    (handler : Option NotifyHandler) :
    KeepsHttp (HttpServer.host.runNotifyHandler method params handler) := by
  by_cases h : handler = some .cancelled
  · subst h
    exact keepsHttp_update (applyCancelled_sameTags params)
  · exact http_quiet.runNotifyHandler method params h

/-- A notification that arrives leaves the tags alone, whatever it cancels. -/
theorem notified_sameTags (method : String) (params : JsonObject) (s : Session) :
    s.books.SameTags (s.observe (.notified method params)).books := by
  have hledger : ledger (.notified method params :: s.history) =
      if method = Method.cancelled then (ledger s.history).cancel (params.value "requestId")
      else ledger s.history := rfl
  refine ⟨?_, ?_, rfl, rfl⟩
  · show (ledger (.notified method params :: s.history)).received = _
    rw [hledger]
    split <;> rfl
  · show (ledger (.notified method params :: s.history)).ends = _
    rw [hledger]
    split <;> rfl

theorem keepsHttp_dispatchNotification (message : JsonObject) :
    KeepsHttp (HttpServer.host.dispatchNotification message) := by
  refine keepsHttp_bind (keepsHttp_update (notified_sameTags _ _)) fun _ => ?_
  refine keepsHttp_bind (keepsHttp_reads _) fun handlers => ?_
  exact keepsHttp_bind (keepsHttp_runNotifyHandler _ _ _) fun _ => keepsHttp_query _

/-! #### Answers -/

/-- An id filed under a string is a string or a number. -/
theorem id_of_key {id : JsonValue} (h : idToString id ≠ "") :
    id.isUndefined = false ∧ id.isNull = false := by
  cases id with
  | str s => exact ⟨rfl, rfl⟩
  | num d => exact ⟨rfl, rfl⟩
  | undefined => exact absurd rfl h
  | null => exact absurd rfl h
  | bool b => exact absurd rfl h
  | arr xs => exact absurd rfl h
  | obj fields => exact absurd rfl h

/-- A message of three fields has the id it was made with. -/
theorem ofFields_id {id v : JsonValue} {key : String} (hid : id.isUndefined = false)
    (hkey : key ≠ "id") :
    JsonObject.value (JsonObject.ofFields [("jsonrpc", .str "2.0"), ("id", id), (key, v)]) "id" = id ∧
      JsonObject.contains
        (JsonObject.ofFields [("jsonrpc", .str "2.0"), ("id", id), (key, v)]) "id" = true := by
  unfold JsonObject.ofFields
  rw [List.foldl_cons, List.foldl_cons, List.foldl_cons, List.foldl_nil]
  constructor
  · rw [JsonObject.value_insert_ne _ _ hkey, JsonObject.value_insert_self _ _ hid]
  · rw [JsonObject.contains_insert_ne _ _ hkey, JsonObject.contains_insert _ _ _ hid]
    rfl

theorem errorMessage_id {id : JsonValue} (h : id.isUndefined = false) (answer : ErrorAnswer) :
    (errorMessage id answer).value "id" = id ∧ (errorMessage id answer).contains "id" = true := by
  unfold errorMessage
  exact ofFields_id h (by decide)

theorem answerMessage_id {id : JsonValue} (h : id.isUndefined = false) (how : HandlerEnd) :
    (answerMessage id how).value "id" = id ∧ (answerMessage id how).contains "id" = true := by
  cases how with
  | noHandler method => exact errorMessage_id h _
  | threw e => exact errorMessage_id h _
  | finished outcome =>
      cases outcome with
      | result v => exact ofFields_id h (by decide)
      | exception e => exact errorMessage_id h _
      | cancelled => exact errorMessage_id h _

/-- With a proper id, what `send` does not take for an answer is a call. -/
theorem isCall_of_isAnswer_false {message : JsonObject} {id : JsonValue}
    (hm : message.value "id" = id ∧ message.contains "id" = true) (hid : id.isNull = false)
    (h : HttpServer.isAnswer message = false) : IsCall message := by
  unfold HttpServer.isAnswer at h
  rw [hm.1, hm.2, hid] at h
  simpa [IsCall] using h

/-- A request ended: nothing in flight is changed but that it is gone. -/
theorem HttpInv.leaveFlight {s : HttpServer} (hs : HttpInv s) {t : RequestTag} {id : JsonValue}
    (hd : s.session.books.Dispatching t id) (how : HandlerEnd) :
    HttpInv { s with session := s.session.leaveFlight t (idToString id) how } where
  tags := hs.tags.finish hd how rfl rfl rfl rfl
  keyed := hs.keyed
  routed := by
    intro k entry hk
    obtain ⟨hreg, honly⟩ := hs.routed k entry hk
    exact ⟨hreg, fun r hr hkr => honly r (Ledger.mem_live_finish.mp hr).1 hkr⟩
  queued := hs.queued
  written := by
    intro client response hw b hb hcall
    exact (hs.written client response hw b hb hcall).mono (fun _ ho => ho) (fun _ hr => hr)
      fun _ he => List.mem_cons_of_mem _ he

/-- The other requests stay as they are when one ends. -/
theorem dispatching_leaveFlight {s : Session} {t t' : RequestTag} {idStr : String}
    {how : HandlerEnd} {id' : JsonValue} (hne : t' ≠ t) (h : s.books.Dispatching t' id') :
    (s.leaveFlight t idStr how).books.Dispatching t' id' :=
  ⟨Ledger.mem_live_finish.mpr ⟨h.1, hne⟩, h.2⟩

/-- Answering a request that ended: whoever waits under its string is the one that
asked. -/
theorem wp_http_answer {s : HttpServer} {t : RequestTag} {id : JsonValue} (how : HandlerEnd)
    (hs : HttpInv s) (hd : s.session.books.Dispatching t id) {Q : Unit → HttpServer → Prop}
    (hQ : ∀ s', HttpInv s' → (∀ t' id', t' ≠ t → s.session.books.Dispatching t' id' →
      s'.session.books.Dispatching t' id') → Q () s') :
    wp HttpAnswer httpContract
      (do HttpServer.host.leaveFlight t (idToString id) how
          if ← Proc.reads (S := HttpSig) HttpServer.host.isOpen then
            HttpServer.host.send (some t) (answerMessage id how)) Q s := by
  obtain ⟨hundef, hnull⟩ := id_of_key (hs.keyed _ (Ledger.mem_live.mp hd.1).1)
  have hm := answerMessage_id hundef how
  have hs₁ := hs.leaveFlight hd how
  have hrest : ∀ t' id', t' ≠ t → s.session.books.Dispatching t' id' →
      (s.session.leaveFlight t (idToString id) how).books.Dispatching t' id' :=
    fun _ _ hne h => dispatching_leaveFlight hne h
  refine (wp_bind _ _ _ _).mpr ?_
  change wp HttpAnswer httpContract (if s.isOpen = true then _ else _) Q _
  rw [wp_ite]
  refine ⟨fun _ => ?_, fun _ => hQ _ hs₁ hrest⟩
  refine wp_mono (wp_http_send hs₁ (fun entry hk _ => ?_) fun h => ?_) fun _ s' h => ?_
  · rw [hm.1] at hk
    obtain ⟨⟨msg, hreg, _, hrec⟩, honly⟩ := hs.routed _ entry hk
    have htag : t = entry.tag := honly _ hd.1 rfl
    subst htag
    have hid : msg.value "id" = id :=
      congrArg Prod.snd (hs.tags.eq_of_received hrec (Ledger.mem_live.mp hd.1).1 rfl)
    subst hid
    exact ⟨entry.tag, msg, how, rfl, hreg, hrec, List.mem_cons_self, rfl⟩
  · exact isCall_of_isAnswer_false hm hnull h
  · exact hQ s' h.1 fun t' id' hne hd' => h.2 t' id' (hrest t' id' hne hd')

theorem shrinks_clearProgressToken (s : HttpServer) :
    Shrinks s { s with session := s.session.clearProgressToken } :=
  ⟨⟨rfl, rfl, rfl, rfl⟩, fun _ _ h => h, fun _ h => h, rfl⟩

/-- Dispatching a request, from the state in which it has been received. -/
theorem wp_http_dispatchRequest {s : HttpServer} (message : JsonObject)
    (hs : ∀ token, HttpInv { s with session := s.session.receive (message.value "id") token })
    (hnew : s.session.watchers.lookup s.session.nextTag = none)
    (hlive : (s.session.nextTag, message.value "id") ∈
      (s.session.books.ledger.receive s.session.nextTag (message.value "id")).live)
    (hkeep : ∀ t id, s.session.books.Dispatching t id → t ≠ s.session.nextTag ∧
      (t, id) ∈ (s.session.books.ledger.receive s.session.nextTag (message.value "id")).live) :
    wp HttpAnswer httpContract (HttpServer.host.dispatchRequest message)
      (fun _ s' => HttpInv s' ∧ httpRely s s') s := by
  refine ⟨hs _, fun s₁ hr₁ hi₁ _ _ => ?_⟩
  have hd₁ : s₁.session.books.Dispatching s.session.nextTag (message.value "id") :=
    hr₁ _ _ ⟨hlive, hnew⟩
  have hi₁ : HttpInv s₁ := hi₁
  have hold₁ : ∀ t id, s.session.books.Dispatching t id → t ≠ s.session.nextTag ∧
      s₁.session.books.Dispatching t id := by
    intro t id h
    exact ⟨(hkeep t id h).1, hr₁ t id ⟨(hkeep t id h).2, h.2⟩⟩
  refine (wp_ite _ _ _ _ _).mpr ⟨fun _ => ?_, fun _ => ?_⟩
  · refine ⟨hi₁, fun s₂ hr₂ hi₂ answer _ => ?_⟩
    have hd₂ : s₂.session.books.Dispatching s.session.nextTag (message.value "id") := hr₂ _ _ hd₁
    have hi₂ : HttpInv s₂ := hi₂
    cases answer with
    | error e =>
        have hclear := shrinks_clearProgressToken s₂
        refine wp_http_answer (.threw e) (hclear.inv hi₂) hd₂ fun s₃ hi₃ hr₃ => ⟨hi₃, ?_⟩
        intro t id h
        obtain ⟨hne, h₁⟩ := hold₁ t id h
        exact hr₃ t id hne (hr₂ t id h₁)
    | ok u =>
        refine ⟨⟨hi₂.tags.watch hd₂.1, hi₂.keyed, fun k entry hk => ?_, hi₂.queued, ?_⟩,
          fun t id h => ?_⟩
        · exact ⟨(hi₂.routed k entry hk).registered, (hi₂.routed k entry hk).only⟩
        · exact hi₂.written
        · obtain ⟨hne, h₁⟩ := hold₁ t id h
          obtain ⟨hl, hw⟩ := hr₂ t id h₁
          exact ⟨hl, (AList.lookup_insert_ne hne).trans hw⟩
  · have hclear := shrinks_clearProgressToken s₁
    refine wp_http_answer (.noHandler _) (hclear.inv hi₁) hd₁ fun s₃ hi₃ hr₃ => ⟨hi₃, ?_⟩
    intro t id h
    obtain ⟨hne, h₁⟩ := hold₁ t id h
    exact hr₃ t id hne h₁

theorem keepsHttp_handlerFinished (t : RequestTag) (outcome : FutureEnd) :
    KeepsHttp (HttpServer.host.handlerFinished t outcome) := by
  intro s hs
  have hs : HttpInv s := hs
  refine Contract.KeepsAt.reads ?_
  have hsession : HttpServer.host.session s = s.session := rfl
  dsimp only
  rw [hsession]
  cases hw : s.session.watchers.lookup t with
  | none => exact ⟨hs, fun _ _ h => h⟩
  | some w =>
      obtain ⟨hlive, hkey⟩ := hs.tags.watched t w hw
      -- without its watcher the request is being dispatched again
      have hi : HttpInv { s with session := s.session.unwatch t } :=
        ⟨hs.tags.unwatch t, hs.keyed,
          fun k entry hk => ⟨(hs.routed k entry hk).registered, (hs.routed k entry hk).only⟩,
          hs.queued, hs.written⟩
      have hd : (s.session.unwatch t).books.Dispatching t w.idValue :=
        ⟨hlive, AList.lookup_erase _ _⟩
      have hrest : ∀ t' id', s.session.books.Dispatching t' id' →
          t' ≠ t ∧ (s.session.unwatch t).books.Dispatching t' id' :=
        fun t' id' h => ⟨h.ne hw, Session.dispatching_unwatch h (h.ne hw)⟩
      change wp HttpAnswer httpContract
        (if (!w.idStr.isEmpty && decide (w.idStr ∈ s.session.cancelledIncomingIds)) = true then _
          else _) _ { s with session := s.session.unwatch t }
      rw [hkey]
      refine (wp_ite _ _ _ _ _).mpr ⟨fun _ => ?_, fun _ => ?_⟩
      · -- the mark is taken back, and nothing is sent
        have hmark : Shrinks { s with session := s.session.unwatch t }
            { s with session := { s.session.unwatch t with
                cancelledIncomingIds :=
                  s.session.cancelledIncomingIds.erase (idToString w.idValue) } } :=
          ⟨⟨rfl, rfl, rfl, rfl⟩, fun _ _ h => h, fun _ h => h, rfl⟩
        refine ⟨(hmark.inv hi).leaveFlight (hmark.tags.dispatching hd) (.finished outcome), ?_⟩
        exact fun t' id' h => dispatching_leaveFlight (hrest t' id' h).1
          (hmark.tags.dispatching (hrest t' id' h).2)
      · cases outcome with
        | result v =>
            exact wp_http_answer (.finished (.result v)) hi hd fun s' hi' hr' =>
              ⟨hi', fun t' id' h => hr' t' id' (hrest t' id' h).1 (hrest t' id' h).2⟩
        | exception e =>
            exact wp_http_answer (.finished (.exception e)) hi hd fun s' hi' hr' =>
              ⟨hi', fun t' id' h => hr' t' id' (hrest t' id' h).1 (hrest t' id' h).2⟩
        | cancelled =>
            exact ⟨hi.leaveFlight hd (.finished .cancelled), fun t' id' h =>
              dispatching_leaveFlight (hrest t' id' h).1 (hrest t' id' h).2⟩

/-! ### Requests that are read -/

/-- The entry made for a request that the session has received. -/
theorem HttpInv.register {s : HttpServer} (hs : HttpInv s) {client : SocketId} {msg : JsonObject}
    (hkey : idToString (msg.value "id") ≠ "")
    (hfresh : ∀ r ∈ s.session.books.ledger.live, idToString r.2 ≠ idToString (msg.value "id"))
    (token : String) :
    HttpInv { HttpServer.register client msg s with
      session := s.session.receive (msg.value "id") token } := by
  have hlive : ∀ r, r ∈ (s.session.books.ledger.receive s.session.nextTag (msg.value "id")).live ↔
      r = (s.session.nextTag, msg.value "id") ∨ r ∈ s.session.books.ledger.live :=
    fun r => Ledger.mem_live_receive hs.tags.fresh_not_ended
  constructor
  · exact hs.tags.receive (msg.value "id") rfl rfl rfl rfl
  · intro r hr
    rcases List.mem_cons.mp hr with rfl | hr
    · exact hkey
    · exact hs.keyed r hr
  · intro k entry hk
    have hk : (s.pendingByRequestId.insert (idToString (msg.value "id"))
      ⟨client, s.nextTimer, s.session.nextTag⟩).lookup k = some entry := hk
    by_cases h : k = idToString (msg.value "id")
    · subst h
      rw [AList.lookup_insert] at hk
      obtain rfl := Option.some.inj hk
      refine ⟨⟨msg, List.mem_cons_self, rfl, List.mem_cons_self⟩, fun r hr hkr => ?_⟩
      rcases (hlive r).mp hr with rfl | hr
      · rfl
      · exact absurd hkr (hfresh r hr)
    · rw [AList.lookup_insert_ne h] at hk
      obtain ⟨⟨msg', hreg, hid, hrec⟩, honly⟩ := hs.routed k entry hk
      refine ⟨⟨msg', List.mem_cons_of_mem _ hreg, hid, List.mem_cons_of_mem _ hrec⟩,
        fun r hr hkr => ?_⟩
      rcases (hlive r).mp hr with rfl | hr
      · exact absurd hkr.symm h
      · exact honly r hr hkr
  · exact hs.queued
  · intro client' response hw b hb hcall
    rcases List.mem_cons.mp hw with heq | hw
    · cases heq
    · exact (hs.written client' response hw b hb hcall).mono
        (fun _ ho => List.mem_cons_of_mem _ ho) (fun _ hr => List.mem_cons_of_mem _ hr)
        fun _ he => he

theorem wp_http_register {s : HttpServer} (hs : HttpInv s) {client : SocketId} {msg : JsonObject}
    (hver : (msg.value "jsonrpc").toString = "2.0") (hreq : classify msg = .request)
    (hkey : idToString (msg.value "id") ≠ "")
    (hfresh : ∀ r ∈ s.session.books.ledger.live, idToString r.2 ≠ idToString (msg.value "id")) :
    wp HttpAnswer httpContract (HttpServer.host.onMessageReceived msg)
      (fun _ s' => HttpInv s' ∧ httpRely s s') (HttpServer.register client msg s) := by
  have hlive : ∀ r, r ∈ (s.session.books.ledger.receive s.session.nextTag (msg.value "id")).live ↔
      r = (s.session.nextTag, msg.value "id") ∨ r ∈ s.session.books.ledger.live :=
    fun r => Ledger.mem_live_receive hs.tags.fresh_not_ended
  unfold SessionHost.onMessageReceived
  rw [if_neg (not_not.mpr hver), hreq]
  exact wp_http_dispatchRequest (s := HttpServer.register client msg s) msg
    (hs.register hkey hfresh) hs.tags.fresh_not_watched ((hlive _).mpr (Or.inl rfl))
    fun t id h => ⟨(hs.tags.live_lt h.1).ne, (hlive _).mpr (Or.inr h.1)⟩

/-- A message that is no request; one that cannot be classified has an id nobody
waits for. -/
theorem wp_http_other {s : HttpServer} (hs : HttpInv s) {msg : JsonObject}
    (hno : classify msg ≠ .request)
    (hinv : classify msg = .invalid → (msg.value "id").isNull = false ∧
      (msg.value "id").isUndefined = false ∧
      s.pendingByRequestId.lookup (idToString (msg.value "id")) = none) :
    wp HttpAnswer httpContract (HttpServer.host.onMessageReceived msg)
      (fun _ s' => HttpInv s' ∧ httpRely s s') s := by
  unfold SessionHost.onMessageReceived
  refine (wp_ite _ _ _ _ _).mpr ⟨fun _ => keepsHttp_query _ s hs, fun _ => ?_⟩
  cases hk : classify msg with
  | request => exact absurd hk hno
  | notification => exact keepsHttp_dispatchNotification msg s hs
  | response => exact http_quiet.dispatchResponse msg s hs
  | invalid =>
      obtain ⟨hnull, hundef, hnone⟩ := hinv hk
      have hm := errorMessage_id hundef ⟨ErrorCode.invalidRequest, "Invalid Request", .null⟩
      refine (wp_bind _ _ _ _).mpr ?_
      have herror : wp HttpAnswer httpContract (HttpServer.host.sendError none (msg.value "id")
          ⟨ErrorCode.invalidRequest, "Invalid Request", .null⟩)
          (fun _ s' => HttpInv s' ∧ httpRely s s') s := by
        change wp HttpAnswer httpContract (if s.isOpen = true then _ else _) _ s
        refine (wp_ite _ _ _ _ _).mpr ⟨fun _ => ?_, fun _ => ⟨hs, fun _ _ h => h⟩⟩
        refine wp_http_send hs (fun entry hentry _ => ?_) (isCall_of_isAnswer_false hm hnull)
        rw [hm.1, hnone] at hentry
        cases hentry
      refine wp_mono herror fun _ s₁ h₁ => ?_
      exact (keepsHttp_query _).wp h₁.1 fun _ s₂ h₂ hr₂ =>
        ⟨h₂, fun t id h => hr₂ t id (h₁.2 t id h)⟩

theorem postedMessage_version {req : HttpRequest} {msg : JsonObject}
    (h : HttpServer.postedMessage req = some msg) : (msg.value "jsonrpc").toString = "2.0" := by
  unfold HttpServer.postedMessage at h
  split at h
  · split at h
    · rename_i hver
      obtain rfl := Option.some.inj h
      exact hver
    · cases h
  · cases h

theorem wp_http_processMessage {s : HttpServer} (hs : HttpInv s) (client : SocketId)
    {msg : JsonObject} (hver : (msg.value "jsonrpc").toString = "2.0")
    (hreq : classify msg = .request →
      s.pendingByRequestId.lookup (idToString (msg.value "id")) = none →
      ∀ r ∈ s.session.books.ledger.live, idToString r.2 ≠ idToString (msg.value "id"))
    (hinv : classify msg = .invalid → (msg.value "id").isNull = false ∧
      (msg.value "id").isUndefined = false ∧
      s.pendingByRequestId.lookup (idToString (msg.value "id")) = none) :
    wp HttpAnswer httpContract (HttpServer.processMessage client msg)
      (fun _ s' => HttpInv s' ∧ httpRely s s') s := by
  refine (wp_ite _ _ _ _ _).mpr ⟨fun hk => ?_, fun hk => ?_⟩
  · refine (wp_ite _ _ _ _ _).mpr ⟨fun _ => keepsHttp_respondWithStatus _ _ _ s hs, fun hkey => ?_⟩
    refine (wp_ite _ _ _ _ _).mpr ⟨fun _ => keepsHttp_respondWithStatus _ _ _ s hs, fun hno => ?_⟩
    have hnone : s.pendingByRequestId.lookup (idToString (msg.value "id")) = none := by
      simpa using hno
    exact wp_http_register hs hver hk (fun h => hkey (String.isEmpty_iff.mpr h)) (hreq hk hnone)
  · refine (wp_bind _ _ _ _).mpr ?_
    refine wp_mono (wp_http_other hs hk hinv) fun _ s₁ h₁ => ?_
    exact (keepsHttp_writeAckOrQueuedMessages client).wp h₁.1 fun _ s₂ h₂ hr₂ =>
      ⟨h₂, fun t id h => hr₂ t id (h₁.2 t id h)⟩

theorem wp_http_processRequest {s : HttpServer} (hs : HttpInv s) (client : SocketId)
    {req : HttpRequest} (hfresh : FreshPost s req) :
    wp HttpAnswer httpContract (HttpServer.processRequest client req)
      (fun _ s' => HttpInv s' ∧ httpRely s s') s := by
  refine (wp_ite _ _ _ _ _).mpr ⟨fun _ => ?_, fun hmethod => ?_⟩
  · exact keepsHttp_bind (keepsHttp_writeStatus _ _ _ _)
      (fun _ => keepsHttp_disconnectFromHost client) s hs
  · cases hrej : s.rejection req with
    | some rejected => exact keepsHttp_respondWithStatus client rejected.1 rejected.2 s hs
    | none =>
        refine (wp_ite _ _ _ _ _).mpr ⟨fun _ => ?_, fun hdelete => ?_⟩
        · refine Contract.Keeps.ite _ (fun _ => keepsHttp_respondWithStatus _ _ _) (fun _ => ?_) s hs
          exact keepsHttp_bind keepsHttp_endSession fun _ => keepsHttp_respondWithStatus _ _ _
        · have hpost : req.method = "POST" := by
            by_contra hne
            exact hmethod ⟨hne, hdelete⟩
          cases hmsg : HttpServer.postedMessage req with
          | none => exact keepsHttp_respondWithStatus _ _ _ s hs
          | some msg =>
              obtain ⟨hreq, hinv⟩ := hfresh msg hpost hrej hmsg
              exact wp_http_processMessage hs client (postedMessage_version hmsg) hreq hinv

theorem keepsHttp_readLoop (client : SocketId) : KeepsHttp (HttpServer.readLoop client) := by
  intro s hs
  refine ⟨hs, fun s₁ hr₁ hi₁ result ha => ?_⟩
  have hi₁ : HttpInv s₁ := hi₁
  have hstatus : ∀ status reason, wp HttpAnswer httpContract
      (HttpServer.respondWithStatus client status reason)
      (fun _ s' => HttpInv s' ∧ httpRely s s') s₁ := by
    intro status reason
    exact (keepsHttp_respondWithStatus client status reason).wp hi₁ fun _ s₂ h₂ hr₂ =>
      ⟨h₂, fun t id h => hr₂ t id (hr₁ t id h)⟩
  cases result with
  | needMoreData => exact ⟨hi₁, hr₁⟩
  | complete req =>
      refine (wp_bind (HttpServer.processRequest client req) _ _ _).mpr ?_
      refine wp_mono (wp_http_processRequest (hi₁.read client req) client ha) fun _ s₂ h₂ => ?_
      have hnext : KeepsHttp (do
          let s ← Proc.read (S := HttpSig)
          if client ∈ s.connections ∧ client ∈ s.connected then
            Proc.invoke (S := HttpSig) (.readLoop client)
          else
            pure ()) :=
        keepsHttp_read fun s hs =>
          Contract.Keeps.ite _ (fun _ => keepsHttp_invoke _) (fun _ => keepsHttp_pure ()) s hs
      exact hnext.wp h₂.1 fun _ s₃ h₃ hr₃ =>
        ⟨h₃, fun t id h => hr₃ t id (h₂.2 t id (hr₁ t id h))⟩
  | headerOverflow => exact hstatus _ _
  | bodyTooLarge => exact hstatus _ _
  | invalidContentLength => exact hstatus _ _
  | invalidRequestLine => exact hstatus _ _

/-! ### Runs -/

theorem keepsHttp_entry (ev : HttpEvent) : KeepsHttp (httpEntry ev) := by
  have hlost : ∀ client, KeepsHttp (Proc.modify (S := HttpSig) fun s =>
      { s with connected := s.connected.erase client }) :=
    fun _ => keepsHttp_shrink fun _ => ⟨⟨rfl, rfl, rfl, rfl⟩, fun _ _ h => h, fun _ h => h, rfl⟩
  cases ev with
  | session c =>
      exact http_quiet.call (fun _ _ => keepsHttp_update fun _ => ⟨rfl, rfl, rfl, rfl⟩)
        fun tag outcome _ => keepsHttp_handlerFinished tag outcome
  | start => exact keepsHttp_start
  | stop => exact keepsHttp_stop
  | newConnection count => exact keepsHttp_shrink (shrinks_accept count)
  | readyRead client =>
      refine keepsHttp_bind (keepsHttp_reads _) fun subscribed => ?_
      refine Contract.Keeps.ite _ (fun _ => ?_) fun _ => keepsHttp_pure ()
      refine keepsHttp_bind (keepsHttp_reads _) fun connections => ?_
      exact Contract.Keeps.ite _ (fun _ => keepsHttp_invoke _) fun _ => keepsHttp_pure ()
  | connectionLost client => exact hlost client
  | disconnected client =>
      refine keepsHttp_bind (hlost client) fun _ => ?_
      refine keepsHttp_bind (keepsHttp_reads _) fun subscribed => ?_
      exact Contract.Keeps.ite _ (fun _ => keepsHttp_onDisconnected client)
        fun _ => keepsHttp_pure ()
  | socketDeleted client =>
      exact keepsHttp_shrink fun _ => ⟨⟨rfl, rfl, rfl, rfl⟩, fun _ _ h => h, fun _ h => h, rfl⟩
  | pendingTimeout timer => exact keepsHttp_pendingTimeout timer

/-- The surroundings read only requests that meet the condition. -/
def freshPosts : Surroundings httpMachine := .guarded httpMachine (fun _ _ => True) HttpAnswer

theorem http_valid : httpContract.Valid freshPosts :=
  Contract.Valid.of_guarded httpContract_preorder (fun s ev hs _ => keepsHttp_entry ev s hs)
    fun f s hs => match f with
      | .readLoop client => keepsHttp_readLoop client s hs

theorem httpInv_init (config : HttpServerConfig) (sessionId : String) :
    HttpInv { config, sessionId } where
  tags := .empty
  keyed _ h := absurd h List.not_mem_nil
  routed _ _ h := absurd h (by simp)
  queued _ h := absurd h List.not_mem_nil
  written _ _ h := absurd h List.not_mem_nil

/-- In every run whose requests meet the condition, a response message goes to the
socket its request was read from. -/
theorem http_right_socket (config : HttpServerConfig) (sessionId : String) {c : Config HttpSig}
    (hrun : Reaches freshPosts (.idle { config, sessionId }) c) (hw : c.Waiting) :
    RightSocket c.state := by
  have hinv : HttpInv c.state := http_valid.waiting (httpInv_init config sessionId) hrun hw
  exact hinv.written

/-- A `POST` of the request with id `"1"`. -/
def postOne : HttpRequest :=
  { method := "POST", target := "/mcp", body := some (.obj (requestMessage "1" "ask" [])) }

/-- Every call-out returns; a socket's parser finds what `parsed` says. -/
def HttpOut.returns (parsed : ParseResult) : (e : HttpOut) → e.Ans
  | .parseNext _ => parsed
  | .listen => true
  | .createUuid => "next"
  | .handle .. => .ok ()
  | .flush _ | .disconnectFromHost _ | .abort _ | .errorOccurred _ | .emit _ | .notify ..
  | .progress .. => ()

/-- A request is read from socket `client`, and its handler returns a future. -/
def askMoves (client : SocketId) : List (Move httpMachine) :=
  [.event (.readyRead client), .answer (HttpOut.returns (.complete postOne)),
    .answer (HttpOut.returns .needMoreData), .answer (HttpOut.returns .needMoreData),
    .answer (HttpOut.returns .needMoreData)]

/-- The server starts, takes two connections and has a handler. -/
def startMoves : List (Move httpMachine) :=
  [.event .start, .answer (HttpOut.returns .needMoreData), .event (.newConnection 2),
    .event (.session (.setRequestHandler "ask" true))]

/-- The future of a handler finishes, and its answer is written. -/
def finishMoves (tag : RequestTag) : List (Move httpMachine) :=
  [.event (.session (.handlerFinished tag (.result (.str "yes")))),
    .answer (HttpOut.returns .needMoreData), .answer (HttpOut.returns .needMoreData)]

theorem freshPost_one {s : HttpServer} (h : s.session.books.ledger.live = []) :
    FreshPost s postOne := by
  intro msg _ _ hmsg
  refine ⟨fun _ _ r hr => ?_, fun hk => ?_⟩
  · rw [h] at hr
    exact absurd hr List.not_mem_nil
  · obtain rfl : requestMessage "1" "ask" [] = msg := Option.some.inj hmsg
    exact absurd hk (by decide)

theorem http_right_socket_asked :
    ∃ c : Config HttpSig, c.Waiting ∧ RightSocket c.state ∧
      HttpObservation.registered 0 0 (requestMessage "1" "ask" []) ∈ c.state.log := by
  have hplay : Playable freshPosts 2 (startMoves ++ askMoves 0 ++ finishMoves 0) (.idle {}) :=
    ⟨trivial, trivial, trivial, trivial, trivial, freshPost_one rfl, trivial, trivial, trivial,
      trivial, trivial, trivial, trivial⟩
  have hw : (play httpMachine 2 (startMoves ++ askMoves 0 ++ finishMoves 0) (.idle {})).Waiting :=
    Or.inl rfl
  exact ⟨_, hw, http_right_socket {} "" (reaches_play hplay) hw,
    List.mem_cons_of_mem _ List.mem_cons_self⟩

/-- The first client disconnects while its request is being handled, the second asks
under the same id, and gets the first one's answer. -/
theorem http_answer_of_earlier_request :
    ∃ s : HttpServer, Reaches (Surroundings.any httpMachine) (.idle {}) (.idle s) ∧
      HttpObservation.registered 0 0 (requestMessage "1" "ask" []) ∈ s.log ∧
      HttpObservation.registered 1 1 (requestMessage "1" "ask" []) ∈ s.log ∧
      (∃ response, HttpObservation.wrote 1 response ∈ s.log ∧
        response.body = [(resultMessage (.str "1") (.str "yes"), some 0)]) ∧
      ¬RightSocket s := by
  have hplay : Playable (Surroundings.any httpMachine) 2
      (startMoves ++ askMoves 0 ++ .event (.disconnected 0) :: askMoves 1 ++ finishMoves 0)
      (.idle {}) :=
    ⟨trivial, trivial, trivial, trivial, trivial, trivial, trivial, trivial, trivial, trivial,
      trivial, trivial, trivial, trivial, trivial, trivial, trivial, trivial, trivial⟩
  refine ⟨_, reaches_play hplay, ?_, ?_, ⟨_, List.mem_cons_self, rfl⟩, fun h => ?_⟩
  · exact List.mem_cons_of_mem _ (List.mem_cons_of_mem _ (List.mem_cons_of_mem _
      List.mem_cons_self))
  · exact List.mem_cons_of_mem _ List.mem_cons_self
  · have hno : ¬IsCall (resultMessage (.str "1") (.str "yes")) := by decide
    obtain ⟨tag, msg, how, htag, hreg, _⟩ := h 1 _ List.mem_cons_self _ List.mem_cons_self hno
    obtain rfl := Option.some.inj htag
    -- none of the five observations registers the first request with the second socket
    rcases List.mem_cons.mp hreg with heq | hreg
    · cases heq
    rcases List.mem_cons.mp hreg with heq | hreg
    · cases heq
    rcases List.mem_cons.mp hreg with heq | hreg
    · cases heq
    rcases List.mem_cons.mp hreg with heq | hreg
    · cases heq
    rcases List.mem_cons.mp hreg with heq | hreg
    · cases heq
    · exact absurd hreg List.not_mem_nil

end LLMQore.Mcp
