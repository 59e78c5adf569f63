import LLMQore.Mcp.HttpServerRouting
import LLMQore.Reentrant.History
import LLMQore.Streaming.Fifo

/-!
# LLMQore.Mcp.HttpServerQueue

The queue of the messages the server starts is a bounded FIFO.

Two places empty the queue to write it to a socket. `send` does so for an answer once it has
seen that the socket is connected; the acknowledgement of a notification does not look at its
socket, which may have been closed while the notification was handled. What is in the queue
then is lost. `BoundedFifo` is what the queue is for, and `bounded_fifo` says that it
holds exactly as long as no acknowledgement has lost messages so.
-/

namespace LLMQore.Mcp

open Reentrant Rpc

/-! ### What holds of the queue -/

namespace QueueObservation

/-- What is done to the queue; messages that are lost are not passed on. -/
def op : QueueObservation → Fifo.Op JsonObject
  | .queued message => .put message
  | .overflowed message => .overflow message
  | .flushed _ messages => .flush messages
  | .lost _ messages => .clear messages
  | .discarded messages => .clear messages

/-- The messages taken for a socket. -/
def taken : QueueObservation → Option (SocketId × List JsonObject)
  | .flushed client messages => some (client, messages)
  | .lost client messages => some (client, messages)
  | _ => none

/-- The messages dropped by overflow, by the end of the session or by `stop`. -/
def discards : QueueObservation → List JsonObject
  | .overflowed message => [message]
  | .discarded messages => messages
  | _ => []

/-- The messages written to a socket that is not connected. -/
def losses : QueueObservation → List JsonObject
  | .lost _ messages => messages
  | _ => []

end QueueObservation

/-- The messages in a response that are no answers. -/
def HttpResponse.serverMessages (response : HttpResponse) : List JsonObject :=
  (response.body.map Prod.fst).filter fun message => !HttpServer.isAnswer message

/-- Server-initiated messages come first, behind them one answer at most. -/
def HttpResponse.InOrder (response : HttpResponse) : Prop :=
  ∃ messages answers, response.body = messages ++ answers ∧ answers.length ≤ 1 ∧
    (∀ b ∈ messages, HttpServer.isAnswer b.1 = false) ∧
    ∀ b ∈ answers, HttpServer.isAnswer b.1 = true

namespace HttpServer

/-- The bound on the queue, if there is one. -/
def limit (s : HttpServer) : Option Nat :=
  if s.config.maxQueuedServerMessages ≤ 0 then none
  else some s.config.maxQueuedServerMessages.toNat

/-- The responses written, newest first. -/
def responses (log : List HttpObservation) : List (SocketId × HttpResponse) :=
  log.filterMap fun
    | .wrote client response => some (client, response)
    | _ => none

/-- The server-initiated messages written, response by response. -/
def flushes (log : List HttpObservation) : List (SocketId × List JsonObject) :=
  (responses log).filterMap fun r =>
    if r.2.serverMessages = [] then none else some (r.1, r.2.serverMessages)

/-- The server-initiated messages passed to `send`, oldest first. -/
def sentMessages (s : HttpServer) : List JsonObject :=
  Fifo.puts (s.queueHistory.map QueueObservation.op)

/-- Those written to connected sockets, oldest first. -/
def writtenMessages (s : HttpServer) : List JsonObject :=
  Fifo.flushed (s.queueHistory.map QueueObservation.op)

/-- Those dropped by overflow, by the end of the session or by `stop`. -/
def discardedMessages (s : HttpServer) : List JsonObject :=
  s.queueHistory.reverse.flatMap QueueObservation.discards

end HttpServer

structure BoundedFifo (s : HttpServer) : Prop where
  /-- Nothing is written out of order or twice. -/
  ordered : (s.writtenMessages ++ s.queuedServerMessages).Sublist s.sentMessages
  /-- What a response carries is what the queue was emptied of for it. -/
  flushed : HttpServer.flushes s.log = s.queueHistory.filterMap QueueObservation.taken
  inOrder : ∀ client response, HttpObservation.wrote client response ∈ s.log → response.InOrder
  bounded : ∀ n, s.limit = some n → s.queuedServerMessages.length ≤ n
  /-- Only the oldest message overflows, and only beyond the bound. -/
  oldest : Fifo.Run s.limit (s.queueHistory.map QueueObservation.op) s.queuedServerMessages
  /-- Nothing else is dropped. -/
  accounted : s.sentMessages.Perm
    (s.writtenMessages ++ s.discardedMessages ++ s.queuedServerMessages)

/-- No acknowledgement has emptied the queue into a socket that was not connected. -/
def AcksConnected (s : HttpServer) : Prop :=
  ∀ client messages, QueueObservation.lost client messages ∉ s.queueHistory

/-! ### The invariant -/

structure QueueInv (s : HttpServer) : Prop where
  calls : ∀ message ∈ s.queuedServerMessages, HttpServer.isAnswer message = false
  run : Fifo.Run s.limit (s.queueHistory.map QueueObservation.op) s.queuedServerMessages
  bounded : ∀ n, s.limit = some n → s.queuedServerMessages.length ≤ n
  flushed : HttpServer.flushes s.log = s.queueHistory.filterMap QueueObservation.taken
  inOrder : ∀ r ∈ HttpServer.responses s.log, r.2.InOrder
  lost : ∀ client messages, .lost client messages ∈ s.queueHistory → messages ≠ []

/-- Nothing happened to the queue, and nothing was written. -/
structure SameQueue (s s' : HttpServer) : Prop where
  config : s'.config = s.config
  queue : s'.queuedServerMessages = s.queuedServerMessages
  history : s'.queueHistory = s.queueHistory
  responses : HttpServer.responses s'.log = HttpServer.responses s.log

theorem SameQueue.refl (s : HttpServer) : SameQueue s s := ⟨rfl, rfl, rfl, rfl⟩

theorem SameQueue.trans {s₁ s₂ s₃ : HttpServer} (h₁ : SameQueue s₁ s₂) (h₂ : SameQueue s₂ s₃) :
    SameQueue s₁ s₃ where
  config := h₂.config.trans h₁.config
  queue := h₂.queue.trans h₁.queue
  history := h₂.history.trans h₁.history
  responses := h₂.responses.trans h₁.responses

theorem SameQueue.limit {s s' : HttpServer} (h : SameQueue s s') : s'.limit = s.limit := by
  unfold HttpServer.limit
  rw [h.config]

theorem QueueInv.same {s s' : HttpServer} (hs : QueueInv s) (h : SameQueue s s') :
    QueueInv s' where
  calls := by
    rw [h.queue]
    exact hs.calls
  run := by
    rw [h.limit, h.history, h.queue]
    exact hs.run
  bounded := by
    rw [h.limit, h.queue]
    exact hs.bounded
  flushed := by
    have hf : HttpServer.flushes s'.log = HttpServer.flushes s.log := by
      unfold HttpServer.flushes
      rw [h.responses]
    rw [hf, h.history]
    exact hs.flushed
  inOrder := by
    rw [h.responses]
    exact hs.inOrder
  lost := by
    rw [h.history]
    exact hs.lost

theorem queuedBody_calls {s : HttpServer} (hs : QueueInv s) :
    ∀ b ∈ s.queuedBody, HttpServer.isAnswer b.1 = false := by
  intro b hb
  obtain ⟨message, hm, rfl⟩ := List.mem_map.mp hb
  exact hs.calls message hm

theorem serverMessages_eq {response : HttpResponse} {messages answers}
    (hbody : response.body = messages ++ answers)
    (hcalls : ∀ b ∈ messages, HttpServer.isAnswer b.1 = false)
    (hanswers : ∀ b ∈ answers, HttpServer.isAnswer b.1 = true) :
    response.serverMessages = messages.map Prod.fst := by
  unfold HttpResponse.serverMessages
  rw [hbody, List.map_append, List.filter_append]
  have hleft : (messages.map Prod.fst).filter (fun m => !HttpServer.isAnswer m) =
      messages.map Prod.fst := by
    refine List.filter_eq_self.mpr fun m hm => ?_
    obtain ⟨b, hb, rfl⟩ := List.mem_map.mp hm
    simp [hcalls b hb]
  have hright : (answers.map Prod.fst).filter (fun m => !HttpServer.isAnswer m) = [] := by
    refine List.filter_eq_nil_iff.mpr fun m hm => ?_
    obtain ⟨b, hb, rfl⟩ := List.mem_map.mp hm
    simp [hanswers b hb]
  rw [hleft, hright, List.append_nil]

/-- A response with an answer or nothing in it. -/
theorem QueueInv.wrote {s : HttpServer} (hs : QueueInv s) {client : SocketId}
    {response : HttpResponse} (hlen : response.body.length ≤ 1)
    (hanswers : ∀ b ∈ response.body, HttpServer.isAnswer b.1 = true) :
    QueueInv (s.observe (.wrote client response)) where
  calls := hs.calls
  run := hs.run
  bounded := hs.bounded
  flushed := by
    have hnone : response.serverMessages = [] :=
      serverMessages_eq (List.nil_append _).symm (fun _ hb => absurd hb List.not_mem_nil) hanswers
    refine Eq.trans ?_ hs.flushed
    simp [HttpServer.flushes, HttpServer.responses, HttpServer.observe, hnone]
  inOrder := by
    intro r hr
    rcases List.mem_cons.mp hr with rfl | hr
    · exact ⟨[], response.body, rfl, hlen, fun _ hb => absurd hb List.not_mem_nil, hanswers⟩
    · exact hs.inOrder r hr
  lost := hs.lost

/-- The queue is emptied into a response, in front of an answer or of nothing. -/
theorem QueueInv.flush {s : HttpServer} (hs : QueueInv s) (hne : s.queuedServerMessages ≠ [])
    {client : SocketId} {response : HttpResponse} {answers : List (JsonObject × Option RequestTag)}
    (hbody : response.body = s.queuedBody ++ answers) (hlen : answers.length ≤ 1)
    (hanswers : ∀ b ∈ answers, HttpServer.isAnswer b.1 = true) :
    QueueInv ((s.takeQueue client).observe (.wrote client response)) where
  calls _ hm := absurd hm List.not_mem_nil
  run := by
    show Fifo.Run s.limit (QueueObservation.op (if client ∈ s.connected then _ else _) ::
      s.queueHistory.map QueueObservation.op) []
    split
    · exact .flush hs.run
    · exact .clear hs.run
  bounded _ _ := Nat.zero_le _
  flushed := by
    have hmessages : response.serverMessages = s.queuedServerMessages := by
      rw [serverMessages_eq hbody (queuedBody_calls hs) hanswers]
      simp [HttpServer.queuedBody, Function.comp_def]
    have htaken : QueueObservation.taken (if client ∈ s.connected then
        .flushed client s.queuedServerMessages else .lost client s.queuedServerMessages) =
        some (client, s.queuedServerMessages) := by
      split <;> rfl
    have hold := hs.flushed
    unfold HttpServer.flushes HttpServer.responses at hold ⊢
    simp only [HttpServer.takeQueue, HttpServer.observe, List.filterMap_cons, htaken, hmessages,
      if_neg hne, hold]
  inOrder := by
    intro r hr
    rcases List.mem_cons.mp hr with rfl | hr
    · exact ⟨s.queuedBody, answers, hbody, hlen, queuedBody_calls hs, hanswers⟩
    · exact hs.inOrder r hr
  lost := by
    intro client' messages hm
    rcases List.mem_cons.mp hm with heq | hm
    · split at heq
      · cases heq
      · obtain ⟨-, rfl⟩ := QueueObservation.lost.inj heq
        exact hne
    · exact hs.lost client' messages hm

theorem QueueInv.discard {s : HttpServer} (hs : QueueInv s) : QueueInv s.discardQueue where
  calls _ hm := absurd hm List.not_mem_nil
  run := .clear hs.run
  bounded _ _ := Nat.zero_le _
  flushed := hs.flushed
  inOrder := hs.inOrder
  lost client messages hm := hs.lost client messages (mem_old hm nofun)

/-- One message more, within the budget. -/
theorem QueueInv.enqueue {s : HttpServer} (hs : QueueInv s) {message : JsonObject}
    (h : HttpServer.isAnswer message = false) : QueueInv (s.enqueue message) := by
  have hcalls : ∀ m ∈ s.queuedServerMessages ++ [message], HttpServer.isAnswer m = false := by
    intro m hm
    rcases List.mem_append.mp hm with hm | hm
    · exact hs.calls m hm
    · obtain rfl := List.mem_singleton.mp hm
      exact h
  have hput := hs.run.put (a := message)
  unfold HttpServer.enqueue HttpServer.enforceQueueBudget
  dsimp only
  by_cases hcap : s.config.maxQueuedServerMessages ≤ 0
  · have hnone : s.limit = none := if_pos hcap
    rw [if_pos hcap]
    exact
      { calls := hcalls
        run := hput
        bounded := fun n hn => absurd (hnone.symm.trans hn) nofun
        flushed := hs.flushed
        inOrder := hs.inOrder
        lost := fun client messages hm => hs.lost client messages (mem_old hm nofun) }
  · have hsome : s.limit = some s.config.maxQueuedServerMessages.toNat := if_neg hcap
    rw [if_neg hcap]
    generalize hn : s.config.maxQueuedServerMessages.toNat = n at hsome ⊢
    generalize hq : s.queuedServerMessages ++ [message] = q at hput hcalls ⊢
    have hlen : n ≤ (q.drop (q.length - n)).length ∨ q.length - n = 0 := by
      rw [List.length_drop]
      omega
    exact
      { calls := fun m hm => hcalls m (List.mem_of_mem_drop hm)
        run := by
          show Fifo.Run s.limit (List.map QueueObservation.op (_ ++ _)) (q.drop (q.length - n))
          rw [List.map_append, List.map_reverse, List.map_map]
          rcases hlen with hlen | hzero
          · refine Fifo.Run.overflows hsome (q.take (q.length - n)) ?_ hlen
            rw [List.take_append_drop]
            exact hput
          · rw [hzero, List.take_zero, List.drop_zero]
            exact hput
        bounded := by
          intro m hm
          obtain rfl := Option.some.inj (hsome.symm.trans hm)
          show (q.drop (q.length - n)).length ≤ n
          rw [List.length_drop]
          omega
        flushed := by
          have htaken : ((q.take (q.length - n)).map QueueObservation.overflowed).reverse.filterMap
              QueueObservation.taken = [] := by
            refine List.filterMap_eq_nil_iff.mpr fun o ho => ?_
            obtain ⟨m, -, rfl⟩ := List.mem_map.mp (List.mem_reverse.mp ho)
            rfl
          show HttpServer.flushes s.log = List.filterMap QueueObservation.taken (_ ++ _)
          rw [List.filterMap_append, htaken]
          exact hs.flushed
        inOrder := hs.inOrder
        lost := by
          intro client messages hm
          rcases List.mem_append.mp hm with hm | hm
          · obtain ⟨m, -, heq⟩ := List.mem_map.mp (List.mem_reverse.mp hm)
            cases heq
          · exact hs.lost client messages (mem_old hm nofun) }

/-! ### Code that keeps it -/

def queueContract : Contract HttpSig where
  inv := QueueInv
  rely _ _ := True
  pre _ := QueueInv
  post _ _ _ s' := QueueInv s'

theorem queueContract_preorder : queueContract.Preorder := ⟨fun _ => trivial, fun _ _ => trivial⟩

abbrev KeepsQueue {α : Type} (p : Proc HttpSig α) : Prop :=
  queueContract.Keeps (S := HttpSig) (fun _ _ _ => True) p

namespace KeepsQueue

theorem composes : Composes (S := HttpSig) fun _ p => KeepsQueue p :=
  Contract.Keeps.composes queueContract_preorder

theorem query (e : HttpOut) : KeepsQueue (Proc.query (S := HttpSig) e) :=
  Contract.Keeps.query (S := HttpSig) e

theorem modify {f : HttpServer → HttpServer} (h : ∀ s, QueueInv s → QueueInv (f s)) :
    KeepsQueue (Proc.modify (S := HttpSig) f) :=
  fun s hs => ⟨h s hs, trivial⟩

theorem same {f : HttpServer → HttpServer} (h : ∀ s, SameQueue s (f s)) :
    KeepsQueue (Proc.modify (S := HttpSig) f) :=
  modify fun s hs => hs.same (h s)

/-- Code that reads the state and goes on. -/
theorem read {α : Type} {g : HttpServer → Proc HttpSig α}
    (h : ∀ s, QueueInv s → queueContract.KeepsAt (S := HttpSig) (fun _ _ _ => True) (g s) s) :
    KeepsQueue (Proc.read (S := HttpSig) >>= g) :=
  fun s hs => h s hs

theorem invoke (f : HttpFn) : KeepsQueue (Proc.invoke (S := HttpSig) f) :=
  fun _ hs => ⟨hs, fun _ _ h => ⟨h, trivial⟩⟩

theorem disconnectFromHost (client : SocketId) :
    KeepsQueue (HttpServer.disconnectFromHost client) :=
  composes.bind (same fun _ => ⟨rfl, rfl, rfl, rfl⟩) fun _ => query _

/-- A response with an answer or nothing in it. -/
theorem write (client : SocketId) {response : HttpResponse} (hlen : response.body.length ≤ 1)
    (hanswers : ∀ b ∈ response.body, HttpServer.isAnswer b.1 = true) :
    KeepsQueue (HttpServer.write client response) :=
  composes.bind (modify fun _ hs => hs.wrote hlen hanswers) fun _ => query _

theorem writeStatus (client : SocketId) (status : Nat) (reason : String)
    (headers : List (String × String)) :
    KeepsQueue (HttpServer.writeStatus client status reason headers) :=
  write client (Nat.zero_le 1) fun _ hb => absurd hb List.not_mem_nil

theorem respondWithStatus (client : SocketId) (status : Nat) (reason : String) :
    KeepsQueue (HttpServer.respondWithStatus client status reason) :=
  composes.bind (writeStatus _ _ _ _) fun _ => disconnectFromHost client

/-- A queue that is not empty is written in front of an answer or of nothing. -/
theorem writeQueue {s : HttpServer} (hs : QueueInv s) (hne : s.queuedServerMessages ≠ [])
    (client : SocketId) (answers : List (JsonObject × Option RequestTag))
    (hlen : answers.length ≤ 1) (hanswers : ∀ b ∈ answers, HttpServer.isAnswer b.1 = true) :
    queueContract.KeepsAt (S := HttpSig) (fun _ _ _ => True) (do
      Proc.modify (S := HttpSig) fun s => s.takeQueue client
      HttpServer.writeSseResponse client (s.queuedBody ++ answers)
      HttpServer.disconnectFromHost client) s := by
  rw [Contract.KeepsAt, wp_bind, wp_modify, wp_bind]
  -- between the two updates nothing else can happen
  refine ⟨hs.flush hne rfl hlen hanswers, fun s₁ _ hs₁ _ _ => ?_⟩
  exact (disconnectFromHost client).wp hs₁ fun _ s₂ hs₂ _ => ⟨hs₂, trivial⟩

theorem writeAckOrQueuedMessages (client : SocketId) :
    KeepsQueue (HttpServer.writeAckOrQueuedMessages client) := by
  refine read fun s hs => ?_
  show queueContract.KeepsAt (S := HttpSig) _
    (if s.queuedServerMessages.isEmpty = true then _ else _) s
  by_cases hempty : s.queuedServerMessages.isEmpty = true
  · rw [if_pos hempty]
    exact composes.bind (writeStatus _ _ _ _) (fun _ => disconnectFromHost client) s hs
  · rw [if_neg hempty]
    have hwrite := writeQueue hs (by simpa using hempty) client []
      (Nat.zero_le 1) fun _ hb => absurd hb List.not_mem_nil
    rwa [List.append_nil] at hwrite

theorem writeAnswer (client : SocketId) {message : JsonObject} (answers : Option RequestTag)
    (h : HttpServer.isAnswer message = true) :
    KeepsQueue (HttpServer.writeAnswer client message answers) := by
  have hone : ∀ b ∈ [(message, answers)], HttpServer.isAnswer b.1 = true := by
    intro b hb
    obtain rfl := List.mem_singleton.mp hb
    exact h
  refine read fun s hs => ?_
  show queueContract.KeepsAt (S := HttpSig) _
    (if s.queuedServerMessages.isEmpty = true then _ else _) s
  by_cases hempty : s.queuedServerMessages.isEmpty = true
  · rw [if_pos hempty]
    have hjson : KeepsQueue (HttpServer.writeJsonResponse client message answers) :=
      composes.bind (composes.reads _) fun _ => write client (Nat.le_refl 1) hone
    exact composes.bind hjson (fun _ => disconnectFromHost client) s hs
  · rw [if_neg hempty]
    exact writeQueue hs (by simpa using hempty) client _ (Nat.le_refl 1) hone

theorem sameQueue_dropEntry (s : HttpServer) (k : String) (entry : PendingRequestEntry) :
    SameQueue s (s.dropEntry k entry) := ⟨rfl, rfl, rfl, rfl⟩

theorem send (answers : Option RequestTag) (message : JsonObject) :
    KeepsQueue (HttpServer.send answers message) := by
  refine read fun s hs => ?_
  refine (composes.ite _ (query _) ?_ : KeepsQueue _) s hs
  by_cases hanswer : HttpServer.isAnswer message = true
  · rw [if_pos hanswer]
    dsimp only
    cases s.pendingByRequestId.lookup (idToString (message.value "id")) with
    | none => exact composes.pure ()
    | some entry =>
        refine composes.bind (same fun s => sameQueue_dropEntry s _ entry) fun _ => ?_
        exact composes.ite _ (writeAnswer _ answers hanswer) (composes.pure ())
  · rw [if_neg hanswer]
    exact modify fun _ hs => hs.enqueue (by simpa using hanswer)

theorem host : SessionHost.Stays HttpServer.host fun _ p => KeepsQueue p where
  toComposes := composes
  send := send
  abandon _ := composes.pure ()
  emit _ := query _
  handle _ _ _ := query _
  notify _ _ := query _
  progress _ _ _ _ := query _
  update _ := same fun _ => ⟨rfl, rfl, rfl, rfl⟩

theorem disconnectEntries (entries : List (Sigma fun _ : String => PendingRequestEntry)) :
    KeepsQueue (HttpServer.disconnectEntries entries) := by
  induction entries with
  | nil => exact composes.pure ()
  | cons e rest ih =>
      refine composes.bind (same fun _ => ⟨rfl, rfl, rfl, rfl⟩) fun _ => ?_
      refine composes.bind (composes.reads _) fun deleted => composes.ite _ ih ?_
      exact composes.bind (disconnectFromHost _) fun _ => ih

theorem endSession : KeepsQueue HttpServer.endSession := by
  refine composes.bind (same fun _ => ⟨rfl, rfl, rfl, rfl⟩) fun _ => ?_
  refine composes.bind (composes.reads _) fun pending => ?_
  refine composes.bind (disconnectEntries _) fun _ => ?_
  refine composes.bind (modify fun s hs => hs.discard.same ⟨rfl, rfl, rfl, rfl⟩) fun _ => ?_
  exact composes.bind (query _) fun _ => same fun _ => ⟨rfl, rfl, rfl, rfl⟩

theorem processMessage (client : SocketId) (msg : JsonObject) :
    KeepsQueue (HttpServer.processMessage client msg) := by
  refine composes.ite _ ?_ ?_
  · refine composes.bind (composes.reads _) fun pending => ?_
    refine composes.ite _ (respondWithStatus _ _ _) (composes.ite _ (respondWithStatus _ _ _) ?_)
    exact composes.bind (same fun _ => ⟨rfl, rfl, rfl, rfl⟩) fun _ => host.onMessageReceived msg
  · exact composes.bind (host.onMessageReceived msg) fun _ => writeAckOrQueuedMessages client

theorem processRequest (client : SocketId) (req : HttpRequest) :
    KeepsQueue (HttpServer.processRequest client req) := by
  refine composes.bind (composes.reads id) fun s => composes.ite _ ?_ ?_
  · exact composes.bind (writeStatus _ _ _ _) fun _ => disconnectFromHost client
  · cases s.rejection req with
    | some rejected => exact respondWithStatus _ _ _
    | none =>
        refine composes.ite _ (composes.ite _ (respondWithStatus _ _ _) ?_) ?_
        · exact composes.bind endSession fun _ => respondWithStatus _ _ _
        · cases HttpServer.postedMessage req with
          | none => exact respondWithStatus _ _ _
          | some msg => exact processMessage client msg

theorem readLoop (client : SocketId) : KeepsQueue (HttpServer.readLoop client) := by
  refine composes.bind (query (.parseNext client)) fun result => ?_
  cases result with
  | needMoreData => exact composes.pure ()
  | complete req =>
      refine composes.bind (same fun _ => ⟨rfl, rfl, rfl, rfl⟩) fun _ => ?_
      refine composes.bind (processRequest client req) fun _ => ?_
      exact composes.bind (composes.reads id) fun s =>
        composes.ite _ (invoke (.readLoop client)) (composes.pure ())
  | headerOverflow => exact respondWithStatus _ _ _
  | bodyTooLarge => exact respondWithStatus _ _ _
  | invalidContentLength => exact respondWithStatus _ _ _
  | invalidRequestLine => exact respondWithStatus _ _ _

theorem sameQueue_dropEntriesOf (client : SocketId)
    (entries : List (Sigma fun _ : String => PendingRequestEntry)) (s : HttpServer) :
    SameQueue s (HttpServer.dropEntriesOf client entries s) := by
  induction entries generalizing s with
  | nil => exact .refl s
  | cons e rest ih =>
      refine SameQueue.trans ?_ (ih _)
      split
      · exact ⟨rfl, rfl, rfl, rfl⟩
      · exact .refl s

theorem sameQueue_accept (count : Nat) (s : HttpServer) :
    SameQueue s (HttpServer.accept^[count] s) := by
  induction count generalizing s with
  | zero => exact .refl s
  | succ count ih =>
      have haccept : SameQueue s s.accept := ⟨rfl, rfl, rfl, rfl⟩
      exact haccept.trans (ih s.accept)

theorem onDisconnected (client : SocketId) : KeepsQueue (HttpServer.onDisconnected client) := by
  refine same fun s => ?_
  have hforget : SameQueue s { s with connections := s.connections.erase client } :=
    ⟨rfl, rfl, rfl, rfl⟩
  exact hforget.trans (sameQueue_dropEntriesOf client _ _)

theorem pendingTimeout (timer : TimerId) : KeepsQueue (HttpServer.pendingTimeout timer) := by
  refine composes.bind (composes.reads _) fun timers => ?_
  cases timers.lookup timer with
  | none => exact composes.pure ()
  | some idStr =>
      refine composes.bind (same fun _ => ⟨rfl, rfl, rfl, rfl⟩) fun _ => ?_
      refine composes.bind (composes.reads id) fun s => ?_
      cases hl : s.pendingByRequestId.lookup idStr with
      | none => exact composes.pure ()
      | some entry =>
          refine composes.bind (same fun _ => ⟨rfl, rfl, rfl, rfl⟩) fun _ => ?_
          refine composes.ite _ ?_ (composes.pure ())
          exact composes.bind (writeStatus _ _ _ _) fun _ => disconnectFromHost _

theorem abortSockets (clients : List SocketId) : KeepsQueue (HttpServer.abortSockets clients) := by
  induction clients with
  | nil => exact composes.pure ()
  | cons client rest ih =>
      refine composes.bind (same fun _ => ⟨rfl, rfl, rfl, rfl⟩) fun _ => ?_
      exact composes.bind (query (.abort client)) fun _ => ih

theorem stop : KeepsQueue HttpServer.stop := by
  refine composes.bind (composes.reads id) fun s => composes.ite _ ?_ (composes.pure ())
  refine composes.bind (same fun _ => ⟨rfl, rfl, rfl, rfl⟩) fun _ => ?_
  refine composes.bind (abortSockets _) fun _ => ?_
  refine composes.bind (modify fun s hs => ?_) fun _ => host.abortPending _
  have hclear : QueueInv s.clearPending := hs.same ⟨rfl, rfl, rfl, rfl⟩
  exact hclear.discard.same ⟨rfl, rfl, rfl, rfl⟩

theorem start : KeepsQueue HttpServer.start := by
  refine composes.bind (composes.reads _) fun isOpen => composes.ite _ (composes.pure ()) ?_
  refine composes.bind (query .listen) fun listening => ?_
  exact composes.ite _ (same fun _ => ⟨rfl, rfl, rfl, rfl⟩) (query _)

theorem entry (e : HttpEvent) : KeepsQueue (httpEntry e) := by
  cases e with
  | session c => exact host.call c
  | start => exact start
  | stop => exact stop
  | newConnection count => exact same fun s => sameQueue_accept count s
  | readyRead client =>
      refine composes.bind (composes.reads _) fun subscribed => composes.ite _ ?_ (composes.pure ())
      refine composes.bind (composes.reads _) fun connections => ?_
      exact composes.ite _ (invoke (.readLoop client)) (composes.pure ())
  | connectionLost client => exact same fun _ => ⟨rfl, rfl, rfl, rfl⟩
  | disconnected client =>
      refine composes.bind (same fun _ => ⟨rfl, rfl, rfl, rfl⟩) fun _ => ?_
      refine composes.bind (composes.reads _) fun subscribed => ?_
      exact composes.ite _ (onDisconnected client) (composes.pure ())
  | socketDeleted client => exact same fun _ => ⟨rfl, rfl, rfl, rfl⟩
  | pendingTimeout timer => exact pendingTimeout timer

end KeepsQueue

/-! ### Runs -/

/-- The events of the transport, and calls of `send` by others than its session. -/
inductive QueueEvent where
  | server (e : HttpEvent)
  | send (message : JsonObject)

def queueMachine : Machine HttpSig where
  Event := QueueEvent
  entry
    | .server e => httpEntry e
    | .send message => HttpServer.send none message
  body | .readLoop client => HttpServer.readLoop client

theorem keepsQueue_event (e : QueueEvent) : KeepsQueue (queueMachine.entry e) := by
  cases e with
  | server e => exact KeepsQueue.entry e
  | send message => exact KeepsQueue.send none message

theorem queue_valid : queueContract.Valid (Surroundings.any queueMachine) where
  toPreorder := queueContract_preorder
  event s e hs _ := keepsQueue_event e s hs
  nested s _ e hs _ := keepsQueue_event e s hs
  body f s hs := match f with
    | .readLoop client => wp_mono (KeepsQueue.readLoop client s hs) fun _ _ h => h.1

theorem queueInv_init (config : HttpServerConfig) (sessionId : String) :
    QueueInv { config, sessionId } where
  calls _ hm := absurd hm List.not_mem_nil
  run := .nil
  bounded _ _ := Nat.zero_le _
  flushed := rfl
  inOrder _ hr := absurd hr List.not_mem_nil
  lost _ _ hm := absurd hm List.not_mem_nil

/-- What is dropped is discarded or lost. -/
theorem length_dropped (history : List QueueObservation) :
    (Fifo.dropped (history.map QueueObservation.op)).length =
      (history.reverse.flatMap QueueObservation.discards).length +
        (history.reverse.flatMap QueueObservation.losses).length := by
  induction history with
  | nil => rfl
  | cons o history ih =>
      rw [List.reverse_cons, List.flatMap_append, List.flatMap_append, List.length_append,
        List.length_append]
      cases o <;> simp [QueueObservation.op, QueueObservation.discards, QueueObservation.losses,
        Fifo.dropped, ih] <;> omega

theorem dropped_eq {history : List QueueObservation}
    (h : ∀ client messages, QueueObservation.lost client messages ∉ history) :
    Fifo.dropped (history.map QueueObservation.op) =
      history.reverse.flatMap QueueObservation.discards := by
  induction history with
  | nil => rfl
  | cons o history ih =>
      have hrest := ih fun client messages hm => h client messages (List.mem_cons_of_mem o hm)
      rw [List.reverse_cons, List.flatMap_append, ← hrest]
      cases o with
      | queued message => simp [QueueObservation.op, QueueObservation.discards, Fifo.dropped]
      | overflowed message => simp [QueueObservation.op, QueueObservation.discards, Fifo.dropped]
      | flushed client messages =>
          simp [QueueObservation.op, QueueObservation.discards, Fifo.dropped]
      | lost client messages => exact absurd List.mem_cons_self (h client messages)
      | discarded messages => simp [QueueObservation.op, QueueObservation.discards, Fifo.dropped]

/-- The queue accounts for its messages exactly where no acknowledgement lost any. -/
theorem QueueInv.accounted_iff {s : HttpServer} (hs : QueueInv s) :
    s.sentMessages.Perm (s.writtenMessages ++ s.discardedMessages ++ s.queuedServerMessages) ↔
      AcksConnected s := by
  have hall := hs.run.accounts
  constructor
  · intro hperm client messages hm
    have hlen := hperm.length_eq.symm.trans hall.length_eq
    have hdropped := length_dropped s.queueHistory
    simp only [List.length_append, HttpServer.writtenMessages, HttpServer.discardedMessages]
      at hlen
    have hnone : (s.queueHistory.reverse.flatMap QueueObservation.losses).length = 0 := by omega
    have hnil : messages = [] := by
      refine List.eq_nil_iff_forall_not_mem.mpr fun m hmem => ?_
      have hlost : m ∈ s.queueHistory.reverse.flatMap QueueObservation.losses :=
        List.mem_flatMap.mpr ⟨_, List.mem_reverse.mpr hm, hmem⟩
      rw [List.length_eq_zero_iff.mp hnone] at hlost
      exact absurd hlost List.not_mem_nil
    exact hs.lost client messages hm hnil
  · intro h
    rw [dropped_eq h] at hall
    exact hall

/-- In every state a run reaches, the queue is the bounded FIFO it is meant to be if and only if
no acknowledgement has found messages in the queue and its socket disconnected. -/
theorem bounded_fifo (config : HttpServerConfig) (sessionId : String) {c : Config HttpSig}
    (hrun : Reaches (Surroundings.any queueMachine) (.idle { config, sessionId }) c)
    (hw : c.Waiting) : BoundedFifo c.state ↔ AcksConnected c.state := by
  have hinv : QueueInv c.state := queue_valid.waiting (queueInv_init config sessionId) hrun hw
  refine ⟨fun h => hinv.accounted_iff.mp h.accounted, fun h => ?_⟩
  exact
    { ordered := hinv.run.sublist
      flushed := hinv.flushed
      inOrder := fun client response hwrote =>
        hinv.inOrder (client, response) (List.mem_filterMap.mpr ⟨_, hwrote, rfl⟩)
      bounded := hinv.bounded
      oldest := hinv.run
      accounted := hinv.accounted_iff.mpr h }

/-- A `POST` of a notification. -/
def postNote : HttpRequest :=
  { method := "POST", target := "/mcp", body := some (.obj (notificationMessage "note" [])) }

/-- The server starts, takes a connection, and sends three notifications. -/
def noticeMoves : List (Move queueMachine) :=
  [.event (.server .start), .answer (HttpOut.returns .needMoreData),
    .event (.server (.newConnection 1)),
    .event (.server (.session (.sendNotification "old" []))),
    .event (.server (.session (.sendNotification "news" []))),
    .event (.server (.session (.sendNotification "more" [])))]

/-- A notification is read from the connection; its slots have not returned. -/
def noteMoves : List (Move queueMachine) :=
  [.event (.server (.readyRead 0)), .answer (HttpOut.returns (.complete postNote))]

/-- Everything returns, and the connection has nothing more to read. -/
def returnMoves (count : Nat) : List (Move queueMachine) :=
  List.replicate count (.answer (HttpOut.returns .needMoreData))

/-- The queue takes two messages: the oldest is dropped, and the other two are written in order. -/
theorem bounded_fifo_notices :
    ∃ c : Config HttpSig, c.Waiting ∧ BoundedFifo c.state ∧
      c.state.discardedMessages = [notificationMessage "old" []] ∧
      c.state.writtenMessages =
        [notificationMessage "news" [], notificationMessage "more" []] := by
  have hplay : Playable (Surroundings.any queueMachine) 2
      (noticeMoves ++ noteMoves ++ returnMoves 3)
      (.idle { config := { maxQueuedServerMessages := 2 } }) :=
    ⟨trivial, trivial, trivial, trivial, trivial, trivial, trivial, trivial, trivial, trivial,
      trivial, trivial⟩
  have hw : (play queueMachine 2 (noticeMoves ++ noteMoves ++ returnMoves 3)
      (.idle { config := { maxQueuedServerMessages := 2 } })).Waiting := Or.inl rfl
  have hhistory : (play queueMachine 2 (noticeMoves ++ noteMoves ++ returnMoves 3)
      (.idle { config := { maxQueuedServerMessages := 2 } })).state.queueHistory =
      [.flushed 0 [notificationMessage "news" [], notificationMessage "more" []],
        .overflowed (notificationMessage "old" []), .queued (notificationMessage "more" []),
        .queued (notificationMessage "news" []), .queued (notificationMessage "old" [])] := rfl
  have hacks : AcksConnected (play queueMachine 2 (noticeMoves ++ noteMoves ++ returnMoves 3)
      (.idle { config := { maxQueuedServerMessages := 2 } })).state := by
    intro client messages
    rw [hhistory]
    simp
  exact ⟨_, hw, (bounded_fifo { maxQueuedServerMessages := 2 } "" (reaches_play hplay) hw).mpr hacks,
    rfl, rfl⟩

/-- A request is read whose handler returns a future, and behind it the notification. -/
def askNoteMoves : List (Move queueMachine) :=
  [.event (.server .start), .answer (HttpOut.returns .needMoreData),
    .event (.server (.newConnection 1)),
    .event (.server (.session (.setRequestHandler "ask" true))),
    .event (.server (.readyRead 0)), .answer (HttpOut.returns (.complete postOne)),
    .answer (HttpOut.returns .needMoreData), .answer (HttpOut.returns .needMoreData),
    .answer (HttpOut.returns (.complete postNote))]

/-- While the notification is handled, the request is answered and a message is sent. -/
def answerMoves : List (Move queueMachine) :=
  [.event (.send (resultMessage (.str "1") (.str "yes"))),
    .answer (HttpOut.returns .needMoreData), .answer (HttpOut.returns .needMoreData),
    .event (.send (notificationMessage "news" []))]

/-- The answer has closed the connection, and the acknowledgement of the notification is written
to it with the message that was sent after. -/
theorem bounded_fifo_fails :
    ∃ c : Config HttpSig, Reaches (Surroundings.any queueMachine) (.idle {}) c ∧ c.Waiting ∧
      ¬ BoundedFifo c.state := by
  have hplay : Playable (Surroundings.any queueMachine) 3
      (askNoteMoves ++ answerMoves ++ returnMoves 3) (.idle {}) :=
    ⟨trivial, trivial, trivial, trivial, trivial, trivial, trivial, trivial, trivial, trivial,
      trivial, trivial, trivial, trivial, trivial, trivial, trivial⟩
  refine ⟨_, reaches_play hplay, Or.inl rfl, fun h => ?_⟩
  -- one message was sent, and it was neither written nor dropped
  have hlen := h.accounted.length_eq
  exact absurd hlen (by decide)

end LLMQore.Mcp
