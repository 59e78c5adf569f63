import LLMQore.Mcp.HttpServer
import LLMQore.Network.HttpRequestParser
import LLMQore.Reentrant.History
import LLMQore.Rpc.SessionRules

/-!
# LLMQore.Mcp.HttpConnection

The MCP HTTP server transport with the parsers of its connections.

`HttpServer` leaves to its surroundings which requests are found in the bytes of a socket.
Here they come from the `HttpRequestParser` of the connection: the transport's code is
implemented over a state that has the parsers and the bytes no socket has read yet.

The history tells when a request was taken from a connection, when the parser of a
connection reported an error and when the transport asked a socket to disconnect. Nothing
stops the transport from reading a socket that is on its way to be closed, so what holds of
all runs is that requests are only taken from connections that are not, as long as none is
read from one that is and has a header block to parse (`ReadsOpen`).
-/

namespace LLMQore.Mcp

open Reentrant Rpc Network

inductive WireObservation where
  /-- A request was taken from a connection. -/
  | taken (client : SocketId) (request : Network.HttpRequest)
  /-- The parser of a connection reported an error. -/
  | rejected (client : SocketId) (status : HttpRequestParser.Status)
  /-- `disconnectFromHost` was called. -/
  | closing (client : SocketId)

/-- The transport with its connections. -/
structure HttpWire where
  server : HttpServer
  /-- The bytes of each socket that were not read. -/
  unread : SocketId → Bytes := fun _ => []
  /-- The values of `connections`. -/
  parser : SocketId → HttpRequestParser
  history : List WireObservation := []

namespace HttpWire

def observe (w : HttpWire) (o : WireObservation) : HttpWire := { w with history := o :: w.history }

def setParser (w : HttpWire) (client : SocketId) (parser : HttpRequestParser) : HttpWire :=
  { w with parser := fun c => if c = client then parser else w.parser c }

/-- A request as the transport reads it: a body that is no JSON is none. -/
def readRequest (codec : JsonCodec) (req : Network.HttpRequest) : HttpRequest where
  method := req.method.toUtf8String
  target := req.target.toUtf8String
  headers := req.headers.entries.map fun h => (Bytes.toUtf8String h.1, Bytes.toUtf8String h.2)
  body :=
    match codec.fromJson req.body with
    | .object o => some (.obj o)
    | .array xs => some (.arr xs)
    | .null => none

/-- The error the parser of a connection reports. -/
def refuse (w : HttpWire) (client : SocketId) (r : HttpRequestParser.Status × HttpRequestParser) :
    HttpWire :=
  (w.setParser client r.2).observe (.rejected client r.1)

/-- `parser.parseNext()`, and `parser.takeRequest()` where it is complete. -/
def parseNext (codec : JsonCodec) (client : SocketId) (w : HttpWire) : ParseResult × HttpWire :=
  let r := (w.parser client).parseNext
  match r.1 with
  | .needMoreData => (.needMoreData, w.setParser client r.2)
  | .complete =>
      let (req, parser) := r.2.takeRequest
      (.complete (readRequest codec req), (w.setParser client parser).observe (.taken client req))
  | .headerOverflow => (.headerOverflow, w.refuse client r)
  | .bodyTooLarge => (.bodyTooLarge, w.refuse client r)
  | .invalidContentLength => (.invalidContentLength, w.refuse client r)
  | .invalidRequestLine => (.invalidRequestLine, w.refuse client r)

/-- `client->disconnectFromHost()`, of a socket that was accepted. -/
def closing (client : SocketId) (w : HttpWire) : HttpWire :=
  if client < w.server.nextSocket then
    { w with server.connected := w.server.connected.erase client }.observe (.closing client)
  else w

/-- `parser.feed(client->readAll())`. -/
def readAll (client : SocketId) (w : HttpWire) : HttpWire :=
  { w.setParser client ((w.parser client).feed (w.unread client)) with
    unread := fun c => if c = client then [] else w.unread c }

/-- Bytes arrive at a socket. -/
def arrive (client : SocketId) (bytes : Bytes) (w : HttpWire) : HttpWire :=
  { w with unread := fun c => if c = client then w.unread c ++ bytes else w.unread c }

end HttpWire

abbrev WireSig : Sig where
  State := HttpWire
  Out := HttpOut
  Ans := HttpOut.Ans
  Fn := HttpFn
  Res _ := Unit

/-- The transport's code with its parsers. -/
def wired (codec : JsonCodec) : Implementation HttpSig WireSig where
  part w := w.server
  withPart w server := { w with server }
  part_withPart _ _ := rfl
  out
    | .parseNext client => do
        let (result, w) ← Proc.reads (S := WireSig) (HttpWire.parseNext codec client)
        Proc.modify (S := WireSig) fun _ => w
        return result
    | .disconnectFromHost client => do
        Proc.modify (S := WireSig) (HttpWire.closing client)
        Proc.query (S := WireSig) (.disconnectFromHost client)
    | e => Proc.query (S := WireSig) e
  fn := id
  res _ r := r

inductive WireEvent where
  /-- Bytes arrive at a socket. -/
  | arrived (client : SocketId) (bytes : Bytes)
  | server (e : HttpEvent)

/-- The code of each event. -/
def wireEntry (codec : JsonCodec) : WireEvent → Proc WireSig Unit
  | .arrived client bytes => Proc.modify (S := WireSig) (HttpWire.arrive client bytes)
  | .server (.readyRead client) => do
      let w ← Proc.read (S := WireSig)
      if client ∈ w.server.subscribed then
        if client ∈ w.server.connections then
          Proc.modify (S := WireSig) (HttpWire.readAll client)
          Proc.implement (wired codec) (HttpServer.onReadyRead client)
        else
          pure ()
      else
        pure ()
  | .server e => Proc.implement (wired codec) (httpEntry e)

def wireMachine (codec : JsonCodec) : Machine WireSig where
  Event := WireEvent
  entry := wireEntry codec
  body | .readLoop client => Proc.implement (wired codec) (HttpServer.readLoop client)

/-- The transport before anything happened, with the limits of its configuration. -/
def HttpWire.init (config : HttpServerConfig) (sessionId : String)
    (maxHeaderBytes maxBodyBytes : Int) : HttpWire where
  server := { config, sessionId }
  parser _ := { maxHeaderBytes, maxBodyBytes }

/-! ### What the transport does to its sockets -/

/-- The transport connects only new sockets. -/
structure SocketsKept (s s' : HttpServer) : Prop where
  next : s.nextSocket ≤ s'.nextSocket
  connected : ∀ c ∈ s'.connected, c ∈ s.connected ∨ s.nextSocket ≤ c
  connections : ∀ c ∈ s'.connections, c ∈ s.connections ∨ c < s'.nextSocket

theorem SocketsKept.of_eq {s s' : HttpServer} (hnext : s'.nextSocket = s.nextSocket)
    (hconnected : s'.connected = s.connected) (hconnections : s'.connections = s.connections) :
    SocketsKept s s' where
  next := hnext.ge
  connected _ hc := .inl (hconnected ▸ hc)
  connections _ hc := .inl (hconnections ▸ hc)

theorem SocketsKept.refl (s : HttpServer) : SocketsKept s s := .of_eq rfl rfl rfl

theorem SocketsKept.trans {s₁ s₂ s₃ : HttpServer} (h₁ : SocketsKept s₁ s₂)
    (h₂ : SocketsKept s₂ s₃) : SocketsKept s₁ s₃ where
  next := h₁.next.trans h₂.next
  connected c hc := by
    rcases h₂.connected c hc with hc | hc
    · exact h₁.connected c hc
    · exact .inr (h₁.next.trans hc)
  connections c hc := by
    rcases h₂.connections c hc with hc | hc
    · exact (h₁.connections c hc).imp_right fun h => lt_of_lt_of_le h h₂.next
    · exact .inr hc

/-- A socket of before that is not connected stays so. -/
theorem SocketsKept.not_connected {s s' : HttpServer} (h : SocketsKept s s') {c : SocketId}
    (hc : c ∉ s.connected) (hlt : c < s.nextSocket) : c ∉ s'.connected := fun hc' =>
  (h.connected c hc').elim hc fun hle => absurd hlt (Nat.not_lt.mpr hle)

namespace HttpServer

open Proc

/-- Code that connects only new sockets, and does not ask a parser. -/
abbrev Kept {α : Type} (p : Proc HttpSig α) : Prop :=
  p.Within (S := HttpSig) SocketsKept fun e => ∀ client, e ≠ .parseNext client

theorem kept_modify {f : HttpServer → HttpServer} (h : ∀ s, SocketsKept s (f s)) :
    Kept (Proc.modify (S := HttpSig) f) :=
  .modify h

theorem kept_observe (o : HttpObservation) :
    Kept (Proc.modify (S := HttpSig) fun s => s.observe o) :=
  kept_modify fun _ => .of_eq rfl rfl rfl

theorem kept_write (client : SocketId) (response : HttpResponse) : Kept (write client response) :=
  .bind (kept_observe _) fun _ => .query nofun

theorem kept_disconnectFromHost (client : SocketId) : Kept (disconnectFromHost client) :=
  .bind (kept_modify fun _ =>
    ⟨Nat.le_refl _, fun _ hc => .inl (Finset.mem_of_mem_erase hc), fun _ hc => .inl hc⟩)
    fun _ => .query nofun

theorem kept_respondWithStatus (client : SocketId) (status : Nat) (reason : String) :
    Kept (respondWithStatus client status reason) :=
  .bind (kept_write _ _) fun _ => kept_disconnectFromHost client

theorem kept_writeSseResponse (client : SocketId) (body : List (JsonObject × Option RequestTag)) :
    Kept (writeSseResponse client body) :=
  .bind (.reads _) fun _ => kept_write _ _

theorem kept_writeAckOrQueuedMessages (client : SocketId) :
    Kept (writeAckOrQueuedMessages client) := by
  refine .bind .read fun s => .ite _ ?_ ?_
  · exact .bind (kept_write _ _) fun _ => kept_disconnectFromHost client
  · exact .bind (kept_modify fun _ => .of_eq rfl rfl rfl) fun _ =>
      .bind (kept_writeSseResponse _ _) fun _ => kept_disconnectFromHost client

theorem kept_writeAnswer (client : SocketId) (message : JsonObject)
    (answers : Option RequestTag) : Kept (writeAnswer client message answers) := by
  refine .bind .read fun s => .ite _ ?_ ?_
  · exact .bind (.bind (.reads _) fun _ => kept_write _ _) fun _ => kept_disconnectFromHost client
  · exact .bind (kept_modify fun _ => .of_eq rfl rfl rfl) fun _ =>
      .bind (kept_writeSseResponse _ _) fun _ => kept_disconnectFromHost client

theorem kept_send (answers : Option RequestTag) (message : JsonObject) :
    Kept (send answers message) := by
  refine .bind .read fun s => .ite _ (.query nofun) (.ite _ ?_ ?_)
  · dsimp only
    split
    · exact .pure _
    · exact .bind (kept_modify fun _ => .of_eq rfl rfl rfl) fun _ =>
        .ite _ (kept_writeAnswer _ _ _) (.pure _)
  · refine kept_modify fun s => ?_
    unfold enqueue enforceQueueBudget
    dsimp only
    split
    · exact .of_eq rfl rfl rfl
    · exact .of_eq rfl rfl rfl

theorem inside_host : SessionHost.Inside host SocketsKept fun e => ∀ client, e ≠ .parseNext client where
  toComposes := Within.composes
  send tag message := kept_send tag message
  abandon _ := .pure _
  emit _ := .query nofun
  handle _ _ _ := .query nofun
  notify _ _ := .query nofun
  progress _ _ _ _ := .query nofun
  update _ := kept_modify fun _ => .of_eq rfl rfl rfl

theorem kept_disconnectEntries
    (entries : List (Sigma fun _ : String => PendingRequestEntry)) :
    Kept (disconnectEntries entries) := by
  induction entries with
  | nil => exact .pure _
  | cons e rest ih =>
      refine .bind (kept_modify fun _ => .of_eq rfl rfl rfl) fun _ => .bind (.reads _) fun _ => ?_
      exact .ite _ ih (.bind (kept_disconnectFromHost _) fun _ => ih)

theorem kept_endSession : Kept endSession :=
  .bind (kept_modify fun _ => .of_eq rfl rfl rfl) fun _ => .bind (.reads _) fun _ =>
    .bind (kept_disconnectEntries _) fun _ => .bind (kept_modify fun _ => .of_eq rfl rfl rfl)
      fun _ => .bind (.query nofun) fun _ => kept_modify fun _ => .of_eq rfl rfl rfl

theorem kept_processMessage (client : SocketId) (msg : JsonObject) :
    Kept (processMessage client msg) := by
  refine .ite _ ?_ ?_
  · refine .bind (.reads _) fun pending => .ite _ (kept_respondWithStatus _ _ _) ?_
    refine .ite _ (kept_respondWithStatus _ _ _) ?_
    exact .bind (kept_modify fun _ => .of_eq rfl rfl rfl) fun _ =>
      inside_host.onMessageReceived msg
  · exact .bind (inside_host.onMessageReceived msg) fun _ => kept_writeAckOrQueuedMessages client

theorem kept_processRequest (client : SocketId) (req : HttpRequest) :
    Kept (processRequest client req) := by
  refine .bind .read fun s => .ite _ ?_ ?_
  · exact .bind (kept_write _ _) fun _ => kept_disconnectFromHost client
  · split
    · exact kept_respondWithStatus _ _ _
    · refine .ite _ (.ite _ (kept_respondWithStatus _ _ _) ?_) ?_
      · exact .bind kept_endSession fun _ => kept_respondWithStatus _ _ _
      · split
        · exact kept_respondWithStatus _ _ _
        · exact kept_processMessage client _

theorem accept_kept (count : Nat) (s : HttpServer) : SocketsKept s (accept^[count] s) := by
  induction count generalizing s with
  | zero => exact .refl s
  | succ count ih =>
      refine SocketsKept.trans ⟨Nat.le_succ _, fun c hc => ?_, fun c hc => ?_⟩ (ih (accept s))
      · rcases Finset.mem_insert.mp hc with rfl | hc
        · exact .inr (Nat.le_refl _)
        · exact .inl hc
      · rcases Finset.mem_insert.mp hc with rfl | hc
        · exact .inr (Nat.lt_succ_self _)
        · exact .inl hc

theorem dropEntriesOf_kept (client : SocketId)
    (entries : List (Sigma fun _ : String => PendingRequestEntry)) (s : HttpServer) :
    SocketsKept s (dropEntriesOf client entries s) := by
  induction entries generalizing s with
  | nil => exact .refl s
  | cons e rest ih =>
      refine SocketsKept.trans ?_ (ih _)
      split
      · exact .of_eq rfl rfl rfl
      · exact .refl s

theorem kept_onPendingTimeout (idStr : String) : Kept (onPendingTimeout idStr) := by
  refine .bind .read fun s => ?_
  split
  · exact .pure _
  · refine .bind (kept_modify fun _ => .of_eq rfl rfl rfl) fun _ => .ite _ ?_ (.pure _)
    exact .bind (kept_write _ _) fun _ => kept_disconnectFromHost _

theorem kept_pendingTimeout (timer : TimerId) : Kept (pendingTimeout timer) := by
  refine .bind (.reads _) fun timers => ?_
  split
  · exact .pure _
  · exact .bind (kept_modify fun _ => .of_eq rfl rfl rfl) fun _ => kept_onPendingTimeout _

theorem kept_abortSockets (clients : List SocketId) : Kept (abortSockets clients) := by
  induction clients with
  | nil => exact .pure _
  | cons client rest ih =>
      refine .bind (kept_modify fun s => ?_) fun _ => .bind (.query nofun) fun _ => ih
      exact ⟨Nat.le_refl _, fun _ hc => .inl (Finset.mem_of_mem_erase hc), fun _ hc => .inl hc⟩

theorem kept_stop : Kept stop := by
  refine .bind .read fun s => .ite _ ?_ (.pure _)
  refine .bind (kept_modify fun _ => .of_eq rfl rfl rfl) fun _ =>
    .bind (kept_abortSockets _) fun _ => .bind (kept_modify fun s => ?_) fun _ =>
      inside_host.abortPending _
  exact ⟨Nat.le_refl _, fun _ hc => .inl hc, fun c hc => absurd hc (Finset.notMem_empty c)⟩

/-- Every event but the arrival of data connects only new sockets. -/
theorem kept_entry {e : HttpEvent} (h : ∀ client, e ≠ .readyRead client) : Kept (httpEntry e) := by
  cases e with
  | session c => exact inside_host.call c
  | start =>
      refine .bind (.reads _) fun isOpen => .ite _ (.pure _) (.bind (.query nofun) fun listening => ?_)
      exact .ite _ (kept_modify fun _ => .of_eq rfl rfl rfl) (.query nofun)
  | stop => exact kept_stop
  | newConnection count => exact kept_modify fun s => accept_kept count s
  | readyRead client => exact absurd rfl (h client)
  | connectionLost client =>
      exact kept_modify fun s =>
        ⟨Nat.le_refl _, fun _ hc => .inl (Finset.mem_of_mem_erase hc), fun _ hc => .inl hc⟩
  | disconnected client =>
      refine .bind (kept_modify fun s => ?_) fun _ => .bind (.reads _) fun subscribed =>
        .ite _ (kept_modify fun s => ?_) (.pure _)
      · exact ⟨Nat.le_refl _, fun _ hc => .inl (Finset.mem_of_mem_erase hc), fun _ hc => .inl hc⟩
      · have hgone : SocketsKept s { s with connections := s.connections.erase client } :=
          ⟨Nat.le_refl _, fun _ hc => .inl hc, fun _ hc => .inl (Finset.mem_of_mem_erase hc)⟩
        exact hgone.trans (dropEntriesOf_kept client _ _)
  | socketDeleted client =>
      exact kept_modify fun s =>
        ⟨Nat.le_refl _, fun _ hc => .inl (Finset.mem_of_mem_erase hc), fun _ hc => .inl hc⟩
  | pendingTimeout timer => exact kept_pendingTimeout timer

end HttpServer

/-! ### What holds of a run -/

/-- The parser of a connection reported an error, or its socket was asked to disconnect. -/
def ClosedIn (history : List WireObservation) (client : SocketId) : Prop :=
  (∃ status, WireObservation.rejected client status ∈ history) ∨
    WireObservation.closing client ∈ history

/-- A request is taken from a connection only before it is closed. -/
def WireFollows (earlier : List WireObservation) : WireObservation → Prop
  | .taken client _ => ¬ ClosedIn earlier client
  | _ => True

/-- No request is ever taken from a connection that was rejected or closed. -/
def NothingFurther (w : HttpWire) : Prop := Ordered WireFollows w.history

/-- Has the parser nothing to take, neither a header block nor a body? -/
def Unready (p : HttpRequestParser) : Prop :=
  match p.phase with
  | .readingHeaders => HttpRequestParser.headerEnd p.buffer < 0
  | .readingBody => (p.buffer.length : Int) < p.contentLength
  | .complete => False

theorem parseNext_unready {p : HttpRequestParser} (h : Unready p) :
    p.parseNext.1 = .needMoreData ∨ p.parseNext.1 = .headerOverflow := by
  unfold Unready at h
  unfold HttpRequestParser.parseNext
  cases hp : p.phase with
  | complete =>
      rw [hp] at h
      exact h.elim
  | readingHeaders =>
      rw [hp] at h
      dsimp only at h ⊢
      unfold HttpRequestParser.readHeaders
      simp only [if_pos h]
      split
      · exact .inr rfl
      · exact .inl rfl
  | readingBody =>
      rw [hp] at h
      dsimp only at h ⊢
      unfold HttpRequestParser.readBody
      rw [if_pos h]
      exact .inl rfl

/-- Where `readyRead` is delivered for a connection that was rejected or closed, the bytes
there are neither end a header block nor complete a body. -/
def ReadsOpen (w : HttpWire) : WireEvent → Prop
  | .server (.readyRead client) =>
      ClosedIn w.history client → Unready ((w.parser client).feed (w.unread client))
  | _ => True

/-! ### The contract -/

structure WireInv (w : HttpWire) : Prop where
  nothing : NothingFurther w
  known : ∀ c ∈ w.server.connections, c < w.server.nextSocket

/-- What a complete visit may do: a connection it closes it also disconnects. -/
structure WireRely (w w' : HttpWire) : Prop where
  kept : SocketsKept w.server w'.server
  closed : ∀ c, ClosedIn w.history c → ClosedIn w'.history c
  disconnected : ∀ c, ClosedIn w'.history c → ClosedIn w.history c ∨
    (c ∉ w'.server.connected ∧ c < w'.server.nextSocket)

theorem WireRely.refl (w : HttpWire) : WireRely w w := ⟨.refl _, fun _ h => h, fun _ h => .inl h⟩

theorem WireRely.trans {w₁ w₂ w₃ : HttpWire} (h₁ : WireRely w₁ w₂) (h₂ : WireRely w₂ w₃) :
    WireRely w₁ w₃ where
  kept := h₁.kept.trans h₂.kept
  closed c hc := h₂.closed c (h₁.closed c hc)
  disconnected c hc := by
    rcases h₂.disconnected c hc with hc | hc
    · refine (h₁.disconnected c hc).imp_right fun ⟨hout, hlt⟩ => ?_
      exact ⟨h₂.kept.not_connected hout hlt, lt_of_lt_of_le hlt h₂.kept.next⟩
    · exact .inr hc

/-- The loop of `onReadyRead` is entered for a connection that is open, or has nothing to
take. -/
structure Readable (w : HttpWire) (client : SocketId) : Prop extends WireInv w where
  exists_socket : client < w.server.nextSocket
  unready : ClosedIn w.history client → Unready (w.parser client)

def wireContract : Contract WireSig where
  inv := WireInv
  rely := WireRely
  pre | .readLoop client => fun w => Readable w client
  post _ w _ w' := WireInv w' ∧ WireRely w w'

theorem wireContract_preorder : wireContract.Preorder := ⟨.refl, fun h₁ h₂ => h₁.trans h₂⟩

/-- An update that leaves the history and the connections alone. -/
theorem WireInv.quiet {w w' : HttpWire} (hw : WireInv w) (hhistory : w'.history = w.history)
    (hkept : SocketsKept w.server w'.server) : WireInv w' ∧ WireRely w w' := by
  refine ⟨⟨?_, fun c hc => ?_⟩, hkept, ?_, ?_⟩
  · rw [NothingFurther, hhistory]
    exact hw.nothing
  · rcases hkept.connections c hc with hc | hc
    · exact lt_of_lt_of_le (hw.known c hc) hkept.next
    · exact hc
  · rw [hhistory]
    exact fun _ hc => hc
  · rw [hhistory]
    exact fun _ hc => .inl hc

theorem closedIn_cons {o : WireObservation} {history : List WireObservation} {client : SocketId} :
    ClosedIn (o :: history) client ↔
      ((∃ status, o = .rejected client status) ∨ o = .closing client) ∨
        ClosedIn history client := by
  unfold ClosedIn
  simp only [List.mem_cons, exists_or, eq_comm]
  tauto

/-- Asking a socket to disconnect. -/
theorem WireInv.closing {w : HttpWire} (hw : WireInv w) (client : SocketId) :
    WireInv (w.closing client) ∧ WireRely w (w.closing client) := by
  unfold HttpWire.closing
  split
  · rename_i hlt
    refine ⟨⟨ordered_cons.mpr ⟨trivial, hw.nothing⟩, hw.known⟩, ?_, ?_, ?_⟩
    · exact ⟨Nat.le_refl _, fun _ hc => .inl (Finset.mem_of_mem_erase hc), fun _ hc => .inl hc⟩
    · exact fun c hc => closedIn_cons.mpr (.inr hc)
    · intro c hc
      rcases closedIn_cons.mp hc with (⟨status, ho⟩ | ho) | hc
      · cases ho
      · obtain rfl := WireObservation.closing.inj ho
        exact .inr ⟨Finset.notMem_erase _ _, hlt⟩
      · exact .inl hc
  · exact ⟨hw, .refl w⟩

section Code

variable (codec : JsonCodec) {ans : HttpWire → (e : HttpOut) → e.Ans → Prop}

/-- The code for every call-out but that to a parser keeps the contract. -/
theorem keepsWire_out {e : HttpOut} (h : ∀ client, e ≠ .parseNext client) :
    wireContract.Keeps ans ((wired codec).out e) := by
  cases e with
  | parseNext client => exact absurd rfl (h client)
  | disconnectFromHost client =>
      exact Contract.Keeps.bind wireContract_preorder
        (Contract.Keeps.modify (S := WireSig) fun w hw => WireInv.closing hw client)
        fun _ => Contract.Keeps.query (S := WireSig) _
  | flush client => exact Contract.Keeps.query (S := WireSig) _
  | abort client => exact Contract.Keeps.query (S := WireSig) _
  | listen => exact Contract.Keeps.query (S := WireSig) _
  | createUuid => exact Contract.Keeps.query (S := WireSig) _
  | errorOccurred reason => exact Contract.Keeps.query (S := WireSig) _
  | emit signal => exact Contract.Keeps.query (S := WireSig) _
  | handle tag method params => exact Contract.Keeps.query (S := WireSig) _
  | notify method params => exact Contract.Keeps.query (S := WireSig) _
  | progress token progress total message => exact Contract.Keeps.query (S := WireSig) _

/-- The transport's code keeps the contract. -/
theorem keepsWire {α : Type} {p : Proc HttpSig α} (h : HttpServer.Kept p) :
    wireContract.Keeps ans (p.implement (wired codec)) :=
  Proc.Within.keeps wireContract_preorder (fun _ _ hw hkept => WireInv.quiet hw rfl hkept)
    (fun _ he => keepsWire_out codec he) h

/-- An error of the parser: the connection is answered and disconnected. -/
theorem wp_refuse {w : HttpWire} {client : SocketId} (hw : WireInv w)
    (hlt : client < w.server.nextSocket) (r : HttpRequestParser.Status × HttpRequestParser)
    (status : Nat) (reason : String) :
    wp ans wireContract
      ((HttpServer.respondWithStatus client status reason).implement (wired codec))
      (fun _ w' => WireInv w' ∧ WireRely w w') (w.refuse client r) := by
  have hrefused : WireInv (w.refuse client r) :=
    ⟨ordered_cons.mpr ⟨trivial, hw.nothing⟩, hw.known⟩
  have hold : ∀ c, ClosedIn (w.refuse client r).history c → ClosedIn w.history c ∨ c = client := by
    intro c hc
    rcases closedIn_cons.mp hc with (⟨status, ho⟩ | ho) | hc
    · exact .inr (WireObservation.rejected.inj ho).1.symm
    · cases ho
    · exact .inl hc
  rw [HttpServer.respondWithStatus, Proc.implement_bind, wp_bind]
  refine (keepsWire codec (HttpServer.kept_write client _)).wp hrefused fun _ w₁ hw₁ hr₁ => ?_
  -- the socket is disconnected before anything else can happen
  let w₂ : HttpWire := { w₁ with server.connected := w₁.server.connected.erase client }
  obtain ⟨hw₂, hr₂⟩ : WireInv w₂ ∧ WireRely w₁ w₂ := hw₁.quiet rfl
    ⟨Nat.le_refl _, fun _ hc => .inl (Finset.mem_of_mem_erase hc), fun _ hc => .inl hc⟩
  obtain ⟨hw₃, hr₃⟩ := WireInv.closing hw₂ client
  have hlt₂ : client < w₂.server.nextSocket := lt_of_lt_of_le hlt (hr₁.trans hr₂).kept.next
  have hout : client ∉ w₂.server.connected := Finset.notMem_erase _ _
  show WireInv (w₂.closing client) ∧ ∀ w₄, WireRely (w₂.closing client) w₄ → WireInv w₄ →
    ∀ a, ans w₄ (.disconnectFromHost client) a → WireInv w₄ ∧ WireRely w w₄
  refine ⟨hw₃, fun w₄ hr₄ hw₄ _ _ => ⟨hw₄, ?_⟩⟩
  have hr := hr₁.trans (hr₂.trans (hr₃.trans hr₄))
  refine ⟨hr.kept, fun c hc => hr.closed c (closedIn_cons.mpr (.inr hc)), fun c hc => ?_⟩
  rcases hr.disconnected c hc with hc | hc
  · refine (hold c hc).imp_right fun he => ?_
    subst he
    have hkept := hr₃.kept.trans hr₄.kept
    exact ⟨hkept.not_connected hout hlt₂, lt_of_lt_of_le hlt₂ hkept.next⟩
  · exact .inr hc

/-- What asking a parser does. -/
theorem wp_parseNext {α : Type} {w : HttpWire} {client : SocketId}
    {g : ParseResult → Proc WireSig α} {Q : α → HttpWire → Prop}
    (h : wp ans wireContract (g (w.parseNext codec client).1) Q (w.parseNext codec client).2) :
    wp ans wireContract ((wired codec).out (.parseNext client) >>= g) Q w :=
  h

/-- The body of the loop of `onReadyRead`. -/
theorem wp_wire_readLoop {w : HttpWire} {client : SocketId} (h : Readable w client) :
    wp ans wireContract ((HttpServer.readLoop client).implement (wired codec))
      (fun _ w' => WireInv w' ∧ WireRely w w') w := by
  rw [HttpServer.readLoop, Proc.implement_bind, Proc.implement_query]
  refine wp_parseNext codec ?_
  have hlt := h.exists_socket
  generalize hr : (w.parser client).parseNext = r
  unfold HttpWire.parseNext
  simp only [hr]
  cases hs : r.1 with
  | needMoreData => exact h.toWireInv.quiet rfl (.refl _)
  | complete =>
      -- a parser with something to take is that of an open connection
      have hopen : ¬ ClosedIn w.history client := by
        intro hc
        rcases parseNext_unready (h.unready hc) with hn | hn
        · rw [hr, hs] at hn
          cases hn
        · rw [hr, hs] at hn
          cases hn
      let w₁ := (w.setParser client r.2.takeRequest.2).observe (.taken client r.2.takeRequest.1)
      have hw₁ : WireInv w₁ := ⟨ordered_cons.mpr ⟨hopen, h.nothing⟩, h.known⟩
      have hclosed : ∀ c, ClosedIn w₁.history c ↔ ClosedIn w.history c := by
        intro c
        refine ⟨fun hc => ?_, fun hc => closedIn_cons.mpr (.inr hc)⟩
        rcases closedIn_cons.mp hc with (⟨status, ho⟩ | ho) | hc
        · cases ho
        · cases ho
        · exact hc
      have hr₁ : WireRely w w₁ :=
        ⟨.refl _, fun c hc => (hclosed c).mpr hc, fun c hc => .inl ((hclosed c).mp hc)⟩
      dsimp only
      rw [Proc.implement_bind, wp_bind]
      refine (keepsWire codec (HttpServer.kept_observe _)).wp hw₁ fun _ w₁ hw₁ hr₁' => ?_
      have hr₁ := hr₁.trans hr₁'
      rw [Proc.implement_bind, wp_bind]
      refine (keepsWire codec (HttpServer.kept_processRequest client _)).wp hw₁
        fun _ w₂ hw₂ hr₂ => ?_
      show wp ans wireContract (Proc.implement (wired codec)
        (if client ∈ w₂.server.connections ∧ client ∈ w₂.server.connected then
          Proc.invoke (S := HttpSig) (.readLoop client) else pure ())) _ w₂
      have hr := hr₁.trans hr₂
      split
      · rename_i hagain
        have hreadable : Readable w₂ client :=
          { hw₂ with
            exists_socket := lt_of_lt_of_le hlt hr.kept.next
            unready := fun hc => (hr.disconnected client hc).elim (fun hc => absurd hc hopen)
              fun hc => absurd hagain.2 hc.1 }
        exact ⟨hreadable, fun _ w₃ hw₃ => ⟨hw₃.1, hr.trans hw₃.2⟩⟩
      · exact ⟨hw₂, hr⟩
  | headerOverflow => exact wp_refuse codec h.toWireInv hlt r _ _
  | bodyTooLarge => exact wp_refuse codec h.toWireInv hlt r _ _
  | invalidContentLength => exact wp_refuse codec h.toWireInv hlt r _ _
  | invalidRequestLine => exact wp_refuse codec h.toWireInv hlt r _ _

/-- The code of each event. -/
theorem wp_wire_entry {w : HttpWire} (hw : WireInv w) {e : WireEvent} (he : ReadsOpen w e) :
    wp ans wireContract (wireEntry codec e) (fun _ w' => WireInv w' ∧ WireRely w w') w := by
  cases e with
  | arrived client bytes => exact hw.quiet rfl (.refl _)
  | server e =>
      by_cases hread : ∃ client, e = .readyRead client
      · obtain ⟨client, rfl⟩ := hread
        show wp ans wireContract (if client ∈ w.server.subscribed then
          if client ∈ w.server.connections then
            Proc.modify (S := WireSig) (HttpWire.readAll client) >>= fun _ =>
              Proc.implement (wired codec) (HttpServer.onReadyRead client)
          else pure () else pure ()) _ w
        split
        · split
          · rename_i hknown
            let w₁ := w.readAll client
            have hreadable : Readable w₁ client :=
              { nothing := hw.nothing
                known := hw.known
                exists_socket := hw.known client hknown
                unready := fun hc => by
                  have hfed : w₁.parser client = (w.parser client).feed (w.unread client) :=
                    if_pos rfl
                  rw [hfed]
                  exact he hc }
            show wp ans wireContract (Proc.implement (wired codec)
              (if client ∈ w₁.server.connections then
                Proc.invoke (S := HttpSig) (.readLoop client) else pure ())) _ w₁
            rw [if_pos (show client ∈ w₁.server.connections from hknown)]
            have hr : WireRely w w₁ := ⟨.refl _, fun _ hc => hc, fun _ hc => .inl hc⟩
            exact ⟨hreadable, fun _ w₂ hw₂ => ⟨hw₂.1, hr.trans hw₂.2⟩⟩
          · exact ⟨hw, .refl w⟩
        · exact ⟨hw, .refl w⟩
      · have hkept := HttpServer.kept_entry fun client he => hread ⟨client, he⟩
        have hentry : wireEntry codec (.server e) = Proc.implement (wired codec) (httpEntry e) := by
          cases e with
          | readyRead client => exact absurd ⟨client, rfl⟩ hread
          | _ => rfl
        rw [hentry]
        exact keepsWire codec hkept w hw

end Code

theorem wire_valid (codec : JsonCodec) :
    wireContract.Valid (Surroundings.only (wireMachine codec) ReadsOpen) :=
  .of_guarded wireContract_preorder (fun _ _ hw he => wp_wire_entry codec hw he)
    fun f _ h => match f with
      | .readLoop _ => wp_wire_readLoop codec h

/-- In every run in which nothing ready is read from a connection that was rejected or closed,
no request is taken from one. -/
theorem http_nothing_further (codec : JsonCodec) (config : HttpServerConfig) (sessionId : String)
    (maxHeaderBytes maxBodyBytes : Int) {c : Config WireSig}
    (hrun : Reaches (Surroundings.only (wireMachine codec) ReadsOpen)
      (.idle (.init config sessionId maxHeaderBytes maxBodyBytes)) c)
    (hw : c.Waiting) : NothingFurther c.state := by
  have hinit : WireInv (.init config sessionId maxHeaderBytes maxBodyBytes) :=
    ⟨ordered_nil, fun c hc => absurd hc (Finset.notMem_empty c)⟩
  exact ((wire_valid codec).waiting hinit hrun hw).nothing

/-- The answers of surroundings that find nothing in particular. -/
def HttpOut.quietly : (e : HttpOut) → e.Ans
  | .parseNext _ => .needMoreData
  | .listen => true
  | .createUuid => ""
  | .handle .. => .ok ()
  | .flush _ | .disconnectFromHost _ | .abort _ | .errorOccurred _ | .emit _ | .notify ..
  | .progress .. => ()

/-- A reader that finds no document. -/
def noCodec : JsonCodec := ⟨fun _ => .null, fun _ => ""⟩

/-- Bytes arrive at the first socket and are read. -/
def deliver (bytes : Bytes) : List (Move (wireMachine noCodec)) :=
  [.event (.arrived 0 bytes), .event (.server (.readyRead 0))]

/-- The call-outs of an answer return. -/
def answered : List (Move (wireMachine noCodec)) :=
  [.answer HttpOut.quietly, .answer HttpOut.quietly]

/-- A request whose body is refused. -/
def refusedMoves : List (Move (wireMachine noCodec)) :=
  .event (.server (.newConnection 1)) ::
    (deliver (Bytes.ascii "POST / HTTP/1.1\r\nContent-Length:29\r\n\r\n") ++ answered)

/-- The refused body, which looks like a request. -/
def bodyMoves : List (Move (wireMachine noCodec)) :=
  deliver (Bytes.ascii "GET / H\r\nContent-Length:0\r\n\r\n")

/-- The request the refused body looks like. -/
def smuggled : Network.HttpRequest where
  method := Bytes.ascii "GET"
  target := Bytes.ascii "/"
  httpVersion := Bytes.ascii "H"
  headers := (∅ : AList _).insert (Bytes.ascii "content-length") (Bytes.ascii "0")

/-- A body is refused before it arrives, and what arrives of it ends no header block: the parser
has it, and takes nothing. -/
theorem http_nothing_further_refused :
    ∃ c : Config WireSig, c.Waiting ∧ NothingFurther c.state ∧
      c.state.history = [.closing 0, .rejected 0 .bodyTooLarge] ∧
      (c.state.parser 0).buffer = Bytes.ascii "GET /" := by
  have hplay : Playable (Surroundings.only (wireMachine noCodec) ReadsOpen) 3
      (refusedMoves ++ deliver (Bytes.ascii "GET /")) (.idle (.init {} "" 100 4)) := by
    refine ⟨trivial, trivial, ?_, trivial, trivial, trivial, fun _ => ?_, trivial⟩
    · exact fun h => h.elim (fun ⟨_, h⟩ => absurd h List.not_mem_nil)
        fun h => absurd h List.not_mem_nil
    · exact (by decide : HttpRequestParser.headerEnd (Bytes.ascii "GET /") < 0)
  have hw : (play (wireMachine noCodec) 3 (refusedMoves ++ deliver (Bytes.ascii "GET /"))
      (.idle (.init {} "" 100 4))).Waiting := Or.inl rfl
  exact ⟨_, hw, http_nothing_further noCodec {} "" 100 4 (reaches_play hplay) hw, rfl, rfl⟩

/-- The refused body is taken for a request. -/
theorem http_body_taken_for_request :
    ∃ c : Config WireSig, Reaches (Surroundings.any (wireMachine noCodec))
        (.idle (.init {} "" 100 4)) c ∧ c.Waiting ∧
      c.state.history = [.taken 0 smuggled, .closing 0, .rejected 0 .bodyTooLarge] ∧
      ¬ NothingFurther c.state := by
  have hplay : Playable (Surroundings.any (wireMachine noCodec)) 3 (refusedMoves ++ bodyMoves)
      (.idle (.init {} "" 100 4)) :=
    ⟨trivial, trivial, trivial, trivial, trivial, trivial, trivial, trivial⟩
  have hhistory : (play (wireMachine noCodec) 3 (refusedMoves ++ bodyMoves)
      (.idle (.init {} "" 100 4))).state.history =
      [.taken 0 smuggled, .closing 0, .rejected 0 .bodyTooLarge] := rfl
  refine ⟨_, reaches_play hplay, Or.inr ⟨_, _, rfl⟩, hhistory, fun h => ?_⟩
  rw [NothingFurther, hhistory, ordered_cons] at h
  exact h.1 (.inr List.mem_cons_self)

end LLMQore.Mcp
