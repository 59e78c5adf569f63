import LLMQore.Mcp.StreamableHttpTransport
import LLMQore.Network.SSEChunking

/-!
# LLMQore.Mcp.ListenStream

What comes over the listen streams of the transport over HTTP.

Whatever happens, the messages that were delivered and those in the backlog are a subsequence of
what the server has sent (`ReplayInv`): each stream goes on behind everything that was taken
before, since it is opened with the cursor or, without one, carries only what is sent later.

For which session a stream was opened is known to the observer. An exchange that was begun while
`startNewSession` told of superseded requests outlives the sessions that end then, and may open a
stream for one of them; where nothing is sent meanwhile all that is alive is of the session that
goes on (`Current`).
-/

namespace LLMQore.Mcp

open Reentrant Network Streaming Streamable

/-! ### The server of the listen streams -/

/-- A parser reads a listen stream from its beginning, for a client with this `Last-Event-ID`. -/
def readStream (lastEventId bytes : Bytes) : SSEParser × List SSEEvent :=
  feed SSEParser.step { lastEventId, idBuffer := lastEventId } bytes

namespace Streamable

/-- What a reader takes from an event: nothing, if it has no data. -/
def ServerEvent.content (e : ServerEvent) : Option (String × Bytes) :=
  if e.data.isEmpty then none else some (e.type, e.data)

/-- The message of an event, if it carries one. -/
def ServerEvent.message (json : RpcCodec) (e : ServerEvent) : Option JsonObject :=
  e.content.bind fun c => StreamableHttpTransport.messageOf json c.1 c.2

/-- The message of an event in the backlog. -/
def Backlogged.message (json : RpcCodec) (b : Backlogged) : Option JsonObject :=
  StreamableHttpTransport.messageOf json b.event.type b.event.data

/-- The bytes are those of the events. -/
structure Carries (lastEventId bytes : Bytes) (events : List ServerEvent) : Prop where
  content : (readStream lastEventId bytes).2.map (fun e => (e.type, e.data)) =
    events.filterMap ServerEvent.content
  cursor : (readStream lastEventId bytes).1.lastEventId =
    Resume.cursor ServerEvent.id lastEventId events

instance (lastEventId bytes : Bytes) (events : List ServerEvent) :
    Decidable (Carries lastEventId bytes events) :=
  decidable_of_iff (_ ∧ _) ⟨fun h => ⟨h.1, h.2⟩, fun h => ⟨h.content, h.cursor⟩⟩

/-- The deliveries in a history, oldest first. -/
def delivered : List Observation → List Delivery
  | [] => []
  | .delivered d :: h => delivered h ++ [d]
  | _ :: h => delivered h

end Streamable

namespace StreamableHttpTransport

/-- With the chunk there have come, of the events for its session that the server sends from its
place on, the first few, and part of the next. No line is longer than a parser keeps. -/
def Sends (s : StreamableHttpTransport) (chunk : Bytes) : Prop :=
  ∃ p n, s.listening.start = some p ∧
    WithinLimit ({} : SSEParser).maxBufferBytes (s.listening.received ++ chunk) ∧
    Carries s.listening.lastEventId (s.listening.received ++ chunk)
      (((s.served.drop p).filter (·.session == s.listening.sessionId)).take n)

/-- More than was `served` cannot have come. -/
instance (s : StreamableHttpTransport) (chunk : Bytes) : Decidable (s.Sends chunk) :=
  decidable_of_iff (∃ p ∈ s.listening.start, ∃ n ∈ List.range (s.served.length + 1),
    WithinLimit ({} : SSEParser).maxBufferBytes (s.listening.received ++ chunk) ∧
    Carries s.listening.lastEventId (s.listening.received ++ chunk)
      (((s.served.drop p).filter (·.session == s.listening.sessionId)).take n)) <| by
  constructor
  · rintro ⟨p, hp, n, -, hsends⟩
    exact ⟨p, n, hp, hsends⟩
  · rintro ⟨p, n, hp, hlimit, hcarries⟩
    refine ⟨p, hp, min n s.served.length, by simp, hlimit, ?_⟩
    have hlength : ((s.served.drop p).filter (·.session == s.listening.sessionId)).length ≤
        s.served.length := (List.length_filter_le _ _).trans (by simp)
    rcases Nat.le_total n s.served.length with h | h
    · rwa [Nat.min_eq_left h]
    · rw [Nat.min_eq_right h, List.take_of_length_le hlength]
      rwa [List.take_of_length_le (hlength.trans h)] at hcarries

/-- The server gives an id to every message, and on a request for the listen stream it goes on
after the `Last-Event-ID`, or with what it sends from then on. -/
def Serves (json : RpcCodec) (s : StreamableHttpTransport) : StreamableEvent → Prop
  | .listen _ (.chunkReceived chunk) _ => s.Sends chunk
  | .serve e => (e.message json).isSome → e.id.isSome
  | .answerListen => s.listenStream.isSome ∧ s.listening.start = none
  | _ => True

instance (json : RpcCodec) (s : StreamableHttpTransport) (e : StreamableEvent) :
    Decidable (s.Serves json e) := by
  unfold Serves; split <;> infer_instance

/-- The messages that were delivered over listen streams, and those that wait in the backlog. -/
def taken (json : RpcCodec) (s : StreamableHttpTransport) : List JsonObject :=
  (delivered s.history).map (·.message) ++
    s.listenBacklog.filterMap (Backlogged.message json)

/-- The messages the server has sent, up to a place. -/
def sent (json : RpcCodec) (s : StreamableHttpTransport) (p : Nat) : List JsonObject :=
  (s.served.take p).filterMap (ServerEvent.message json)

/-! ### What is asked of the transport -/

/-- What is delivered over listen streams is a subsequence of what the server has sent, so that
nothing is delivered twice; and it is delivered while the transport is open, over a stream of the
session that goes on. -/
structure ListensSafely (json : RpcCodec) (s : StreamableHttpTransport) : Prop where
  order : ((delivered s.history).map (·.message)).Sublist
    (s.served.filterMap (ServerEvent.message json))
  isOpen : ∀ d ∈ delivered s.history, d.isOpen = true
  current : ∀ d ∈ delivered s.history, ∀ session ∈ d.sessions, session = d.session

/-! ### The invariants -/

/-- The exchanges that go on, and who is connected to the transport. -/
structure ExchangeInv (s : StreamableHttpTransport) : Prop where
  live : ∀ id, (s.exchange id).done = false → id ∈ s.exchanges
  fresh : ∀ id, s.nextExchange ≤ id → (s.exchange id).done = true
  owner : ∀ stream id, (stream, some id) ∈ s.connected →
    (s.exchange id).done = false ∧ (s.exchange id).stream = some stream
  listener : ∀ stream, (stream, none) ∈ s.connected → s.listenStream = some stream
  timer : ∀ id, (s.exchange id).resumeTimer.isSome → (s.exchange id).stream = none

/-- All that is alive is of the session that goes on. -/
structure Current (s : StreamableHttpTransport) : Prop where
  exchanges : ∀ id, (s.exchange id).done = false → (s.exchange id).session = s.sessions
  superseding : 0 < s.superseding → ∀ id, (s.exchange id).done = true
  sessionId : ∀ k ∈ s.sessionIdFrom, k = s.sessions
  protocolVersion : ∀ k ∈ s.protocolVersionFrom, k = s.sessions
  listening : s.listenStream.isSome → ∀ k ∈ s.listening.sessions, k = s.sessions
  backlog : ∀ b ∈ s.listenBacklog, ∀ k ∈ b.sessions, k = s.sessions
  delivered : ∀ d ∈ delivered s.history, ∀ k ∈ d.sessions, k = d.session

/-- What has come over the listen stream that is open. -/
structure Listening (json : RpcCodec) (s : StreamableHttpTransport) : Prop where
  parser : s.listenEvents = (readStream s.listening.lastEventId s.listening.received).1
  cursor : s.lastEventId = s.listenEvents.lastEventId
  waiting : s.listening.start = none → s.listening.received = []
  /-- It carries what was sent from a place on that is behind everything taken before. -/
  started : ∀ p, s.listening.start = some p → p ≤ s.served.length ∧
    (s.listening.lastEventId ≠ [] →
      p ≤ Resume.start ServerEvent.id s.listening.lastEventId s.served) ∧
    ∃ before : List JsonObject, before.Sublist (s.sent json p) ∧
      s.taken json = before ++ (readStream s.listening.lastEventId s.listening.received).2.filterMap
        fun e => messageOf json e.type e.data

/-- What was taken is what the server has sent, and lies before the place of the cursor. -/
structure ReplayInv (json : RpcCodec) (s : StreamableHttpTransport) : Prop where
  keyed : ∀ e ∈ s.served, (e.message json).isSome → e.id.isSome
  order : (s.taken json).Sublist (s.served.filterMap (ServerEvent.message json))
  cursor : s.lastEventId ≠ [] →
    (s.taken json).Sublist (s.sent json (Resume.start ServerEvent.id s.lastEventId s.served))
  limit : s.listenEvents.maxBufferBytes = ({} : SSEParser).maxBufferBytes
  listening : s.listenStream.isSome → Listening json s

/-- Whenever the transport waits for its surroundings. -/
structure ListenInv (json : RpcCodec) (s : StreamableHttpTransport) : Prop where
  exchanges : ExchangeInv s
  replay : ReplayInv json s
  closed : s.isOpen = false → s.listenStream = none ∧ s.listenBacklog = []
  isOpen : ∀ d ∈ delivered s.history, d.isOpen = true
  current : s.sentMeanwhile = false → Current s

/-- What a visit may do. -/
structure ListenRely (s s' : StreamableHttpTransport) : Prop where
  superseding : s'.superseding = s.superseding
  sentMeanwhile : s'.sentMeanwhile = false → s.sentMeanwhile = false

theorem ListenRely.refl (s : StreamableHttpTransport) : ListenRely s s := ⟨rfl, id⟩

theorem ListenRely.trans {s₁ s₂ s₃ : StreamableHttpTransport} (h₁ : ListenRely s₁ s₂)
    (h₂ : ListenRely s₂ s₃) : ListenRely s₁ s₃ :=
  ⟨h₂.superseding.trans h₁.superseding, fun h => h₁.sentMeanwhile (h₂.sentMeanwhile h)⟩

end StreamableHttpTransport

/-- Surroundings with such a server. -/
def streamServer (json : RpcCodec) : Surroundings (streamableMachine json) :=
  .guarded _ (fun s e => e.Possible s ∧ s.Serves json e) fun _ _ _ => True

namespace StreamableHttpTransport

def listenContract (json : RpcCodec) : Contract StreamableSig where
  inv := ListenInv json
  rely := ListenRely
  pre _ := ListenInv json
  post _ s _ s' := ListenInv json s' ∧ ListenRely s s'

theorem listenContract_preorder (json : RpcCodec) : (listenContract json).Preorder :=
  ⟨.refl, fun h₁ h₂ => h₁.trans h₂⟩

abbrev KeepsListen {α : Type} (json : RpcCodec) (p : Proc StreamableSig α) : Prop :=
  (listenContract json).Keeps (streamServer json).answer p

theorem listenInv_init (json : RpcCodec) : ListenInv json {} where
  exchanges := by constructor <;> simp
  replay := ⟨by simp, .slnil, fun h => absurd rfl h, rfl, by simp⟩
  closed _ := ⟨rfl, rfl⟩
  isOpen := by simp [delivered]
  current _ := by constructor <;> simp [delivered]

/-! ### What has come over a stream -/

section Stream

variable {json : RpcCodec} {s : StreamableHttpTransport}

theorem readStream_append (lastEventId bytes chunk : Bytes) :
    readStream lastEventId (bytes ++ chunk) =
      emit (readStream lastEventId bytes).2
        (feed SSEParser.step (readStream lastEventId bytes).1 chunk) :=
  feed_append SSEParser.step _ bytes chunk

/-- A parser that has read the stream so far reads its next chunk. -/
theorem append_readStream {lastEventId bytes chunk : Bytes}
    (hlimit : WithinLimit ({} : SSEParser).maxBufferBytes (bytes ++ chunk)) :
    (readStream lastEventId bytes).1.append chunk =
      feed SSEParser.step (readStream lastEventId bytes).1 chunk :=
  have hbytes : WithinLimit ({} : SSEParser).maxBufferBytes (bytes ++ chunk ++ []) := by
    rwa [List.append_nil]
  append_eq_feed_of_within (p := { lastEventId, idBuffer := lastEventId }) rfl rfl hbytes

/-- The messages a reader takes from the bytes of events. -/
theorem messages_of_carries {lastEventId bytes : Bytes} {events : List ServerEvent}
    (h : Carries lastEventId bytes events) :
    ((readStream lastEventId bytes).2.filterMap fun e => messageOf json e.type e.data) =
      events.filterMap (ServerEvent.message json) := by
  have hread : ((readStream lastEventId bytes).2.filterMap fun e => messageOf json e.type e.data) =
      ((readStream lastEventId bytes).2.map fun e => (e.type, e.data)).filterMap
        fun c => messageOf json c.1 c.2 := by
    rw [List.filterMap_map]
    rfl
  rw [hread, h.content, List.filterMap_filterMap]
  rfl

/-- What a chunk adds to what was taken. -/
theorem taken_readListened (chunk : Bytes) :
    (s.readListened chunk).taken json = s.taken json ++
      (s.listenEvents.append chunk).2.filterMap fun e => messageOf json e.type e.data := by
  have hadded : ((s.listenEvents.append chunk).2.map fun event =>
      (⟨event, s.listening.sessions⟩ : Backlogged)).filterMap
        (Backlogged.message json) =
      (s.listenEvents.append chunk).2.filterMap fun e => messageOf json e.type e.data := by
    rw [List.filterMap_map]
    rfl
  show _ ++ (s.listenBacklog ++ _).filterMap _ = _
  rw [List.filterMap_append, hadded, ← List.append_assoc]
  rfl

/-- A chunk of the listen stream. -/
theorem ReplayInv.readListened (h : ReplayInv json s) (hopen : s.listenStream.isSome)
    {chunk : Bytes} (hsends : s.Sends chunk) : ReplayInv json (s.readListened chunk) := by
  obtain ⟨p, n, hstart, hlimit, hcarries⟩ := hsends
  have hl := h.listening hopen
  obtain ⟨hp, hplace, before, hbefore, htaken⟩ := hl.started p hstart
  have happend : s.listenEvents.append chunk = feed SSEParser.step
      (readStream s.listening.lastEventId s.listening.received).1 chunk := by
    rw [hl.parser, append_readStream hlimit]
  have hread := readStream_append s.listening.lastEventId s.listening.received chunk
  rw [← happend] at hread
  have hparser : (s.listenEvents.append chunk).1 =
      (readStream s.listening.lastEventId (s.listening.received ++ chunk)).1 := by rw [hread]; rfl
  have htaken' : (s.readListened chunk).taken json = before ++
      (readStream s.listening.lastEventId (s.listening.received ++ chunk)).2.filterMap
        fun e => messageOf json e.type e.data := by
    rw [taken_readListened, htaken, hread, List.append_assoc, ← List.filterMap_append]
    rfl
  generalize hevents : ((s.served.drop p).filter (·.session == s.listening.sessionId)).take n =
    events at hcarries
  have hprefix : events <+: (s.served.drop p).filter (·.session == s.listening.sessionId) :=
    hevents ▸ List.take_prefix _ _
  have hcursor : (s.listenEvents.append chunk).1.lastEventId =
      Resume.cursor ServerEvent.id s.listening.lastEventId events := by
    rw [hparser, hcarries.cursor]
  rw [messages_of_carries hcarries] at htaken'
  refine ⟨h.keyed, ?_, fun hne => ?_, ?_, fun _ => ⟨hparser, rfl, fun hnone => ?_, ?_⟩⟩
  · rw [htaken']
    exact Resume.sublist_log _ hbefore ((List.IsPrefix.sublist hprefix).trans List.filter_sublist)
  · rw [htaken']
    show List.Sublist _ (s.sent json (Resume.start ServerEvent.id
      (s.listenEvents.append chunk).1.lastEventId s.served))
    rw [hcursor]
    rcases Resume.sublist_start ServerEvent.id (ServerEvent.message json) h.keyed hbefore hprefix
      (c := s.listening.lastEventId) with ⟨hsame, hnone⟩ | hbehind
    · -- nothing with an id has come, so that nothing was taken
      have hne' : s.listening.lastEventId ≠ [] := hsame ▸ hcursor ▸ hne
      rw [hsame, hnone, List.append_nil]
      exact hbefore.trans ((List.take_prefix_take_left (hplace hne')).sublist.filterMap _)
    · exact hbehind
  · show (s.listenEvents.append chunk).1.maxBufferBytes = _
    rw [hparser]
    exact SSEParser.feed_maxBufferBytes _ _
  · exact absurd (hstart.symm.trans hnone) nofun
  · intro q hq
    obtain rfl : p = q := Option.some.inj (hstart.symm.trans hq)
    refine ⟨hp, hplace, before, hbefore, ?_⟩
    rw [htaken', ← messages_of_carries hcarries]
    rfl

/-- What the invariant speaks of stays. -/
theorem ReplayInv.same {s' : StreamableHttpTransport} (h : ReplayInv json s)
    (hserved : s'.served = s.served) (htaken : s'.taken json = s.taken json)
    (hcursor : s'.lastEventId = s.lastEventId) (hevents : s'.listenEvents = s.listenEvents)
    (hlistening : s'.listening = s.listening)
    (hopen : s'.listenStream.isSome → s.listenStream.isSome) : ReplayInv json s' := by
  refine ⟨hserved ▸ h.keyed, ?_, fun hne => ?_, hevents ▸ h.limit, fun hsome => ?_⟩
  · rw [htaken, hserved]
    exact h.order
  · rw [htaken, sent, hserved, hcursor]
    exact h.cursor (hcursor ▸ hne)
  · have hl := h.listening (hopen hsome)
    refine ⟨?_, ?_, ?_, ?_⟩
    · rw [hevents, hlistening]
      exact hl.parser
    · rw [hevents, hcursor]
      exact hl.cursor
    · rw [hlistening]
      exact hl.waiting
    · rw [hlistening, hserved, htaken]
      unfold sent
      rw [hserved]
      exact hl.started

/-- Nothing is listened to, what was taken may be forgotten, and so may the cursor. -/
theorem ReplayInv.quiet {s' : StreamableHttpTransport} (h : ReplayInv json s)
    (hserved : s'.served = s.served) (htaken : (s'.taken json).Sublist (s.taken json))
    (hcursor : s'.lastEventId = s.lastEventId ∨ s'.lastEventId = [])
    (hlimit : s'.listenEvents.maxBufferBytes = s.listenEvents.maxBufferBytes)
    (hnone : s'.listenStream = none) : ReplayInv json s' := by
  refine ⟨hserved ▸ h.keyed, ?_, fun hne => ?_, hlimit.trans h.limit, fun hsome => ?_⟩
  · rw [hserved]
    exact htaken.trans h.order
  · have hsame := hcursor.resolve_right hne
    rw [sent, hserved, hsame]
    exact htaken.trans (h.cursor (hsame ▸ hne))
  · rw [hnone] at hsome
    exact absurd hsome nofun

/-- A listen stream is opened. -/
theorem ReplayInv.openListening (h : ReplayInv json s) :
    ReplayInv json s.prepareListening.connectListening := by
  have hparser : s.prepareListening.listenEvents = (readStream s.lastEventId []).1 := by
    show ({ s.listenEvents.clear with lastEventId := _, idBuffer := _ } : SSEParser) = _
    unfold SSEParser.clear
    rw [h.limit]
    rfl
  exact ⟨h.keyed, h.order, h.cursor, h.limit, fun _ => ⟨hparser, rfl, fun _ => rfl, nofun⟩⟩

/-- The server sends an event. -/
theorem ReplayInv.serve (h : ReplayInv json s) {e : ServerEvent}
    (he : (e.message json).isSome → e.id.isSome) :
    ReplayInv json { s with served := s.served ++ [e] } := by
  have hsent : ∀ {p q}, p ≤ s.served.length → p ≤ q → (s.sent json p).Sublist
      (({ s with served := s.served ++ [e] } : StreamableHttpTransport).sent json q) := by
    intro p q hp hq
    show List.Sublist _ (((s.served ++ [e]).take q).filterMap _)
    refine List.Sublist.filterMap _ ?_
    rw [show s.served.take p = (s.served ++ [e]).take p from (List.take_append_of_le_length hp).symm]
    exact (List.take_prefix_take_left hq).sublist
  refine ⟨fun e' he' => ?_, ?_, fun hne => ?_, h.limit, fun hopen => ?_⟩
  · rcases List.mem_append.mp he' with hold | hnew
    · exact h.keyed e' hold
    · rw [List.mem_singleton.mp hnew]
      exact he
  · exact h.order.trans ((List.sublist_append_left _ _).filterMap _)
  · exact (h.cursor hne).trans
      (hsent (Resume.start_le _ _ _) (Resume.start_mono ServerEvent.id s.lastEventId s.served [e]))
  · have hl := h.listening hopen
    refine ⟨hl.parser, hl.cursor, hl.waiting, fun p hp => ?_⟩
    obtain ⟨hle, hplace, before, hbefore, htaken⟩ := hl.started p hp
    refine ⟨?_, fun hne => (hplace hne).trans (Resume.start_mono _ _ _ _), before,
      hbefore.trans (hsent hle (Nat.le_refl p)), htaken⟩
    show p ≤ (s.served ++ [e]).length
    rw [List.length_append]
    exact Nat.le_add_right_of_le hle

/-- The server begins to answer. -/
theorem ReplayInv.answerListen (h : ReplayInv json s) (hnew : s.listening.start = none) :
    ReplayInv json { s with listening := { s.listening with
      start := some (resumePlace s.served s.listening.lastEventId) } } := by
  refine ⟨h.keyed, h.order, h.cursor, h.limit, fun hopen => ?_⟩
  have hl := h.listening hopen
  have hnothing := hl.waiting hnew
  have hcursor : s.lastEventId = s.listening.lastEventId := by
    rw [hl.cursor, hl.parser, hnothing]
    rfl
  refine ⟨hl.parser, hl.cursor, nofun, fun p hp => ?_⟩
  obtain rfl : resumePlace s.served s.listening.lastEventId = p := Option.some.inj hp
  have hread : (readStream s.listening.lastEventId s.listening.received).2 = [] := by
    rw [hnothing]
    rfl
  refine ⟨?_, fun hne => ?_, s.taken json, ?_, ?_⟩
  · unfold resumePlace
    split
    · exact Nat.le_refl _
    · exact Resume.start_le _ _ _
  · rw [resumePlace, if_neg (by simpa using hne)]
  · show List.Sublist _ (s.sent json (resumePlace s.served s.listening.lastEventId))
    unfold resumePlace
    split
    · rw [sent, List.take_length]
      exact h.order
    · next hne =>
        rw [← hcursor]
        exact h.cursor (by simpa [hcursor] using hne)
  · show s.taken json = _
    rw [hread, List.filterMap_nil, List.append_nil]

end Stream

/-! ### Who is connected -/

section Exchanges

variable {s : StreamableHttpTransport} {id : ExchangeId}

theorem mem_disconnect {stream : Option StreamId} {c : StreamId × Option ExchangeId}
    (h : c ∈ (s.disconnect stream).connected) : c ∈ s.connected ∧ some c.1 ≠ stream := by
  obtain ⟨hmem, hne⟩ := List.mem_filter.mp h
  exact ⟨hmem, by simpa using hne⟩

/-- An exchange is changed, but goes on over its stream, or does not. -/
theorem ExchangeInv.update (h : ExchangeInv s) {f : Exchange → Exchange}
    (hdone : (f (s.exchange id)).done = (s.exchange id).done)
    (hstream : (f (s.exchange id)).stream = (s.exchange id).stream)
    (htimer : (f (s.exchange id)).resumeTimer.isSome → (s.exchange id).resumeTimer.isSome) :
    ExchangeInv (s.update id f) := by
  have hsame : ∀ id', ((s.update id f).exchange id').done = (s.exchange id').done ∧
      ((s.update id f).exchange id').stream = (s.exchange id').stream ∧
      (((s.update id f).exchange id').resumeTimer.isSome → (s.exchange id').resumeTimer.isSome) := by
    intro id'
    by_cases hid : id' = id
    · subst hid
      simpa [StreamableHttpTransport.update] using ⟨hdone, hstream, htimer⟩
    · simp [StreamableHttpTransport.update, hid]
  refine ⟨fun id' hlive => h.live id' ((hsame id').1 ▸ hlive),
    fun id' hle => (hsame id').1.trans (h.fresh id' hle), fun stream id' hmem => ?_, h.listener,
    fun id' hsome => (hsame id').2.1.trans (h.timer id' ((hsame id').2.2 hsome))⟩
  obtain ⟨hlive, howner⟩ := h.owner stream id' hmem
  exact ⟨(hsame id').1.trans hlive, (hsame id').2.1.trans howner⟩

/-- An exchange is over, or its stream is: nothing of it is connected. -/
theorem ExchangeInv.disconnect_update (h : ExchangeInv s) {f : Exchange → Exchange}
    (hdone : (s.exchange id).done = true → (f (s.exchange id)).done = true)
    (htimer : (f (s.exchange id)).resumeTimer.isSome → (f (s.exchange id)).stream = none) :
    ExchangeInv ((s.disconnect (s.exchange id).stream).update id f) := by
  have hother : ∀ id', id' ≠ id →
      ((s.disconnect (s.exchange id).stream).update id f).exchange id' = s.exchange id' := by
    intro id' hid
    simp [StreamableHttpTransport.update, StreamableHttpTransport.disconnect, hid]
  have hself : ((s.disconnect (s.exchange id).stream).update id f).exchange id =
      f (s.exchange id) := by
    simp [StreamableHttpTransport.update, StreamableHttpTransport.disconnect]
  refine ⟨fun id' hlive => ?_, fun id' hle => ?_, fun stream id' hmem => ?_, fun stream hmem => ?_,
    fun id' hsome => ?_⟩
  · by_cases hid : id' = id
    · subst hid
      refine h.live id' ?_
      rw [hself] at hlive
      exact Bool.eq_false_iff.mpr fun hd => absurd (hdone hd) (by simp [hlive])
    · exact h.live id' (hother id' hid ▸ hlive)
  · by_cases hid : id' = id
    · subst hid
      rw [hself]
      exact hdone (h.fresh id' hle)
    · rw [hother id' hid]
      exact h.fresh id' hle
  · obtain ⟨hold, hne⟩ := mem_disconnect hmem
    obtain ⟨hlive, howner⟩ := h.owner stream id' hold
    have hid : id' ≠ id := fun hid => hne (hid ▸ howner.symm)
    rw [hother id' hid]
    exact ⟨hlive, howner⟩
  · exact h.listener stream (mem_disconnect hmem).1
  · by_cases hid : id' = id
    · subst hid
      rw [hself] at hsome ⊢
      exact htimer hsome
    · rw [hother id' hid] at hsome ⊢
      exact h.timer id' hsome

theorem ExchangeInv.drop (h : ExchangeInv s) : ExchangeInv (s.drop id) :=
  h.disconnect_update (f := fun e => { e with done := true, resumeTimer := none }) (fun _ => rfl)
    nofun

@[simp] theorem done_drop : ((s.drop id).exchange id).done = true := by
  simp [StreamableHttpTransport.drop, StreamableHttpTransport.update,
    StreamableHttpTransport.disconnect]

/-- An exchange that is dropped need not be in the list. -/
theorem ExchangeInv.drop_with (h : ExchangeInv s) {exchanges : List ExchangeId}
    (hrest : ∀ id' ∈ s.exchanges, id' ≠ id → id' ∈ exchanges) :
    ExchangeInv { s.drop id with exchanges } := by
  have hd : ExchangeInv (s.drop id) := h.drop
  refine ⟨fun id' hlive => hrest id' (hd.live id' hlive) fun hid => ?_, hd.fresh, hd.owner,
    hd.listener, hd.timer⟩
  subst hid
  exact absurd (done_drop.symm.trans hlive) nofun

theorem ExchangeInv.release (h : ExchangeInv s) : ExchangeInv (s.release id) :=
  h.drop_with fun _ hmem hne => (List.mem_erase_of_ne hne).mpr hmem

/-- Dropping exchanges changes only them and what is connected. -/
theorem foldl_drop (ids : List ExchangeId) (s : StreamableHttpTransport) :
    ∃ exchange connected, ids.foldl StreamableHttpTransport.drop s =
      { s with exchange, connected } := by
  induction ids generalizing s with
  | nil => exact ⟨s.exchange, s.connected, rfl⟩
  | cons id ids ih =>
      obtain ⟨exchange, connected, heq⟩ := ih (s.drop id)
      exact ⟨exchange, connected, heq⟩

theorem ExchangeInv.foldl_drop (ids : List ExchangeId) :
    ∀ {s : StreamableHttpTransport}, ExchangeInv { s with exchanges := ids } →
      ExchangeInv { ids.foldl StreamableHttpTransport.drop s with exchanges := [] } := by
  induction ids with
  | nil => exact fun h => h
  | cons id ids ih =>
      intro s h
      have hdropped : ExchangeInv { s.drop id with exchanges := ids } :=
        h.drop_with fun id' hmem hne => (List.mem_cons.mp hmem).resolve_left hne
      exact ih hdropped

/-- All exchanges are dropped. -/
theorem ExchangeInv.abandonExchanges (h : ExchangeInv s) :
    ∃ exchange connected, s.abandonExchanges = { s with exchanges := [], exchange, connected } ∧
      ExchangeInv { s with exchanges := [], exchange, connected } ∧
      ∀ id, (exchange id).done = true := by
  have hinv : ExchangeInv { s.abandonExchanges with exchanges := [] } :=
    ExchangeInv.foldl_drop s.exchanges (s := { s with exchanges := [] }) h
  obtain ⟨exchange, connected, heq⟩ :=
    StreamableHttpTransport.foldl_drop s.exchanges { s with exchanges := [] }
  have habandon : s.abandonExchanges = { s with exchanges := [], exchange, connected } := heq
  rw [habandon] at hinv
  refine ⟨exchange, connected, habandon, hinv, fun id => ?_⟩
  by_contra hlive
  exact absurd (hinv.live id (Bool.not_eq_true _ ▸ hlive)) List.not_mem_nil

theorem ExchangeInv.scheduleResume (h : ExchangeInv s) : ExchangeInv (s.scheduleResume id) :=
  h.disconnect_update (fun hdone => hdone) fun _ => rfl

/-- An exchange that has no stream gets one. -/
theorem ExchangeInv.attach (h : ExchangeInv s) (hlive : (s.exchange id).done = false)
    (hstream : (s.exchange id).stream = none) (htimer : (s.exchange id).resumeTimer = none) :
    ExchangeInv (s.attach id) := by
  have hother : ∀ id', id' ≠ id → (s.attach id).exchange id' = s.exchange id' := by
    intro id' hid
    simp [StreamableHttpTransport.attach, StreamableHttpTransport.update,
      StreamableHttpTransport.connect, hid]
  have hself : (s.attach id).exchange id = { s.exchange id with stream := some s.nextStream } := by
    simp [StreamableHttpTransport.attach, StreamableHttpTransport.update,
      StreamableHttpTransport.connect]
  refine ⟨fun id' hlive' => ?_, fun id' hle => ?_, fun stream id' hmem => ?_, fun stream hmem => ?_,
    fun id' hsome => ?_⟩
  · by_cases hid : id' = id
    · exact hid ▸ h.live id hlive
    · exact h.live id' (hother id' hid ▸ hlive')
  · have hid : id' ≠ id := fun hid => absurd (hlive.symm.trans (h.fresh id (hid ▸ hle))) nofun
    rw [hother id' hid]
    exact h.fresh id' hle
  · rcases List.mem_cons.mp hmem with hnew | hold
    · obtain ⟨rfl, hid⟩ := Prod.mk.inj hnew
      obtain rfl := Option.some.inj hid
      rw [hself]
      exact ⟨hlive, rfl⟩
    · obtain ⟨hlive', howner⟩ := h.owner stream id' hold
      have hid : id' ≠ id := by
        rintro rfl
        exact absurd (hstream.symm.trans howner) nofun
      rw [hother id' hid]
      exact ⟨hlive', howner⟩
  · refine h.listener stream ((List.mem_cons.mp hmem).resolve_left fun hnew => ?_)
    exact absurd (Prod.mk.inj hnew).2 nofun
  · by_cases hid : id' = id
    · subst hid
      rw [hself] at hsome
      exact absurd (htimer ▸ hsome) nofun
    · rw [hother id' hid] at hsome ⊢
      exact h.timer id' hsome

theorem ExchangeInv.newExchange (h : ExchangeInv s) (message : JsonObject) :
    ExchangeInv (s.newExchange message) := by
  let begun : Exchange := { message, session := s.sessions }
  have hother : ∀ id', id' ≠ s.nextExchange →
      Function.update s.exchange s.nextExchange begun id' = s.exchange id' :=
    fun id' hid => Function.update_of_ne hid _ _
  have hself : Function.update s.exchange s.nextExchange begun s.nextExchange = begun :=
    Function.update_self ..
  have hinserted : ExchangeInv { s with
      exchange := Function.update s.exchange s.nextExchange begun
      exchanges := s.exchanges ++ [s.nextExchange]
      nextExchange := s.nextExchange + 1 } := by
    refine ⟨fun id' hlive => ?_, fun id' hle => ?_, fun stream id' hmem => ?_, h.listener,
      fun id' hsome => ?_⟩
    · by_cases hid : id' = s.nextExchange
      · exact List.mem_append_right _ (List.mem_singleton.mpr hid)
      · have hdone := congrArg Exchange.done (hother id' hid)
        exact List.mem_append_left _ (h.live id' (hdone.symm.trans hlive))
    · have hlt : s.nextExchange < id' := hle
      exact (congrArg Exchange.done (hother id' hlt.ne')).trans (h.fresh id' hlt.le)
    · obtain ⟨hlive, howner⟩ := h.owner stream id' hmem
      have hid : id' ≠ s.nextExchange := fun hid =>
        absurd (hlive.symm.trans (h.fresh id' (Nat.le_of_eq hid.symm))) nofun
      show (Function.update s.exchange s.nextExchange begun id').done = false ∧
        (Function.update s.exchange s.nextExchange begun id').stream = some stream
      rw [hother id' hid]
      exact ⟨hlive, howner⟩
    · by_cases hid : id' = s.nextExchange
      · subst hid
        exact congrArg Exchange.stream hself
      · have hsome' : (Function.update s.exchange s.nextExchange begun id').resumeTimer.isSome :=
          hsome
        rw [hother id' hid] at hsome'
        exact (congrArg Exchange.stream (hother id' hid)).trans (h.timer id' hsome')
  exact hinserted.attach (congrArg Exchange.done hself) (congrArg Exchange.stream hself)
    (congrArg Exchange.resumeTimer hself)

/-- A stream is gone. -/
theorem ExchangeInv.destroyStream (h : ExchangeInv s) (stream : StreamId) :
    ExchangeInv (s.destroyStream stream) := by
  have hsame : ∀ id', ((s.destroyStream stream).exchange id').done = (s.exchange id').done ∧
      ((s.destroyStream stream).exchange id').resumeTimer = (s.exchange id').resumeTimer ∧
      ((s.exchange id').stream ≠ some stream →
        ((s.destroyStream stream).exchange id').stream = (s.exchange id').stream) := by
    intro id'
    by_cases hid : (s.exchange id').stream = some stream
    · simp [StreamableHttpTransport.destroyStream, hid]
    · simp [StreamableHttpTransport.destroyStream, hid]
  refine ⟨fun id' hlive => h.live id' ((hsame id').1 ▸ hlive),
    fun id' hle => (hsame id').1.trans (h.fresh id' hle), fun stream' id' hmem => ?_,
    fun stream' hmem => ?_, fun id' hsome => ?_⟩
  · obtain ⟨hold, hne⟩ := mem_disconnect hmem
    obtain ⟨hlive, howner⟩ := h.owner stream' id' hold
    exact ⟨(hsame id').1.trans hlive, ((hsame id').2.2 (howner ▸ hne)).trans howner⟩
  · obtain ⟨hold, hne⟩ := mem_disconnect hmem
    have hlistener := h.listener stream' hold
    show (if s.listenStream = some stream then none else s.listenStream) = _
    rw [if_neg (hlistener ▸ hne), hlistener]
  · have hnone := h.timer id' ((hsame id').2.1 ▸ hsome)
    exact ((hsame id').2.2 (hnone ▸ nofun)).trans hnone

theorem ExchangeInv.connectListening (h : ExchangeInv s) (hnone : s.listenStream = none) :
    ExchangeInv s.connectListening := by
  refine ⟨h.live, h.fresh, fun stream id hmem => ?_, fun stream hmem => ?_, h.timer⟩
  · exact h.owner stream id ((List.mem_cons.mp hmem).resolve_left fun hnew =>
      absurd (Prod.mk.inj hnew).2 nofun)
  · rcases List.mem_cons.mp hmem with hnew | hold
    · exact congrArg some (Prod.mk.inj hnew).1.symm
    · exact absurd (hnone.symm.trans (h.listener stream hold)) nofun

/-- The listen stream is let go. -/
theorem ExchangeInv.releaseListenStream (h : ExchangeInv s) :
    ∃ connected, s.releaseListenStream = { s with listenStream := none, connected } ∧
      ExchangeInv { s with listenStream := none, connected } := by
  cases hs : s.listenStream with
  | none =>
      have hsame : s = { s with listenStream := none, connected := s.connected } := by
        cases s
        cases hs
        rfl
      refine ⟨s.connected, ?_, hsame ▸ h⟩
      unfold StreamableHttpTransport.releaseListenStream
      rw [hs]
      exact hsame
  | some stream =>
      refine ⟨(s.disconnect (some stream)).connected, ?_, h.live, h.fresh,
        fun stream' id hmem => h.owner stream' id (mem_disconnect hmem).1,
        fun stream' hmem => ?_, h.timer⟩
      · unfold StreamableHttpTransport.releaseListenStream
        rw [hs]
        rfl
      · obtain ⟨hold, hne⟩ := mem_disconnect hmem
        exact absurd (h.listener stream' hold ▸ hs : some stream' = some stream) hne

end Exchanges

/-! ### Updates -/

section Updates

variable {json : RpcCodec} {s : StreamableHttpTransport}

/-- What the invariant does not speak of. -/
theorem ListenInv.neutral (h : ListenInv json s) {http opens : Bool}
    {sessionId protocolVersion : String}
    {listenAccepted listenRefused listenResumed listenHeard listenOutageReported : Bool}
    {listenBackoffMs : Int} {serverRetryMs : Option Int} {listenUptime : Bool}
    {listenRetryTimer : Option Int} :
    ListenInv json { s with
      http, opens, sessionId, protocolVersion, listenAccepted, listenRefused, listenResumed
      listenHeard, listenOutageReported, listenBackoffMs, serverRetryMs, listenUptime
      listenRetryTimer } := by
  have he := h.exchanges
  refine ⟨⟨he.live, he.fresh, he.owner, he.listener, he.timer⟩,
    h.replay.same rfl rfl rfl rfl rfl id, h.closed, h.isOpen, fun hsent => ?_⟩
  have hc := h.current hsent
  exact ⟨hc.exchanges, hc.superseding, hc.sessionId, hc.protocolVersion, hc.listening, hc.backlog,
    hc.delivered⟩

/-- Exchanges begin, go on or end. -/
theorem ListenInv.withExchanges (h : ListenInv json s) {exchange : ExchangeId → Exchange}
    {exchanges : List ExchangeId} {connected : List (StreamId × Option ExchangeId)}
    {nextExchange : ExchangeId} {nextStream : StreamId}
    (he : ExchangeInv { s with exchange, exchanges, connected, nextExchange, nextStream })
    (hcurrent : s.sentMeanwhile = false →
      (∀ id, (exchange id).done = false → (exchange id).session = s.sessions) ∧
        (0 < s.superseding → ∀ id, (exchange id).done = true)) :
    ListenInv json { s with exchange, exchanges, connected, nextExchange, nextStream } := by
  refine ⟨he, h.replay.same rfl rfl rfl rfl rfl id, h.closed, h.isOpen, fun hsent => ?_⟩
  have hc := h.current hsent
  obtain ⟨hexchanges, hsuperseding⟩ := hcurrent hsent
  exact ⟨hexchanges, hsuperseding, hc.sessionId, hc.protocolVersion, hc.listening, hc.backlog,
    hc.delivered⟩

/-- An observation that is no delivery. -/
theorem ListenInv.observe (h : ListenInv json s) {o : Observation}
    (ho : delivered (o :: s.history) = delivered s.history) : ListenInv json (s.observe o) := by
  have he := h.exchanges
  have htaken : (s.observe o).taken json = s.taken json := by
    show (delivered (o :: s.history)).map _ ++ _ = _
    rw [ho]
    rfl
  refine ⟨⟨he.live, he.fresh, he.owner, he.listener, he.timer⟩,
    h.replay.same rfl htaken rfl rfl rfl id, h.closed, fun d hd => h.isOpen d (ho ▸ hd),
    fun hsent => ?_⟩
  have hc := h.current hsent
  exact ⟨hc.exchanges, hc.superseding, hc.sessionId, hc.protocolVersion, hc.listening, hc.backlog,
    fun d hd => hc.delivered d (ho ▸ hd)⟩

/-- The listen stream is let go, and the cursor may be forgotten. -/
theorem ListenInv.release (h : ListenInv json s) {lastEventId : Bytes}
    (hcursor : lastEventId = s.lastEventId ∨ lastEventId = []) :
    ListenInv json { s.releaseListenStream with lastEventId } := by
  obtain ⟨connected, heq, he⟩ := h.exchanges.releaseListenStream
  rw [heq]
  refine ⟨⟨he.live, he.fresh, he.owner, he.listener, he.timer⟩,
    h.replay.quiet rfl (.refl _) hcursor rfl rfl, fun hclosed => ⟨rfl, (h.closed hclosed).2⟩,
    h.isOpen, fun hsent => ?_⟩
  have hc := h.current hsent
  exact ⟨hc.exchanges, hc.superseding, hc.sessionId, hc.protocolVersion, nofun, hc.backlog,
    hc.delivered⟩

/-- A session ends in which nothing is left. -/
theorem ListenInv.stopListening (he : ExchangeInv s) (hr : ReplayInv json s)
    (ho : ∀ d ∈ delivered s.history, d.isOpen = true)
    (hc : s.sentMeanwhile = false → (∀ id, (s.exchange id).done = true) ∧
      s.sessionIdFrom = none ∧ s.protocolVersionFrom = none ∧
      ∀ d ∈ delivered s.history, ∀ k ∈ d.sessions, k = d.session) :
    ListenInv json s.stopListening := by
  have he' : ExchangeInv { s with listenRetryTimer := none } :=
    ⟨he.live, he.fresh, he.owner, he.listener, he.timer⟩
  obtain ⟨connected, heq, he''⟩ := he'.releaseListenStream
  unfold StreamableHttpTransport.stopListening
  rw [heq]
  refine ⟨⟨he''.live, he''.fresh, he''.owner, he''.listener, he''.timer⟩, ?_,
    fun _ => ⟨rfl, rfl⟩, ho, fun hsent => ?_⟩
  · refine hr.quiet rfl ?_ (.inr rfl) rfl rfl
    show List.Sublist ((delivered s.history).map Delivery.message ++ []) _
    rw [List.append_nil]
    exact List.sublist_append_left _ _
  · obtain ⟨hdone, hid, hversion, hdelivered⟩ := hc hsent
    refine ⟨fun id hlive => absurd ((hdone id).symm.trans hlive) (by simp),
      fun _ => hdone, fun k hk => ?_, fun k hk => ?_, by simp, by simp, hdelivered⟩
    · cases hid.symm.trans hk
    · cases hversion.symm.trans hk

end Updates

/-! ### Listening -/

section Code

variable {json : RpcCodec} {s : StreamableHttpTransport}

variable (json) in
theorem keepsListen_composes : Composes (S := StreamableSig) fun _ p => KeepsListen json p :=
  Contract.Keeps.composes (listenContract_preorder json)

theorem keepsListen_query (e : StreamableOut) :
    KeepsListen json (Proc.query (S := StreamableSig) e) :=
  Contract.Keeps.query (S := StreamableSig) e

theorem keepsListen_modify {f : StreamableHttpTransport → StreamableHttpTransport}
    (h : ∀ s, ListenInv json s → ListenInv json (f s))
    (hsuperseding : ∀ s, (f s).superseding = s.superseding)
    (hsent : ∀ s, (f s).sentMeanwhile = s.sentMeanwhile) :
    KeepsListen json (Proc.modify (S := StreamableSig) f) :=
  fun s hs => ⟨h s hs, hsuperseding s, fun h => (hsent s).symm.trans h⟩

theorem keepsListen_scheduleListenRetry : KeepsListen json scheduleListenRetry := by
  have c := keepsListen_composes json
  refine c.bind (c.reads id) fun s => c.ite _ (c.pure ()) (c.bind (c.ite _ ?_ (c.pure ())) fun _ => ?_)
  · exact c.bind (keepsListen_modify (fun _ hs => hs.neutral) (fun _ => rfl) fun _ => rfl) fun _ =>
      keepsListen_query _
  · exact keepsListen_modify (fun _ hs => hs.neutral) (fun _ => rfl) fun _ => rfl

/-- Before a stream is opened there is none. -/
theorem ListenInv.prepareListening (h : ListenInv json s) (hnone : s.listenStream = none) :
    ListenInv json s.prepareListening := by
  have he := h.exchanges
  refine ⟨⟨he.live, he.fresh, he.owner, he.listener, he.timer⟩,
    h.replay.quiet rfl (.refl _) (.inl rfl) rfl hnone, h.closed, h.isOpen, fun hsent => ?_⟩
  have hc := h.current hsent
  exact ⟨hc.exchanges, hc.superseding, hc.sessionId, hc.protocolVersion, hc.listening, hc.backlog,
    hc.delivered⟩

theorem ListenInv.connectListening (h : ListenInv json s) (hopen : s.isOpen = true)
    (hnone : s.listenStream = none) :
    ListenInv json s.prepareListening.connectListening := by
  have he := (h.prepareListening hnone).exchanges.connectListening hnone
  refine ⟨he, h.replay.openListening, fun hclosed => absurd (hopen.symm.trans hclosed) nofun,
    h.isOpen, fun hsent => ?_⟩
  have hc := h.current hsent
  refine ⟨hc.exchanges, hc.superseding, hc.sessionId, hc.protocolVersion, fun _ k hk => ?_,
    hc.backlog, hc.delivered⟩
  have hk : k ∈ s.sessions :: (s.sessionIdFrom.toList ++ s.protocolVersionFrom.toList) := hk
  simp only [List.mem_cons, List.mem_append, Option.mem_toList] at hk
  rcases hk with rfl | hk | hk
  · rfl
  · exact hc.sessionId k hk
  · exact hc.protocolVersion k hk

theorem keepsListen_openListenStream : KeepsListen json openListenStream := by
  intro s (hs : ListenInv json s)
  refine (wp_ite (S := StreamableSig)
    (!s.isOpen || !s.http || s.listenStream.isSome || s.listenRefused) _ _ _ s).mpr
      ⟨fun _ => ⟨hs, .refl s⟩, fun hcan => ?_⟩
  simp only [Bool.or_eq_true, Bool.not_eq_true', not_or, Bool.not_eq_false, Bool.not_eq_true,
    Option.isSome_eq_false_iff, Option.isNone_iff_eq_none] at hcan
  obtain ⟨⟨⟨hopen, -⟩, hnone⟩, -⟩ := hcan
  refine (wp_ite (S := StreamableSig) (s.opens = true) _ _ _ s.prepareListening).mpr
    ⟨fun _ => ⟨hs.connectListening hopen hnone, rfl, id⟩, fun _ => ?_⟩
  exact Contract.KeepsAt.after (listenContract_preorder json)
    (⟨hs.prepareListening hnone, rfl, id⟩ : (listenContract json).Moves s s.prepareListening)
    (keepsListen_scheduleListenRetry s.prepareListening (hs.prepareListening hnone))

theorem rely_stopListening : ListenRely s s.stopListening := by
  unfold StreamableHttpTransport.stopListening StreamableHttpTransport.releaseListenStream
  cases s.listenStream with
  | none => exact ⟨rfl, id⟩
  | some stream => exact ⟨rfl, id⟩

/-- `stop` ends the session, with all its exchanges. -/
theorem ListenInv.stop (h : ListenInv json s) :
    ListenInv json { s with isOpen := false }.forgetSession.abandonExchanges.stopListening ∧
      ListenRely s { s with isOpen := false }.forgetSession.abandonExchanges.stopListening := by
  have he := h.exchanges
  obtain ⟨exchange, connected, heq, hinv, hdone⟩ := ExchangeInv.abandonExchanges
    (s := { s with isOpen := false }.forgetSession)
      ⟨he.live, he.fresh, he.owner, he.listener, he.timer⟩
  rw [heq]
  refine ⟨ListenInv.stopListening hinv (h.replay.same rfl rfl rfl rfl rfl id) h.isOpen fun hsent =>
    ⟨hdone, rfl, rfl, (h.current hsent).delivered⟩, .trans ?_ rely_stopListening⟩
  exact ⟨rfl, id⟩

theorem keepsListen_stop : KeepsListen json stop := by
  have c := keepsListen_composes json
  refine c.bind (c.reads _) fun isOpen => c.ite _ (c.bind (fun s hs => ?_) fun _ =>
    keepsListen_query _) (c.pure ())
  exact ListenInv.stop hs

/-- The session id is forgotten. -/
theorem ListenInv.forgetSessionId (h : ListenInv json s) :
    ListenInv json { s with sessionId := "", sessionIdFrom := none } := by
  have he := h.exchanges
  refine ⟨⟨he.live, he.fresh, he.owner, he.listener, he.timer⟩,
    h.replay.same rfl rfl rfl rfl rfl id, h.closed, h.isOpen, fun hsent => ?_⟩
  have hc := h.current hsent
  exact ⟨hc.exchanges, hc.superseding, nofun, hc.protocolVersion, hc.listening, hc.backlog,
    hc.delivered⟩

theorem keepsListen_stopUnknown : KeepsListen json (do
    Proc.modify (S := StreamableSig) fun s => { s with sessionId := "", sessionIdFrom := none }
    stop) :=
  (keepsListen_composes json).bind
    (keepsListen_modify (fun _ hs => hs.forgetSessionId) (fun _ => rfl) fun _ => rfl)
    fun _ => keepsListen_stop

theorem rely_releaseListenStream (lastEventId : Bytes) :
    ListenRely s { s.releaseListenStream with lastEventId } := by
  unfold StreamableHttpTransport.releaseListenStream
  cases s.listenStream with
  | none => exact ⟨rfl, id⟩
  | some stream => exact ⟨rfl, id⟩

theorem keepsListen_onListenHeaders (head : Streamable.HttpResponse) :
    KeepsListen json (onListenHeaders head) := by
  have c := keepsListen_composes json
  refine c.ite _ (keepsListen_modify (fun _ hs => hs.neutral) (fun _ => rfl) fun _ => rfl) fun s hs => ?_
  have hs : ListenInv json s := hs
  have hreleased : ∀ {lastEventId}, lastEventId = s.lastEventId ∨ lastEventId = [] →
      ∀ {p : Proc StreamableSig Unit}, KeepsListen json p →
        (listenContract json).KeepsFrom (streamServer json).answer s p
          { s.releaseListenStream with lastEventId } := fun hcursor _ hp =>
    Contract.KeepsAt.after (listenContract_preorder json)
      (⟨hs.release hcursor, rely_releaseListenStream _⟩ : (listenContract json).Moves s _)
      (hp _ (hs.release hcursor))
  have hsame : s.releaseListenStream =
      { s.releaseListenStream with lastEventId := s.lastEventId } := by
    obtain ⟨connected, heq, -⟩ := hs.exchanges.releaseListenStream
    rw [heq]
  have hthen : ∀ {p : Proc StreamableSig Unit}, KeepsListen json p →
      (listenContract json).KeepsFrom (streamServer json).answer s p s.releaseListenStream :=
    fun hp => hsame ▸ hreleased (.inl rfl) hp
  refine (wp_ite (S := StreamableSig) _ _ _ _ s.releaseListenStream).mpr ⟨fun _ =>
    hthen (c.bind (keepsListen_query _) fun _ => keepsListen_stopUnknown), fun _ =>
      (wp_ite (S := StreamableSig) _ _ _ _ s.releaseListenStream).mpr ⟨fun _ =>
        hreleased (.inr rfl) keepsListen_scheduleListenRetry, fun _ => ?_⟩⟩
  exact hthen (c.ite _ keepsListen_scheduleListenRetry
    (keepsListen_modify (fun _ hs => hs.neutral) (fun _ => rfl) fun _ => rfl))

/-- A chunk of the listen stream goes into the backlog. -/
theorem ListenInv.readListened (h : ListenInv json s) (hopen : s.listenStream.isSome)
    {chunk : Bytes} (hsends : s.Sends chunk) : ListenInv json (s.readListened chunk) := by
  have he := h.exchanges
  refine ⟨⟨he.live, he.fresh, he.owner, he.listener, he.timer⟩, h.replay.readListened hopen hsends,
    fun hclosed => ?_, h.isOpen, fun hsent => ?_⟩
  · rw [(h.closed hclosed).1] at hopen
    exact absurd hopen nofun
  · have hc := h.current hsent
    refine ⟨hc.exchanges, hc.superseding, hc.sessionId, hc.protocolVersion, hc.listening,
      fun b hb => ?_, hc.delivered⟩
    rcases List.mem_append.mp hb with hold | hnew
    · exact hc.backlog b hold
    · obtain ⟨event, -, rfl⟩ := List.mem_map.mp hnew
      exact hc.listening hopen

/-- The first event of the backlog carries no message. -/
theorem ListenInv.skip (h : ListenInv json s) {b : Backlogged} {rest : List Backlogged}
    (hbacklog : s.listenBacklog = b :: rest)
    (hmessage : b.message json = none) :
    ListenInv json { s with listenBacklog := rest } := by
  have he := h.exchanges
  have htaken : ({ s with listenBacklog := rest } : StreamableHttpTransport).taken json =
      s.taken json := by
    unfold taken
    rw [hbacklog, List.filterMap_cons_none hmessage]
  refine ⟨⟨he.live, he.fresh, he.owner, he.listener, he.timer⟩,
    h.replay.same rfl htaken rfl rfl rfl id, fun hclosed => ?_, h.isOpen, fun hsent => ?_⟩
  · exact absurd (hbacklog.symm.trans (h.closed hclosed).2) nofun
  · have hc := h.current hsent
    exact ⟨hc.exchanges, hc.superseding, hc.sessionId, hc.protocolVersion, hc.listening,
      fun b' hb' => hc.backlog b' (hbacklog ▸ List.mem_cons_of_mem b hb'), hc.delivered⟩

/-- The first event of the backlog is delivered. -/
theorem ListenInv.deliver (h : ListenInv json s) {b : Backlogged} {rest : List Backlogged}
    {message : JsonObject} (hbacklog : s.listenBacklog = b :: rest)
    (hmessage : b.message json = some message) :
    ListenInv json ({ s with listenBacklog := rest }.deliver message b.sessions) := by
  have he := h.exchanges
  have hopen : s.isOpen = true := by
    by_contra hclosed
    exact absurd (hbacklog.symm.trans (h.closed (Bool.not_eq_true _ ▸ hclosed)).2) nofun
  have htaken : ({ s with listenBacklog := rest }.deliver message b.sessions).taken json =
      s.taken json := by
    show List.map Delivery.message (delivered s.history ++ [_]) ++ rest.filterMap _ = _
    unfold taken
    rw [hbacklog, List.filterMap_cons_some hmessage, List.map_append, List.append_assoc]
    rfl
  refine ⟨⟨he.live, he.fresh, he.owner, he.listener, he.timer⟩,
    h.replay.same rfl htaken rfl rfl rfl id, fun hclosed => ?_, fun d hd => ?_, fun hsent => ?_⟩
  · exact absurd (hbacklog.symm.trans (h.closed hclosed).2) nofun
  · rcases List.mem_append.mp hd with hold | hnew
    · exact h.isOpen d hold
    · rw [List.mem_singleton.mp hnew]
      exact hopen
  · have hc := h.current hsent
    refine ⟨hc.exchanges, hc.superseding, hc.sessionId, hc.protocolVersion, hc.listening,
      fun b' hb' => hc.backlog b' (hbacklog ▸ List.mem_cons_of_mem b hb'), fun d hd => ?_⟩
    rcases List.mem_append.mp hd with hold | hnew
    · exact hc.delivered d hold
    · rw [List.mem_singleton.mp hnew]
      exact hc.backlog b (hbacklog ▸ List.mem_cons_self)

/-- The loop over the backlog goes on. -/
theorem keepsListen_invoke :
    KeepsListen json (Proc.invoke (S := StreamableSig) .deliverBacklog) :=
  fun _ hs => ⟨hs, fun _ _ h => h⟩

theorem keepsListen_deliverBacklog : KeepsListen json (deliverBacklog json) := by
  intro s (hs : ListenInv json s)
  have hthen := fun s₁ (hs₁ : ListenInv json s₁) (hr₁ : ListenRely s s₁) =>
    Contract.KeepsAt.after (listenContract_preorder json)
      (⟨hs₁, hr₁⟩ : (listenContract json).Moves s s₁) (keepsListen_invoke s₁ hs₁)
  refine Contract.KeepsAt.reads ?_
  dsimp only
  cases hbacklog : s.listenBacklog with
  | nil => exact ⟨hs, .refl s⟩
  | cons b rest =>
      refine (wp_bind (Proc.modify (S := StreamableSig) _) _ _ s).mpr ?_
      refine (wp_modify _ _ s).mpr ?_
      cases hmessage : messageOf json b.event.type b.event.data with
      | none => exact hthen _ (hs.skip hbacklog hmessage) ⟨rfl, id⟩
      | some message =>
          refine ⟨hs.deliver hbacklog hmessage, fun s₁ hr₁ hs₁ _ _ => hthen s₁ hs₁ ?_⟩
          obtain ⟨hsuperseding, hsent⟩ : ListenRely _ s₁ := hr₁
          exact ⟨hsuperseding, hsent⟩

/-- The listen stream is let go after the cursor was forgotten, or not. -/
theorem ListenInv.release_with (h : ListenInv json s) {lastEventId : Bytes}
    (hcursor : lastEventId = s.lastEventId ∨ lastEventId = []) :
    (listenContract json).Moves s { s with lastEventId }.releaseListenStream := by
  have hsame : ({ s with lastEventId } : StreamableHttpTransport).releaseListenStream =
      { s.releaseListenStream with lastEventId } := by
    cases hs : s.listenStream with
    | none => simp [StreamableHttpTransport.releaseListenStream, hs]
    | some stream => simp [StreamableHttpTransport.releaseListenStream, disconnect, hs]
  rw [hsame]
  exact ⟨h.release hcursor, rely_releaseListenStream lastEventId⟩

theorem ListenInv.endListening (h : ListenInv json s) (elapsed : Int) :
    (listenContract json).Moves s (s.endListening elapsed) := by
  have hc := listenContract_preorder json
  have hdown : (listenContract json).Moves s { s with listenUptime := false } := ⟨h.neutral, rfl, id⟩
  have hsteady : (listenContract json).Moves s { s.restartListenBackoff with listenUptime := false } :=
    ⟨h.neutral, rfl, id⟩
  unfold StreamableHttpTransport.endListening
  split
  · split
    · exact hsteady.trans hc (ListenInv.release_with hsteady.1 (.inl rfl))
    · split
      · exact hdown.trans hc (ListenInv.release_with hdown.1 (.inr rfl))
      · exact hdown.trans hc (ListenInv.release_with hdown.1 (.inl rfl))
  · exact hdown.trans hc (ListenInv.release_with hdown.1 (.inl rfl))

theorem keepsListen_onListenEnded (elapsed : Int) : KeepsListen json (onListenEnded elapsed) :=
  (keepsListen_composes json).bind (fun _ hs => ListenInv.endListening hs elapsed) fun _ =>
    keepsListen_scheduleListenRetry

theorem keepsListen_onListenChunk {chunk : Bytes} (hs : ListenInv json s)
    (hopen : s.listenStream.isSome) (hsends : s.Sends chunk) :
    (listenContract json).KeepsAt (streamServer json).answer (onListenChunk chunk) s := by
  have hread : (listenContract json).Moves s (s.readListened chunk) :=
    ⟨hs.readListened hopen hsends, rfl, id⟩
  show (listenContract json).KeepsFrom _ s _ (s.readListened chunk)
  exact Contract.KeepsAt.after (listenContract_preorder json) hread
    (keepsListen_invoke _ hread.1)

/-! ### Exchanges -/

variable {id : ExchangeId}

/-- An exchange may become another, where it goes on as one of its session. -/
def Continues (e e' : Exchange) : Prop :=
  e'.done = false → e.done = false ∧ e'.session = e.session

/-- What goes on went on before. -/
theorem ListenInv.fewer (h : ListenInv json s) {exchange : ExchangeId → Exchange}
    {exchanges : List ExchangeId} {connected : List (StreamId × Option ExchangeId)}
    {nextStream : StreamId} (he : ExchangeInv { s with exchange, exchanges, connected, nextStream })
    (hfewer : ∀ id, Continues (s.exchange id) (exchange id)) :
    ListenInv json { s with exchange, exchanges, connected, nextStream } := by
  refine h.withExchanges he fun hsent => ⟨fun id hlive => ?_, fun hsuperseding id => ?_⟩
  · obtain ⟨hold, hsession⟩ := hfewer id hlive
    exact hsession.trans ((h.current hsent).exchanges id hold)
  · by_contra hlive
    have hold := (hfewer id (Bool.not_eq_true _ ▸ hlive)).1
    exact absurd (((h.current hsent).superseding hsuperseding id).symm.trans hold) nofun

theorem continues_update (f : Exchange → Exchange)
    (hself : Continues (s.exchange id) (f (s.exchange id))) (id' : ExchangeId) :
    Continues (s.exchange id') ((s.update id f).exchange id') := by
  by_cases hid : id' = id
  · subst hid
    simpa [StreamableHttpTransport.update] using hself
  · simp [StreamableHttpTransport.update, hid, Continues]

/-- An exchange goes on as before. -/
theorem ListenInv.update (h : ListenInv json s) {f : Exchange → Exchange}
    (hdone : (f (s.exchange id)).done = (s.exchange id).done)
    (hstream : (f (s.exchange id)).stream = (s.exchange id).stream)
    (htimer : (f (s.exchange id)).resumeTimer.isSome → (s.exchange id).resumeTimer.isSome)
    (hsession : (f (s.exchange id)).session = (s.exchange id).session) :
    ListenInv json (s.update id f) :=
  h.fewer (h.exchanges.update hdone hstream htimer)
    (continues_update f fun hlive => ⟨hdone ▸ hlive, hsession⟩)

/-- An exchange is over. -/
theorem ListenInv.releaseExchange (h : ListenInv json s) : ListenInv json (s.release id) :=
  h.fewer h.exchanges.release
    (continues_update (fun e => { e with done := true, resumeTimer := none })
      fun hlive => absurd hlive nofun)

theorem ListenInv.scheduleResume (h : ListenInv json s) : ListenInv json (s.scheduleResume id) :=
  h.fewer h.exchanges.scheduleResume
    (continues_update (fun e =>
      { e with
        stream := none
        resumeTimer := some (max (e.retryMs.getD 0) e.backoffMs)
        backoffMs := min (e.backoffMs * 2) Streamable.kMaxBackoffMs }) fun hlive => ⟨hlive, rfl⟩)

@[simp] theorem exchange_update (f : Exchange → Exchange) :
    (s.update id f).exchange id = f (s.exchange id) := Function.update_self ..

/-- The exchange was begun in the session that goes on. -/
def Fresh (s : StreamableHttpTransport) (id : ExchangeId) : Prop :=
  s.sentMeanwhile = false → (s.exchange id).session = s.sessions

theorem ListenInv.fresh (h : ListenInv json s) (hlive : (s.exchange id).done = false) :
    s.Fresh id :=
  fun hsent => (h.current hsent).exchanges id hlive

/-- The head of a response, which may bring a session id. -/
theorem ListenInv.onHeaders (h : ListenInv json s) (hfresh : s.Fresh id) (head : ResponseHead) :
    ListenInv json (s.onHeaders id head) := by
  have hs : ListenInv json (s.update id fun e => { e with response := head.toHttpResponse }) :=
    h.update rfl rfl (fun hsome => hsome) rfl
  unfold StreamableHttpTransport.onHeaders
  split
  · exact hs
  · have he := hs.exchanges
    refine ⟨⟨he.live, he.fresh, he.owner, he.listener, he.timer⟩,
      hs.replay.same rfl rfl rfl rfl rfl fun hsome => hsome, hs.closed, hs.isOpen, fun hsent => ?_⟩
    have hc := hs.current hsent
    refine ⟨hc.exchanges, hc.superseding, fun k hk => ?_, hc.protocolVersion, hc.listening,
      hc.backlog, hc.delivered⟩
    obtain rfl := Option.some.inj hk
    show ((s.update id _).exchange id).session = s.sessions
    rw [exchange_update]
    exact hfresh hsent

/-- The answer to an `initialize` of the session that goes on brings a protocol version. -/
theorem ListenInv.negotiated (h : ListenInv json s) {session : Nat}
    (hsession : s.sentMeanwhile = false → session = s.sessions) (version : String) :
    ListenInv json { s with
      protocolVersion := version, protocolVersionFrom := some session } := by
  have he := h.exchanges
  refine ⟨⟨he.live, he.fresh, he.owner, he.listener, he.timer⟩,
    h.replay.same rfl rfl rfl rfl rfl fun hsome => hsome, h.closed, h.isOpen, fun hsent => ?_⟩
  have hc := h.current hsent
  refine ⟨hc.exchanges, hc.superseding, hc.sessionId, fun k hk => ?_, hc.listening, hc.backlog,
    hc.delivered⟩
  obtain rfl := Option.some.inj hk
  exact hsession hsent

theorem keepsListen_observed {o : Observation} (ho : ∀ h, delivered (o :: h) = delivered h)
    (e : StreamableOut) : KeepsListen json (do
      Proc.modify (S := StreamableSig) fun s => s.observe o
      Proc.query (S := StreamableSig) e) :=
  (keepsListen_composes json).bind
    (keepsListen_modify (fun _ hs => hs.observe (ho _)) (fun _ => rfl) fun _ => rfl)
    fun _ => keepsListen_query e

theorem keepsListen_sendFailed (message : JsonObject) (reason : String) :
    KeepsListen json (sendFailed id message reason) :=
  keepsListen_observed (o := .failed id) (fun _ => rfl) _

theorem keepsListen_failUnsent (message : JsonObject) (reason : String) :
    KeepsListen json (failUnsent message reason) :=
  (keepsListen_composes json).bind (keepsListen_query _) fun _ =>
    (keepsListen_composes json).ite _ (keepsListen_query _) ((keepsListen_composes json).pure ())

theorem keepsListen_fail (reason : String) : KeepsListen json (fail id reason) := by
  have c := keepsListen_composes json
  exact c.bind (keepsListen_query _) fun _ => c.bind (c.reads _) fun _ =>
    c.ite _ (keepsListen_sendFailed _ _) (c.pure ())

theorem keepsListen_failRequest (message : JsonObject) (reason : String) (body : Bytes) :
    KeepsListen json (failRequest json id message reason body) :=
  (keepsListen_composes json).ite _ (keepsListen_sendFailed _ _)
    (keepsListen_observed (o := .failed id) (fun _ => rfl) _)

/-- An exchange of the session that goes on receives a message. -/
theorem keepsListen_receive (hs : ListenInv json s) (hfresh : s.Fresh id) (reply : JsonObject) :
    (listenContract json).KeepsAt (streamServer json).answer (receive json id reply) s := by
  have hc := listenContract_preorder json
  refine Contract.KeepsAt.bind hc (s := s) ?_ fun _ s' h' =>
    keepsListen_observed (o := .received id reply _) (fun _ => rfl) _ s' h'.1
  refine (wp_ite (S := StreamableSig) _ _ _ _ s).mpr ⟨fun _ => ?_, fun _ => ⟨hs, .refl s⟩⟩
  have hs₁ : ListenInv json (s.update id fun e => { e with answered := true }) :=
    hs.update rfl rfl (fun hsome => hsome) rfl
  refine (wp_ite (S := StreamableSig) _ _ _ _ (s.update id fun e => { e with answered := true })).mpr
    ⟨fun _ => ?_, fun _ => ⟨hs₁, rfl, fun hsent => hsent⟩⟩
  have hs₂ := hs₁.negotiated hfresh
    (((reply.value "result").toObject).value "protocolVersion").toString
  have hmoved : (listenContract json).Moves s _ := ⟨hs₂, rfl, fun hsent => hsent⟩
  have hthen := Contract.KeepsAt.after hc hmoved (keepsListen_openListenStream _ hs₂)
  exact hthen

theorem keepsListen_receiveEvents (events : List SSEEvent) :
    KeepsListen json (receiveEvents json id events) := by
  have hc := listenContract_preorder json
  have c := keepsListen_composes json
  induction events with
  | nil => exact c.pure ()
  | cons event events ih =>
      intro s (hs : ListenInv json s)
      refine (wp_ite (S := StreamableSig) ((s.exchange id).done = true) _ _ _ s).mpr
        ⟨fun _ => ⟨hs, .refl s⟩, fun hlive => ?_⟩
      cases messageOf json event.type event.data with
      | none => exact ih s hs
      | some reply =>
          have hfresh : s.Fresh id := hs.fresh (Bool.not_eq_true _ ▸ hlive)
          exact Contract.KeepsAt.bind hc (keepsListen_receive hs hfresh reply) fun _ s' h' =>
            ih s' h'.1

theorem keepsListen_onChunk (chunk : Bytes) : KeepsListen json (onChunk json id chunk) := by
  have c := keepsListen_composes json
  refine c.bind (c.reads _) fun e => 
    c.ite _ (keepsListen_modify (fun s hs => ?_) (fun _ => rfl) fun _ => rfl)
      (c.bind (keepsListen_modify (fun s hs => ?_) (fun _ => rfl) fun _ => rfl) fun _ =>
        c.bind (keepsListen_receiveEvents _) fun _ => c.bind (c.reads _) fun e' =>
          c.ite _ (keepsListen_modify (fun s hs => hs.releaseExchange) (fun _ => rfl) fun _ => rfl)
            (c.pure ()))
  · exact hs.update rfl rfl (fun hsome => hsome) rfl
  · exact hs.update rfl rfl (fun hsome => hsome) rfl

/-- The body of a response, of an exchange of the session that goes on. -/
theorem keepsListen_deliverBody (hs : ListenInv json s) (hfresh : s.Fresh id) :
    (listenContract json).KeepsAt (streamServer json).answer (deliverBody json id) s := by
  have hrefl : (listenContract json).Moves s s := ⟨hs, .refl s⟩
  refine (wp_ite (S := StreamableSig) _ _ _ _ s).mpr ⟨fun _ => hrefl, fun _ =>
    (wp_ite (S := StreamableSig) _ _ _ _ s).mpr ⟨fun _ => hrefl, fun _ => ?_⟩⟩
  cases json.fromJson (s.exchange id).response.body with
  | object reply => exact keepsListen_receive hs hfresh reply
  | null => exact keepsListen_query _ s hs
  | array xs => exact keepsListen_query _ s hs

theorem keepsListen_onFinished (hs : ListenInv json s) (hlive : (s.exchange id).done = false) :
    (listenContract json).KeepsAt (streamServer json).answer (onFinished json id) s := by
  have hc := listenContract_preorder json
  have c := keepsListen_composes json
  have hreleased : (listenContract json).Moves s (s.release id) :=
    ⟨hs.releaseExchange, rfl, fun hsent => hsent⟩
  refine (wp_ite (S := StreamableSig) _ _ _ _ s).mpr
    ⟨fun _ => ⟨hs.scheduleResume, rfl, fun hsent => hsent⟩, fun _ =>
      (wp_ite (S := StreamableSig) _ _ _ _ (s.release id)).mpr ⟨fun _ => ?_, fun _ => ?_⟩⟩
  · refine Contract.KeepsAt.after hc hreleased (c.bind (keepsListen_query _) (fun _ =>
      c.bind (c.ite _ (keepsListen_failRequest _ _ _) (c.pure ())) fun _ =>
        c.bind (c.reads _) fun _ => c.ite _ keepsListen_stopUnknown (c.pure ())) _ hreleased.1)
  · have hfresh : (s.release id).Fresh id := fun hsent => by
      have hself : (s.release id).exchange id =
          { s.exchange id with done := true, resumeTimer := none } :=
        exchange_update (s := s) fun e => { e with done := true, resumeTimer := none }
      exact (congrArg Exchange.session hself).trans (hs.fresh hlive hsent)
    refine Contract.KeepsAt.after hc hreleased (Contract.KeepsAt.bind hc ?_ fun _ s' h' =>
      c.bind (c.reads _) (fun _ => c.ite _ (keepsListen_sendFailed _ _) (c.pure ())) s' h'.1)
    exact (wp_ite (S := StreamableSig) _ _ _ _ (s.release id)).mpr
      ⟨fun _ => ⟨hreleased.1, .refl _⟩, fun _ => keepsListen_deliverBody hreleased.1 hfresh⟩

theorem keepsListen_released (reason : String) : KeepsListen json (do
    Proc.modify (S := StreamableSig) fun s => s.release id
    fail id reason) :=
  (keepsListen_composes json).bind
    (keepsListen_modify (fun _ hs => hs.releaseExchange) (fun _ => rfl) fun _ => rfl)
    fun _ => keepsListen_fail reason

theorem keepsListen_onError (message : String) : KeepsListen json (onError id message) := by
  have c := keepsListen_composes json
  exact c.bind (c.reads _) fun e => c.ite _
    (keepsListen_modify (fun _ hs => hs.scheduleResume) (fun _ => rfl) fun _ => rfl) (keepsListen_released _)

/-- A resumed exchange has a stream again. -/
theorem ListenInv.beginResume (h : ListenInv json s) (hlive : (s.exchange id).done = false)
    (hstream : (s.exchange id).stream = none) (htimer : (s.exchange id).resumeTimer = none) :
    ListenInv json (s.beginResume id) := by
  let f : Exchange → Exchange := fun e =>
    { e with
      resuming := true
      response := {}
      events := { e.events.clear with lastEventId := e.cursor, idBuffer := e.cursor } }
  have hs : ListenInv json (s.update id f) := h.update rfl rfl (fun hsome => hsome) rfl
  have hself : (s.update id f).exchange id = f (s.exchange id) := exchange_update f
  have he : ExchangeInv ((s.update id f).attach id) := by
    refine hs.exchanges.attach ?_ ?_ ?_
    · exact (congrArg Exchange.done hself).trans hlive
    · exact (congrArg Exchange.stream hself).trans hstream
    · exact (congrArg Exchange.resumeTimer hself).trans htimer
  have hattached : ListenInv json ((s.update id f).attach id) :=
    hs.fewer he (continues_update (fun e => { e with stream := some s.nextStream })
      fun hlive => ⟨hlive, rfl⟩)
  exact hattached.observe (o := .resumed id _) rfl

theorem keepsListen_resume (hs : ListenInv json s)
    (hstream : (s.exchange id).done = false → (s.exchange id).stream = none)
    (htimer : (s.exchange id).resumeTimer = none) :
    (listenContract json).KeepsAt (streamServer json).answer (resume id) s := by
  have hreleased (reason : String) : (listenContract json).KeepsAt (streamServer json).answer (do
      Proc.modify (S := StreamableSig) fun s => s.release id
      fail id reason) s := keepsListen_released reason s hs
  refine (wp_ite (S := StreamableSig) _ _ _ _ s).mpr ⟨fun _ => ⟨hs, .refl s⟩, fun hlive =>
    (wp_ite (S := StreamableSig) _ _ _ _ s).mpr ⟨fun _ => hreleased _, fun _ =>
      (wp_ite (S := StreamableSig) _ _ _ _ s).mpr ⟨fun _ => hreleased _, fun _ => ?_⟩⟩⟩
  have hlive := Bool.not_eq_true _ ▸ hlive
  exact ⟨hs.beginResume hlive (hstream hlive) htimer, rfl, fun hsent => hsent⟩

/-! ### New sessions -/

theorem keepsListen_supersede (ids : List ExchangeId) : KeepsListen json (supersede ids) := by
  have c := keepsListen_composes json
  induction ids with
  | nil => exact c.pure ()
  | cons id ids ih =>
      exact c.bind (c.reads _) fun e =>
        c.bind (c.ite _ (keepsListen_sendFailed _ _) (c.pure ())) fun _ => ih

/-- All exchanges are dropped while it is told that they were superseded. -/
theorem ListenInv.beginSupersede (h : ListenInv json s) :
    ListenInv json s.beginSupersede ∧ s.beginSupersede.superseding = s.superseding + 1 ∧
      s.beginSupersede.sentMeanwhile = s.sentMeanwhile := by
  obtain ⟨exchange, connected, heq, hinv, hdone⟩ := h.exchanges.abandonExchanges
  unfold StreamableHttpTransport.beginSupersede
  rw [heq]
  refine ⟨⟨⟨hinv.live, hinv.fresh, hinv.owner, hinv.listener, hinv.timer⟩,
    h.replay.same rfl rfl rfl rfl rfl fun hsome => hsome, h.closed, h.isOpen, fun hsent => ?_⟩,
    rfl, rfl⟩
  have hc := h.current hsent
  exact ⟨fun id hlive => absurd ((hdone id).symm.trans hlive) nofun, fun _ => hdone, hc.sessionId,
    hc.protocolVersion, hc.listening, hc.backlog, hc.delivered⟩

/-- Where nothing was sent meanwhile, nothing is left of the session that ends. -/
theorem ListenInv.endSupersede (h : ListenInv json s) (hsuperseding : 0 < s.superseding) :
    ListenInv json s.endSupersede ∧ s.endSupersede.superseding = s.superseding - 1 ∧
      (s.endSupersede.sentMeanwhile = false → s.sentMeanwhile = false) := by
  have he := h.exchanges
  have hr := rely_stopListening (s := { s with superseding := s.superseding - 1 }.forgetSession)
  refine ⟨ListenInv.stopListening ⟨he.live, he.fresh, he.owner, he.listener, he.timer⟩
    (h.replay.same rfl rfl rfl rfl rfl fun hsome => hsome) h.isOpen fun hsent => ?_,
    hr.superseding, hr.sentMeanwhile⟩
  have hc := h.current hsent
  exact ⟨hc.superseding hsuperseding, rfl, rfl, hc.delivered⟩

theorem keepsListen_startNewSession : KeepsListen json startNewSession := by
  intro s (hs : ListenInv json s)
  obtain ⟨hbegun, hcount, hsent⟩ := hs.beginSupersede
  refine (wp_bind (S := StreamableSig) (supersede s.exchanges) _ _ s.beginSupersede).mpr
    (wp_mono (S := StreamableSig) (keepsListen_supersede s.exchanges _ hbegun) fun _ s₁ h₁ => ?_)
  obtain ⟨hs₁, hr₁⟩ : ListenInv json s₁ ∧ ListenRely s.beginSupersede s₁ := h₁
  have hcount₁ : s₁.superseding = s.superseding + 1 := hr₁.superseding.trans hcount
  obtain ⟨hended, hcount₂, hsent₂⟩ := hs₁.endSupersede (by omega)
  refine ⟨hended, ?_, fun h => hsent ▸ hr₁.sentMeanwhile (hsent₂ h)⟩
  show s₁.endSupersede.superseding = s.superseding
  omega

/-- A message may be sent where it is known that it is sent while requests are superseded. -/
def MaySend (s : StreamableHttpTransport) : Prop := 0 < s.superseding → s.sentMeanwhile = true

theorem MaySend.rely {s' : StreamableHttpTransport} (h : s.MaySend) (hr : ListenRely s s') :
    s'.MaySend := by
  intro hsuperseding
  have hsent := h (hr.superseding ▸ hsuperseding)
  by_contra hnot
  exact absurd (hsent.symm.trans (hr.sentMeanwhile (Bool.not_eq_true _ ▸ hnot))) nofun

theorem ListenInv.newExchange (h : ListenInv json s) (hmay : s.MaySend) (message : JsonObject) :
    ListenInv json (s.newExchange message) := by
  refine h.withExchanges (h.exchanges.newExchange message) fun hsent => ⟨fun id hlive => ?_,
    fun hsuperseding => absurd ((hmay hsuperseding).symm.trans hsent) nofun⟩
  by_cases hid : id = s.nextExchange
  · simp [StreamableHttpTransport.update, hid]
  · have hold : (s.newExchange message).exchange id = s.exchange id := by
      simp [StreamableHttpTransport.newExchange, StreamableHttpTransport.attach,
        StreamableHttpTransport.update, StreamableHttpTransport.connect, hid]
    exact (congrArg Exchange.session hold).trans
      ((h.current hsent).exchanges id ((congrArg Exchange.done hold).symm.trans hlive))

theorem keepsListen_terminate : KeepsListen json (do
    let never : Empty ← Proc.query (S := StreamableSig) .terminate
    (never.elim : Proc StreamableSig Unit)) :=
  (keepsListen_composes json).bind (keepsListen_query .terminate) fun never => Empty.elim never

theorem keepsListen_post (hs : ListenInv json s) (hmay : s.MaySend) (message : JsonObject) :
    (listenContract json).KeepsAt (streamServer json).answer (post message) s := by
  have hc := listenContract_preorder json
  have c := keepsListen_composes json
  refine (wp_ite (S := StreamableSig) _ _ _ _ s).mpr ⟨fun _ => keepsListen_failUnsent _ _ s hs,
    fun _ => Contract.KeepsAt.bind hc ?_ fun _ s₁ h₁ => ?_⟩
  · exact c.ite _ keepsListen_startNewSession (c.pure ()) s hs
  obtain ⟨hs₁, hr₁⟩ : ListenInv json s₁ ∧ ListenRely s s₁ := h₁
  refine (wp_ite (S := StreamableSig) _ _ _ _ s₁).mpr
    ⟨fun _ => keepsListen_terminate s₁ hs₁, fun _ => ?_⟩
  exact (wp_ite (S := StreamableSig) _ _ _ _ s₁).mpr
    ⟨fun _ => ⟨hs₁.newExchange (hmay.rely hr₁) message, rfl, fun hsent => hsent⟩,
      fun _ => keepsListen_failUnsent _ _ s₁ hs₁⟩

/-- It is noted that a message is sent. -/
theorem ListenInv.noteSent (h : ListenInv json s) {sentMeanwhile : Bool}
    (hsent : sentMeanwhile = false → s.sentMeanwhile = false) :
    ListenInv json { s with sentMeanwhile } := by
  have he := h.exchanges
  refine ⟨⟨he.live, he.fresh, he.owner, he.listener, he.timer⟩,
    h.replay.same rfl rfl rfl rfl rfl fun hsome => hsome, h.closed, h.isOpen, fun hnot => ?_⟩
  have hc := h.current (hsent hnot)
  exact ⟨hc.exchanges, hc.superseding, hc.sessionId, hc.protocolVersion, hc.listening, hc.backlog,
    hc.delivered⟩

theorem keepsListen_send (message : JsonObject) : KeepsListen json (send message) := by
  intro s (hs : ListenInv json s)
  refine (wp_ite (S := StreamableSig) _ _ _ _ s).mpr ⟨fun _ => ?_, fun _ =>
    keepsListen_query _ s hs⟩
  have hsent : (s.sentMeanwhile || decide (0 < s.superseding)) = false → s.sentMeanwhile = false :=
    fun h => (Bool.or_eq_false_iff.mp h).1
  have hmay : MaySend { s with sentMeanwhile := s.sentMeanwhile || decide (0 < s.superseding) } :=
    fun hsuperseding => by
      have hsuperseding : 0 < s.superseding := hsuperseding
      simp [hsuperseding]
  have hnoted : (listenContract json).Moves s
      { s with sentMeanwhile := s.sentMeanwhile || decide (0 < s.superseding) } :=
    ⟨hs.noteSent hsent, rfl, hsent⟩
  have hthen := Contract.KeepsAt.after (listenContract_preorder json) hnoted
    (keepsListen_post hnoted.1 hmay message)
  exact hthen

theorem keepsListen_start (isValid : Bool) : KeepsListen json (start isValid) := by
  have c := keepsListen_composes json
  refine c.bind (c.reads _) fun _ => c.ite _ (c.pure ()) (c.ite _ (keepsListen_query _)
    (keepsListen_modify (fun s hs => ?_) (fun _ => rfl) fun _ => rfl))
  have he := hs.exchanges
  refine ⟨⟨he.live, he.fresh, he.owner, he.listener, he.timer⟩,
    hs.replay.same rfl rfl rfl rfl rfl fun hsome => hsome, nofun, hs.isOpen, fun hsent => ?_⟩
  have hc := hs.current hsent
  exact ⟨hc.exchanges, hc.superseding, hc.sessionId, hc.protocolVersion, hc.listening, hc.backlog,
    hc.delivered⟩

theorem ListenInv.abandonExchange (h : ListenInv json s) (requestId : String) :
    (listenContract json).Moves s (s.abandonExchange json requestId) := by
  unfold StreamableHttpTransport.abandonExchange
  cases s.exchanges.find? (s.isExchangeOf json requestId) with
  | none => exact ⟨h, .refl s⟩
  | some id =>
      exact ⟨ListenInv.observe (o := .abandoned id) h.releaseExchange rfl, rfl, fun hsent => hsent⟩

/-- A stream is gone. -/
theorem ListenInv.destroyStream (h : ListenInv json s) (stream : StreamId) :
    ListenInv json (s.destroyStream stream) := by
  have hsame : ∀ id, ((s.destroyStream stream).exchange id).done = (s.exchange id).done ∧
      ((s.destroyStream stream).exchange id).session = (s.exchange id).session := by
    intro id
    by_cases hid : (s.exchange id).stream = some stream
    · simp [StreamableHttpTransport.destroyStream, hid]
    · simp [StreamableHttpTransport.destroyStream, hid]
  have hopen : (s.destroyStream stream).listenStream.isSome → s.listenStream.isSome := by
    show (if s.listenStream = some stream then none else s.listenStream).isSome → _
    split
    · exact nofun
    · exact fun hsome => hsome
  refine ⟨h.exchanges.destroyStream stream, h.replay.same rfl rfl rfl rfl rfl hopen,
    fun hclosed => ?_, h.isOpen, fun hsent => ?_⟩
  · obtain ⟨hnone, hbacklog⟩ := h.closed hclosed
    refine ⟨?_, hbacklog⟩
    show (if s.listenStream = some stream then none else s.listenStream) = none
    rw [hnone]
    exact ite_self none
  · have hc := h.current hsent
    exact ⟨fun id hlive => (hsame id).2.trans (hc.exchanges id ((hsame id).1 ▸ hlive)),
      fun hsuperseding id => (hsame id).1.trans (hc.superseding hsuperseding id), hc.sessionId,
      hc.protocolVersion, fun hsome => hc.listening (hopen hsome), hc.backlog, hc.delivered⟩

/-- A `resumeTimer` fires. -/
theorem keepsListen_resumeTimer (hs : ListenInv json s)
    (htimer : (s.exchange id).resumeTimer.isSome) :
    (listenContract json).KeepsAt (streamServer json).answer
      (streamableEntry json (.resumeTimer id)) s := by
  have hself : (s.update id fun e => { e with resumeTimer := none }).exchange id =
      { s.exchange id with resumeTimer := none } := exchange_update (s := s) fun e => _
  have hfired : (listenContract json).Moves s
      (s.update id fun e => { e with resumeTimer := none }) :=
    ⟨hs.update rfl rfl nofun rfl, rfl, fun hsent => hsent⟩
  have hthen := Contract.KeepsAt.after (listenContract_preorder json) hfired
    (keepsListen_resume hfired.1
      (fun _ => (congrArg Exchange.stream hself).trans (hs.exchanges.timer id htimer))
      (congrArg Exchange.resumeTimer hself))
  exact hthen

/-- The server sends an event. -/
theorem ListenInv.serve (h : ListenInv json s) {e : ServerEvent}
    (he : (e.message json).isSome → e.id.isSome) :
    ListenInv json { s with served := s.served ++ [e] } := by
  have hx := h.exchanges
  refine ⟨⟨hx.live, hx.fresh, hx.owner, hx.listener, hx.timer⟩, h.replay.serve he, h.closed,
    h.isOpen, fun hsent => ?_⟩
  have hc := h.current hsent
  exact ⟨hc.exchanges, hc.superseding, hc.sessionId, hc.protocolVersion, hc.listening, hc.backlog,
    hc.delivered⟩

/-- The server begins to answer. -/
theorem ListenInv.answerListen (h : ListenInv json s) (hnew : s.listening.start = none) :
    ListenInv json { s with listening := { s.listening with
      start := some (resumePlace s.served s.listening.lastEventId) } } := by
  have he := h.exchanges
  refine ⟨⟨he.live, he.fresh, he.owner, he.listener, he.timer⟩, h.replay.answerListen hnew,
    h.closed, h.isOpen, fun hsent => ?_⟩
  have hc := h.current hsent
  exact ⟨hc.exchanges, hc.superseding, hc.sessionId, hc.protocolVersion, hc.listening, hc.backlog,
    hc.delivered⟩

/-- Whatever happens to the transport. -/
theorem keepsListen_entry (hs : ListenInv json s) {e : StreamableEvent} (hpossible : e.Possible s)
    (hserves : s.Serves json e) :
    (listenContract json).KeepsAt (streamServer json).answer (streamableEntry json e) s := by
  have c := keepsListen_composes json
  cases e with
  | start isValid => exact keepsListen_start isValid s hs
  | stop => exact keepsListen_stop s hs
  | send message => exact keepsListen_send message s hs
  | abandon requestId => exact ListenInv.abandonExchange hs requestId
  | exchange stream id signal =>
      obtain ⟨hlive, hstream⟩ := hs.exchanges.owner stream id hpossible
      cases signal with
      | headersReceived head =>
          refine ⟨hs.onHeaders (hs.fresh hlive) head, ?_⟩
          show ListenRely s (s.onHeaders id head)
          unfold StreamableHttpTransport.onHeaders
          split
          · exact ⟨rfl, fun hsent => hsent⟩
          · exact ⟨rfl, fun hsent => hsent⟩
      | chunkReceived chunk => exact keepsListen_onChunk chunk s hs
      | finished => exact keepsListen_onFinished hs hlive
      | errorOccurred message => exact keepsListen_onError message s hs
      | destroyed =>
          exact c.bind (keepsListen_modify
            (fun _ hs => (hs.destroyStream stream).releaseExchange) (fun _ => rfl) fun _ => rfl)
            (fun _ => keepsListen_fail _) s hs
  | listen stream signal elapsed =>
      have hopen : s.listenStream.isSome := by
        rw [hs.exchanges.listener stream hpossible]
        rfl
      cases signal with
      | headersReceived head => exact keepsListen_onListenHeaders _ s hs
      | chunkReceived chunk => exact keepsListen_onListenChunk hs hopen hserves
      | finished => exact keepsListen_onListenEnded elapsed s hs
      | errorOccurred message => exact keepsListen_onListenEnded elapsed s hs
      | destroyed =>
          exact c.bind (keepsListen_modify (fun _ hs => hs.destroyStream stream) (fun _ => rfl) fun _ => rfl)
            (fun _ => keepsListen_onListenEnded elapsed) s hs
  | resumeTimer id => exact keepsListen_resumeTimer hs hpossible
  | listenRetryTimer =>
      have hcleared : KeepsListen json
          (Proc.modify (S := StreamableSig) fun s => { s with listenRetryTimer := none }) :=
        keepsListen_modify (fun _ hs => hs.neutral) (fun _ => rfl) fun _ => rfl
      exact c.bind hcleared (fun _ => keepsListen_openListenStream) s hs
  | httpDestroyed => exact ⟨hs.neutral, rfl, fun hsent => hsent⟩
  | opens opens => exact ⟨hs.neutral, rfl, fun hsent => hsent⟩
  | serve e => exact ⟨hs.serve hserves, rfl, fun hsent => hsent⟩
  | answerListen => exact ⟨hs.answerListen hserves.2, rfl, fun hsent => hsent⟩

end Code

theorem listen_valid (json : RpcCodec) : (listenContract json).Valid (streamServer json) :=
  .of_guarded (listenContract_preorder json)
    (fun _ _ hs hallowed => keepsListen_entry hs hallowed.1 hallowed.2)
    fun _ s hs => keepsListen_deliverBacklog s hs

/-- In every run in which nothing is sent while it is told of superseded requests, what comes over
listen streams is delivered in order and at most once, and only of the session that goes on. -/
theorem listens_safely (json : RpcCodec) {c : Config StreamableSig}
    (hrun : Reaches (streamServer json) (.idle {}) c) (hwaiting : c.Waiting)
    (hsent : c.state.sentMeanwhile = false) : ListensSafely json c.state := by
  have hs : ListenInv json c.state :=
    (listen_valid json).waiting (listenInv_init json) hrun hwaiting
  refine ⟨?_, hs.isOpen, (hs.current hsent).delivered⟩
  exact (List.sublist_append_left _ _).trans hs.replay.order

/-! ### Runs

The server answers an `initialize` and sends messages over the listen stream, which drops between
them. -/

/-- May the server, or a stream, do this now? -/
def decidableEvent (json : RpcCodec) (s : StreamableHttpTransport) (e : StreamableEvent) :
    Decidable (e.Possible s ∧ s.Serves json e) :=
  inferInstance

instance (json : RpcCodec) (s : StreamableHttpTransport) (e : (streamableMachine json).Event) :
    Decidable ((streamServer json).event s e) := decidableEvent json s e

instance (json : RpcCodec) (s : StreamableHttpTransport) (o : StreamableOut)
    (e : (streamableMachine json).Event) : Decidable ((streamServer json).nested s o e) :=
  decidableEvent json s e

instance (json : RpcCodec) (s : StreamableHttpTransport) (o : StreamableOut) (a : o.Ans) :
    Decidable ((streamServer json).answer s o a) := .isTrue trivial

/-- Every slot returns. -/
def slotsReturn : (o : StreamableOut) → Option o.Ans
  | .errorOccurred _ | .messageReceived _ | .sendFailed .. | .closed => some ()
  | .terminate => none

def note : JsonObject := [("method", .str "note")]
def noteText : Bytes := Bytes.ascii "\x7b\"method\":\"note\"\x7d"

/-- The answer of the server to `initialize`. -/
def welcome : JsonObject :=
  [("id", .str "b"), ("result", .obj [("protocolVersion", .str "2025-03-26")])]
def welcomeText : Bytes :=
  Bytes.ascii "\x7b\"id\":\"b\",\"result\":\x7b\"protocolVersion\":\"2025-03-26\"\x7d\x7d"

def more : JsonObject := [("method", .str "more")]
def moreText : Bytes := Bytes.ascii "\x7b\"method\":\"more\"\x7d"

/-- A reader that knows these three. -/
def noteCodec : RpcCodec where
  fromJson data :=
    if data = noteText then .object note
    else if data = moreText then .object more
    else if data = welcomeText then .object welcome
    else .null
  toJson _ := ""
  numberText d := toString d.num

def initializeAs (id : String) : JsonObject := [("id", .str id), ("method", .str "initialize")]

/-- The event with which the server sends `note`. -/
def notify : ServerEvent := { session := "B", id := some (Bytes.ascii "1"), data := noteText }
def noteChunk : Bytes := Bytes.ascii "id: 1\ndata: \x7b\"method\":\"note\"\x7d\n\n"

/-- The server answers the `initialize` of an exchange over its stream. -/
def welcomeMoves (stream : StreamId) (id : ExchangeId) : List (Move (streamableMachine noteCodec)) :=
  [.event (.exchange stream id (.headersReceived
      { statusCode := 200, contentType := "application/json", sessionId := "B" })),
    .event (.exchange stream id (.chunkReceived welcomeText)),
    .event (.exchange stream id .finished), .respond slotsReturn]

/-- The server sends `note` over the listen stream. -/
def noteMoves (stream : StreamId) : List (Move (streamableMachine noteCodec)) :=
  [.event (.listen stream (.headersReceived { statusCode := 200, contentType := "text/event-stream" }) 0),
    .event .answerListen, .event (.serve notify),
    .event (.listen stream (.chunkReceived noteChunk) 0)]

/-- The event with which the server sends `more`. -/
def notifyMore : ServerEvent :=
  { session := "B", id := some (Bytes.ascii "2"), data := moreText }
def moreChunk : Bytes := Bytes.ascii "id: 2\ndata: \x7b\"method\":\"more\"\x7d\n\n"

/-- The listen stream ends, and the server sends `more` over the next one. -/
def moreMoves (dropped stream : StreamId) : List (Move (streamableMachine noteCodec)) :=
  [.respond slotsReturn, .event (.listen dropped .finished 60000), .event .listenRetryTimer,
    .event (.listen stream
      (.headersReceived { statusCode := 200, contentType := "text/event-stream" }) 0),
    .event .answerListen, .event (.serve notifyMore),
    .event (.listen stream (.chunkReceived moreChunk) 0)]

def notesScript : List (Move (streamableMachine noteCodec)) :=
  .event (.start true) :: .event (.send (initializeAs "b")) ::
    (welcomeMoves 0 0 ++ noteMoves 1 ++ moreMoves 1 2)

/-- A run in which `note` is delivered, and `more` over the next stream. -/
def notesRun : { c : Config StreamableSig // Reaches (streamServer noteCodec) (.idle {}) c ∧
    c.Waiting ∧ c.state.sentMeanwhile = false ∧
    (delivered c.state.history).map (·.message) = [note, more] } :=
  ⟨play (streamableMachine noteCodec) 2 notesScript (.idle {}), by
    have hplayed : Playable (streamServer noteCodec) 2 notesScript (.idle {}) ∧
        (play (streamableMachine noteCodec) 2 notesScript (.idle {})).Waiting ∧
        (play (streamableMachine noteCodec) 2 notesScript (.idle {})).state.sentMeanwhile = false ∧
        (delivered (play (streamableMachine noteCodec) 2 notesScript (.idle {})).state.history).map
          (·.message) = [note, more] := by
      decide +kernel
    exact ⟨reaches_play hplayed.1, hplayed.2⟩⟩

/-- While a session begins, another begins that it ends, and the listen stream is opened for. -/
def supersededScript : List (Move (streamableMachine noteCodec)) :=
  .event (.start true) :: .event (.send [("id", .str "r"), ("method", .str "ping")]) ::
    .event (.send (initializeAs "a")) :: .event (.send (initializeAs "b")) ::
    .respond slotsReturn :: (welcomeMoves 1 1 ++ noteMoves 3)

/-- A run in which `note` is delivered over a stream for another session than that which goes on. -/
def supersededRun : { c : Config StreamableSig // Reaches (streamServer noteCodec) (.idle {}) c ∧
    c.Waiting ∧ ∃ d ∈ delivered c.state.history, ∃ session ∈ d.sessions, session ≠ d.session } :=
  ⟨play (streamableMachine noteCodec) 2 supersededScript (.idle {}), by
    have hplayed : Playable (streamServer noteCodec) 2 supersededScript (.idle {}) ∧
        (play (streamableMachine noteCodec) 2 supersededScript (.idle {})).Waiting ∧
        ∃ d ∈ delivered
            (play (streamableMachine noteCodec) 2 supersededScript (.idle {})).state.history,
          ∃ session ∈ d.sessions, session ≠ d.session := by
      decide +kernel
    exact ⟨reaches_play hplayed.1, hplayed.2⟩⟩

theorem listens_safely_notes :
    ∃ c : Config StreamableSig, Reaches (streamServer noteCodec) (.idle {}) c ∧ c.Waiting ∧
      (delivered c.state.history).map (·.message) = [note, more] ∧
      ListensSafely noteCodec c.state := by
  obtain ⟨c, hrun, hwaiting, hsent, hdelivered⟩ := notesRun
  exact ⟨c, hrun, hwaiting, hdelivered, listens_safely noteCodec hrun hwaiting hsent⟩

/-- A message is delivered over a stream that was opened for a session that has ended. -/
theorem listens_superseded :
    ∃ c : Config StreamableSig, Reaches (streamServer noteCodec) (.idle {}) c ∧ c.Waiting ∧
      ¬ ListensSafely noteCodec c.state := by
  obtain ⟨c, hrun, hwaiting, d, hd, session, hsession, hne⟩ := supersededRun
  exact ⟨c, hrun, hwaiting, fun hsafe => hne (hsafe.current d hd session hsession)⟩

end StreamableHttpTransport

end LLMQore.Mcp
