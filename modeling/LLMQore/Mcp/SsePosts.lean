import LLMQore.Mcp.SseHttpTransport

/-!
# LLMQore.Mcp.SsePosts

What the transport over HTTP with a standing stream of events posts, and where.

While the queue is posted its messages are in the hand of the code that posts them, and a visit
meanwhile may close the transport and open it again. What such a visit may do to messages it has
not in hand is the rely of the contract (`SseRely`); what the code in between knows of those it has
is `Hand`.
-/

namespace LLMQore.Mcp

open Reentrant Network

namespace SseHttpTransport

/-! ### What is promised -/

/-- The messages sent, newest first. -/
def sents (h : List SseObservation) : List Outbound :=
  h.filterMap fun
    | .sent m => some m
    | _ => none

/-- The messages posted, newest first. -/
def posts (h : List SseObservation) : List Outbound :=
  h.filterMap fun
    | .posted m _ _ => some m
    | _ => none

/-- The streams over which an endpoint was announced and accepted. -/
def heard (h : List SseObservation) : List (Option StreamId) :=
  h.filterMap fun
    | .announced stream _ => some stream
    | _ => none

/-- The endpoint is an absolute URL. -/
def Absolute (endpoint : Url) : Prop := endpoint.scheme ≠ ""

/-- What is posted is posted to the origin of the endpoint, once, in the order in which it was sent
if it was queued, and over the stream that was open when it was sent. -/
structure PostsSafely (endpoint : Url) (s : SseHttpTransport) : Prop where
  origin : ∀ m stream url, .posted m stream url ∈ s.history → url.isSameOrigin endpoint = true
  sent : ∀ m ∈ posts s.history, m ∈ sents s.history
  numbered : (sents s.history).Pairwise fun m m' => m'.number < m.number
  once : (posts s.history).Nodup
  ordered : Absolute endpoint →
    ((posts s.history).filter (·.early)).Pairwise fun m m' => m'.number < m.number
  connection : ∀ m stream url, .posted m stream url ∈ s.history → m.stream = stream

/-- What was queued is posted, or waits for an endpoint, unless the transport was closed or the
`HttpTransport` is gone. -/
def Flushed (endpoint : Url) (s : SseHttpTransport) : Prop :=
  ∀ m ∈ sents s.history, m.early = true →
    m ∈ posts s.history ∨ (m ∈ s.pendingSends ∧ (Absolute endpoint → m.stream ∉ heard s.history)) ∨
      s.sseStream ≠ m.stream ∨ s.http = false

/-! ### The invariant -/

/-- Whenever the transport waits for its surroundings. -/
structure SseInv (endpoint : Url) (s : SseHttpTransport) : Prop where
  isOpen : s.isOpen = s.sseStream.isSome
  connected : ∀ id ∈ s.connected, s.sseStream = some id
  fresh : ∀ id, s.sseStream = some id → id < s.nextStream
  numbers : ∀ m ∈ sents s.history, m.number < s.nextNumber
  streams : ∀ m ∈ sents s.history, ∃ id, m.stream = some id ∧ id < s.nextStream
  pending : ∀ m ∈ s.pendingSends, m ∈ sents s.history ∧ m.early = true ∧
    m.stream = s.sseStream ∧ m ∉ posts s.history
  pendingOnce : s.pendingSends.Nodup
  pendingOrdered : Absolute endpoint → s.pendingSends.Pairwise fun m m' => m.number < m'.number
  later : Absolute endpoint → ∀ m ∈ posts s.history, m.early = true → ∀ m' ∈ s.pendingSends,
    m.number < m'.number
  announced : s.postEndpoint.isEmpty = false →
    s.pendingSends = [] ∧ s.postEndpoint.isSameOrigin endpoint = true
  heard : ∀ stream ∈ heard s.history, ∃ id, stream = some id ∧ id < s.nextStream ∧
    (Absolute endpoint → s.sseStream = some id → s.postEndpoint.isEmpty = false)
  safe : PostsSafely endpoint s

/-- A message sent over a stream that is neither posted nor queued, although it could be. -/
structure Unsettled (s : SseHttpTransport) (m : Outbound) : Prop where
  sent : m ∈ sents s.history
  early : m.early = true
  unposted : m ∉ posts s.history
  unqueued : m ∉ s.pendingSends
  http : s.http = true

/-- What a visit that has the messages of `hand` in hand may do. -/
structure SseRely (endpoint : Url) (hand : List Outbound) (s s' : SseHttpTransport) : Prop where
  nextStream : s.nextStream ≤ s'.nextStream
  history : s.history <:+ s'.history
  http : s'.http = true → s.http = true
  /-- A stream that was let go does not come back. -/
  gone : ∀ id, s'.sseStream = some id → s.sseStream = some id ∨ s.nextStream ≤ id
  /-- What is not queued is neither queued nor posted. -/
  kept : ∀ m ∈ sents s.history, m ∉ s.pendingSends →
    m ∉ s'.pendingSends ∧ (m ∈ posts s'.history → m ∈ posts s.history)
  /-- Once the endpoint of a stream is known, nothing more is queued. -/
  known : Absolute endpoint → ∀ id, s.sseStream = some id → id < s.nextStream →
    s'.sseStream = some id → s.postEndpoint.isEmpty = false →
    s'.postEndpoint.isEmpty = false ∧
      (posts s'.history).filter (·.early) = (posts s.history).filter (·.early)
  settled : ∀ m, m.stream = s'.sseStream → Unsettled s' m →
    m ∈ hand ∨ (m.stream = s.sseStream ∧ Unsettled s m)

section Histories

variable {h h' : List SseObservation} {m : Outbound}

@[simp] theorem sents_sent : sents (.sent m :: h) = m :: sents h := rfl
@[simp] theorem sents_posted (stream : Option StreamId) (url : Url) :
    sents (.posted m stream url :: h) = sents h := rfl
@[simp] theorem sents_announced (stream : Option StreamId) (url : Url) :
    sents (.announced stream url :: h) = sents h := rfl
@[simp] theorem posts_announced (stream : Option StreamId) (url : Url) :
    posts (.announced stream url :: h) = posts h := rfl
@[simp] theorem posts_sent : posts (.sent m :: h) = posts h := rfl
@[simp] theorem posts_posted (stream : Option StreamId) (url : Url) :
    posts (.posted m stream url :: h) = m :: posts h := rfl

theorem sents_mono (hs : h <:+ h') (hm : m ∈ sents h) : m ∈ sents h' := by
  obtain ⟨o, ho, hsome⟩ := List.mem_filterMap.mp hm
  exact List.mem_filterMap.mpr ⟨o, hs.subset ho, hsome⟩

end Histories

section Rely

variable {endpoint : Url} {hand : List Outbound} {s s₁ s₂ : SseHttpTransport}

theorem SseRely.refl (s : SseHttpTransport) : SseRely endpoint [] s s where
  nextStream := Nat.le_refl _
  history := List.suffix_refl _
  http h := h
  gone _ h := .inl h
  kept _ _ hm := ⟨hm, fun h => h⟩
  known _ _ _ _ _ h := ⟨h, rfl⟩
  settled _ hm h := .inr ⟨hm, h⟩

/-- A visit of somebody else, who has nothing in hand. -/
theorem SseRely.trans (h₁ : SseRely endpoint hand s s₁) (h₂ : SseRely endpoint [] s₁ s₂) :
    SseRely endpoint hand s s₂ where
  nextStream := Nat.le_trans h₁.nextStream h₂.nextStream
  history := h₁.history.trans h₂.history
  http h := h₁.http (h₂.http h)
  gone id h := by
    rcases h₂.gone id h with h | h
    · exact h₁.gone id h
    · exact .inr (Nat.le_trans h₁.nextStream h)
  kept m hm hqueued := by
    obtain ⟨hqueued₁, hposted₁⟩ := h₁.kept m hm hqueued
    obtain ⟨hqueued₂, hposted₂⟩ := h₂.kept m (sents_mono h₁.history hm) hqueued₁
    exact ⟨hqueued₂, fun h => hposted₁ (hposted₂ h)⟩
  known habs id hs hlt hs₂ hknown := by
    have hs₁ : s₁.sseStream = some id := by
      refine (h₂.gone id hs₂).resolve_right fun hle => ?_
      exact absurd (Nat.lt_of_lt_of_le hlt (Nat.le_trans h₁.nextStream hle)) (Nat.lt_irrefl _)
    obtain ⟨hknown₁, hsame₁⟩ := h₁.known habs id hs hlt hs₁ hknown
    obtain ⟨hknown₂, hsame₂⟩ :=
      h₂.known habs id hs₁ (Nat.lt_of_lt_of_le hlt h₁.nextStream) hs₂ hknown₁
    exact ⟨hknown₂, hsame₂.trans hsame₁⟩
  settled m hm h := by
    rcases h₂.settled m hm h with hhand | ⟨hm₁, hu⟩
    · cases hhand
    · exact h₁.settled m hm₁ hu

end Rely

def sseContract (endpoint : Url) : Contract SseSig :=
  .plain (SseInv endpoint) (SseRely endpoint [])

theorem sseContract_preorder (endpoint : Url) : (sseContract endpoint).Preorder where
  refl s := SseRely.refl s
  trans h₁ h₂ := h₁.trans h₂

/-- Every answer of the surroundings is one. -/
abbrev anyReturn : SseHttpTransport → (e : SseOut) → SseSig.Ans e → Prop := fun _ _ _ => True

/-! ### Updates -/

section Updates

variable {endpoint : Url} {s s' : SseHttpTransport}

/-- Updates of what neither the invariant nor the rely looks at. -/
theorem SseInv.parser (h : SseInv endpoint s) (sseParser : SSEParser) :
    SseInv endpoint { s with sseParser } :=
  { h with safe := { h.safe with } }

/-- The transport is closed, or was not open. -/
structure Closes (s s' : SseHttpTransport) : Prop where
  isOpen : s'.isOpen = false
  sseStream : s'.sseStream = none
  connected : s'.connected = []
  postEndpoint : s'.postEndpoint = {}
  pendingSends : s'.pendingSends = []
  nextStream : s'.nextStream = s.nextStream
  nextNumber : s'.nextNumber = s.nextNumber
  history : s'.history = s.history
  http : s'.http = s.http

theorem PostsSafely.same (h : PostsSafely endpoint s) (hhistory : s'.history = s.history) :
    PostsSafely endpoint s' where
  origin := hhistory ▸ h.origin
  sent := hhistory ▸ h.sent
  numbered := hhistory ▸ h.numbered
  once := hhistory ▸ h.once
  ordered := hhistory ▸ h.ordered
  connection := hhistory ▸ h.connection

theorem Closes.inv (hc : Closes s s') (h : SseInv endpoint s) : SseInv endpoint s' where
  isOpen := by rw [hc.isOpen, hc.sseStream]; rfl
  connected := by rw [hc.connected]; nofun
  fresh := by rw [hc.sseStream]; nofun
  numbers := by rw [hc.history, hc.nextNumber]; exact h.numbers
  streams := by rw [hc.history, hc.nextStream]; exact h.streams
  pending := by rw [hc.pendingSends]; nofun
  pendingOnce := by rw [hc.pendingSends]; exact .nil
  pendingOrdered _ := by rw [hc.pendingSends]; exact .nil
  later _ _ _ _ := by rw [hc.pendingSends]; nofun
  announced := by rw [hc.postEndpoint]; nofun
  heard := by
    rw [hc.history, hc.nextStream, hc.sseStream]
    intro stream hstream
    obtain ⟨id, hid, hlt, -⟩ := h.heard stream hstream
    exact ⟨id, hid, hlt, nofun⟩
  safe := h.safe.same hc.history

theorem Closes.rely (hc : Closes s s') (h : SseInv endpoint s) : SseRely endpoint [] s s' where
  nextStream := Nat.le_of_eq hc.nextStream.symm
  history := hc.history ▸ List.suffix_refl _
  http hs := by
    rw [hc.http] at hs
    exact hs
  gone id h := by
    rw [hc.sseStream] at h
    cases h
  kept m _ _ := by
    rw [hc.pendingSends, hc.history]
    exact ⟨List.not_mem_nil, id⟩
  known := by rw [hc.sseStream]; nofun
  settled m hm hu := by
    -- every message is sent over a stream
    have hsent := hu.sent
    rw [hc.history] at hsent
    obtain ⟨id, hid, -⟩ := h.streams m hsent
    rw [hc.sseStream, hid] at hm
    cases hm

theorem Closes.moves (hc : Closes s s') (h : SseInv endpoint s) :
    (sseContract endpoint).Moves s s' :=
  ⟨hc.inv h, hc.rely h⟩

/-- No stream is connected but the one that is current. -/
theorem SseInv.connected_drop (h : SseInv endpoint s) {id : StreamId}
    (hid : s.sseStream = some id) : s.connected.filter (· != id) = [] := by
  refine List.filter_eq_nil_iff.mpr fun id' hid' => ?_
  have hsame := h.connected id' hid'
  rw [hid] at hsame
  simp [Option.some.inj hsame]

theorem SseInv.connected_nil (h : SseInv endpoint s) (hnone : s.sseStream = none) :
    s.connected = [] := by
  refine List.eq_nil_iff_forall_not_mem.mpr fun id hid => ?_
  rw [h.connected id hid] at hnone
  cases hnone

theorem SseInv.closes (h : SseInv endpoint s) :
    Closes s { s.dropStream.resetSession with isOpen := false } := by
  unfold dropStream resetSession
  cases hs : s.sseStream with
  | none => exact ⟨rfl, hs, h.connected_nil hs, rfl, rfl, rfl, rfl, rfl, rfl⟩
  | some id => exact ⟨rfl, rfl, h.connected_drop hs, rfl, rfl, rfl, rfl, rfl, rfl⟩

/-- A stream is opened where none is open. -/
theorem SseInv.connect (h : SseInv endpoint s) (hclosed : s.isOpen = false) :
    (sseContract endpoint).Moves s s.connect := by
  have hnone : s.sseStream = none := by
    rw [h.isOpen] at hclosed
    exact Option.not_isSome_iff_eq_none.mp (by simp [hclosed])
  -- nothing is queued over no stream
  have hempty : s.pendingSends = [] := by
    refine List.eq_nil_iff_forall_not_mem.mpr fun m hm => ?_
    obtain ⟨hsent, -, hstream, -⟩ := h.pending m hm
    obtain ⟨id, hid, -⟩ := h.streams m hsent
    rw [hid, hnone] at hstream
    cases hstream
  have hinv : SseInv endpoint s.connect :=
    { isOpen := rfl
      connected := by simp [SseHttpTransport.connect, h.connected_nil hnone]
      fresh := fun id hid => by
        obtain rfl := Option.some.inj hid
        exact Nat.lt_succ_self _
      numbers := h.numbers
      streams := fun m hm => by
        obtain ⟨id, hid, hlt⟩ := h.streams m hm
        exact ⟨id, hid, Nat.lt_succ_of_lt hlt⟩
      pending := by simp [SseHttpTransport.connect, hempty]
      pendingOnce := h.pendingOnce
      pendingOrdered := h.pendingOrdered
      later := h.later
      announced := h.announced
      heard := fun stream hstream => by
        obtain ⟨id, hid, hlt, -⟩ := h.heard stream hstream
        refine ⟨id, hid, Nat.lt_succ_of_lt hlt, fun _ hnew => ?_⟩
        obtain rfl := Option.some.inj hnew
        exact absurd hlt (Nat.lt_irrefl _)
      safe := h.safe.same rfl }
  refine ⟨hinv, Nat.le_succ _, List.suffix_refl _, id, fun id hid => ?_, fun _ _ hm => ⟨hm, id⟩,
    fun _ _ hs => ?_, fun m hm hu => ?_⟩
  · obtain rfl := Option.some.inj hid
    exact .inr (Nat.le_refl _)
  · rw [hnone] at hs
    cases hs
  · obtain ⟨id, hid, hlt⟩ := h.streams m hu.sent
    rw [hid] at hm
    obtain rfl := Option.some.inj hm
    exact absurd hlt (Nat.lt_irrefl _)

theorem SseInv.httpDestroyed (h : SseInv endpoint s) :
    (sseContract endpoint).Moves s { s with http := false } := by
  refine ⟨{ h with safe := h.safe.same rfl }, Nat.le_refl _, List.suffix_refl _, nofun,
    fun _ hid => .inl hid, fun _ _ hm => ⟨hm, id⟩, fun _ _ _ _ _ hk => ⟨hk, rfl⟩, fun m _ hu => ?_⟩
  cases hu.http

theorem SseInv.parserMoves (h : SseInv endpoint s) (sseParser : SSEParser) :
    (sseContract endpoint).Moves s { s with sseParser } :=
  ⟨h.parser sseParser, Nat.le_refl _, List.suffix_refl _, id, fun _ hid => .inl hid,
    fun _ _ hm => ⟨hm, id⟩, fun _ _ _ _ _ hk => ⟨hk, rfl⟩,
    fun _ hm hu => .inr ⟨hm, hu.sent, hu.early, hu.unposted, hu.unqueued, hu.http⟩⟩

/-! ### Sending -/

theorem SseInv.fresh_number (h : SseInv endpoint s) {m : Outbound} (hm : m.number = s.nextNumber) :
    m ∉ sents s.history := by
  intro hsent
  have hlt := h.numbers m hsent
  omega

/-- A message is sent. -/
theorem SseInv.number (h : SseInv endpoint s) (hopen : s.isOpen = true) (message : JsonObject) :
    SseInv endpoint (s.number (s.outbound message)) := by
  obtain ⟨id, hid⟩ : ∃ id, s.sseStream = some id := by
    rw [h.isOpen] at hopen
    exact Option.isSome_iff_exists.mp hopen
  exact
    { isOpen := h.isOpen
      connected := h.connected
      fresh := h.fresh
      numbers := fun m hm => by
        rcases List.mem_cons.mp hm with rfl | hm
        · exact Nat.lt_succ_self _
        · exact Nat.lt_succ_of_lt (h.numbers m hm)
      streams := fun m hm => by
        rcases List.mem_cons.mp hm with rfl | hm
        · exact ⟨id, hid, h.fresh id hid⟩
        · exact h.streams m hm
      pending := fun m hm => by
        obtain ⟨hsent, hrest⟩ := h.pending m hm
        exact ⟨.tail _ hsent, hrest⟩
      pendingOnce := h.pendingOnce
      pendingOrdered := h.pendingOrdered
      later := h.later
      announced := h.announced
      heard := h.heard
      safe :=
        { origin := fun m stream url hm => by
            rcases List.mem_cons.mp hm with heq | hm
            · cases heq
            · exact h.safe.origin m stream url hm
          sent := fun m hm => .tail _ (h.safe.sent m hm)
          numbered := List.pairwise_cons.mpr ⟨h.numbers, h.safe.numbered⟩
          once := h.safe.once
          ordered := h.safe.ordered
          connection := fun m stream url hm => by
            rcases List.mem_cons.mp hm with heq | hm
            · cases heq
            · exact h.safe.connection m stream url hm } }

/-- The visit has sent the message and has it in hand, if it came before an endpoint. -/
theorem SseRely.number (s : SseHttpTransport) (message : JsonObject) :
    SseRely endpoint [s.outbound message] s (s.number (s.outbound message)) where
  nextStream := Nat.le_refl _
  history := List.suffix_cons _ _
  http h := h
  gone _ h := .inl h
  kept _ _ hm := ⟨hm, id⟩
  known _ _ _ _ _ h := ⟨h, rfl⟩
  settled m hm hu := by
    rcases List.mem_cons.mp hu.sent with rfl | hsent
    · exact .inl (.head _)
    · exact .inr ⟨hm, hsent, hu.early, hu.unposted, hu.unqueued, hu.http⟩

/-- A message is queued. -/
theorem SseInv.queued (h : SseInv endpoint s) {m : Outbound} (hsent : m ∈ sents s.history)
    (hearly : m.early = true) (hstream : m.stream = s.sseStream) (hposted : m ∉ posts s.history)
    (hqueued : m ∉ s.pendingSends) (hknown : s.postEndpoint.isEmpty = true)
    (hordered : Absolute endpoint → ∀ m' ∈ s.pendingSends, m'.number < m.number)
    (hlater : Absolute endpoint → ∀ m' ∈ posts s.history, m'.early = true → m'.number < m.number) :
    SseInv endpoint { s with pendingSends := s.pendingSends ++ [m] } :=
  { h with
    pending := fun m' hm' => by
      rcases List.mem_append.mp hm' with hold | hnew
      · exact h.pending m' hold
      · obtain rfl := List.mem_singleton.mp hnew
        exact ⟨hsent, hearly, hstream, hposted⟩
    pendingOnce := by
      refine List.nodup_append.mpr ⟨h.pendingOnce, by simp, ?_⟩
      rintro m' hm' _ hnew rfl
      obtain rfl := List.mem_singleton.mp hnew
      exact hqueued hm'
    pendingOrdered := fun habs => by
      refine List.pairwise_append.mpr
        ⟨h.pendingOrdered habs, List.pairwise_singleton _ m, fun m' hm' m'' hnew => ?_⟩
      obtain rfl := List.mem_singleton.mp hnew
      exact hordered habs m' hm'
    later := fun habs m' hm' he m'' hm'' => by
      rcases List.mem_append.mp hm'' with hold | hnew
      · exact h.later habs m' hm' he m'' hold
      · obtain rfl := List.mem_singleton.mp hnew
        exact hlater habs m' hm' he
    announced := fun he => by
      rw [show s.postEndpoint.isEmpty = false from he] at hknown
      cases hknown
    safe := h.safe.same rfl }

/-- A message is posted. -/
theorem SseInv.posted (h : SseInv endpoint s) {m : Outbound} (hsent : m ∈ sents s.history)
    (hstream : m.stream = s.sseStream) (hposted : m ∉ posts s.history)
    (hknown : s.postEndpoint.isEmpty = false)
    (hlater : Absolute endpoint → m.early = true →
      ∀ m' ∈ posts s.history, m'.early = true → m'.number < m.number) :
    SseInv endpoint (s.observe (.posted m s.sseStream s.postEndpoint)) := by
  obtain ⟨hempty, horigin⟩ := h.announced hknown
  have hpending : (s.observe (.posted m s.sseStream s.postEndpoint)).pendingSends = [] := hempty
  exact
    { h with
      pending := by rw [hpending]; nofun
      later := fun _ _ _ _ => by rw [hpending]; nofun
      safe :=
        { origin := fun m' stream url hm' => by
            rcases List.mem_cons.mp hm' with heq | hold
            · cases heq
              exact horigin
            · exact h.safe.origin m' stream url hold
          sent := fun m' hm' => by
            rcases List.mem_cons.mp hm' with rfl | hold
            · exact hsent
            · exact h.safe.sent m' hold
          numbered := h.safe.numbered
          once := List.nodup_cons.mpr ⟨hposted, h.safe.once⟩
          ordered := fun habs => by
            show (List.filter _ (m :: posts s.history)).Pairwise _
            cases he : m.early with
            | false => simpa [List.filter_cons, he] using h.safe.ordered habs
            | true =>
                rw [List.filter_cons_of_pos he]
                refine List.pairwise_cons.mpr ⟨fun m' hm' => ?_, h.safe.ordered habs⟩
                obtain ⟨hmem, he'⟩ := List.mem_filter.mp hm'
                exact hlater habs he m' hmem he'
          connection := fun m' stream url hm' => by
            rcases List.mem_cons.mp hm' with heq | hold
            · cases heq
              exact hstream
            · exact h.safe.connection m' stream url hold } }

section Sent

variable {s₀ : SseHttpTransport} {m : Outbound} {hand : List Outbound}

/-- The first message in hand is queued. -/
theorem SseRely.queued (h : SseRely endpoint (m :: hand) s₀ s)
    (htaken : m ∈ s₀.pendingSends ∨ m ∉ sents s₀.history) :
    SseRely endpoint hand s₀ { s with pendingSends := s.pendingSends ++ [m] } where
  nextStream := h.nextStream
  history := h.history
  http := h.http
  gone := h.gone
  kept m' hm' hqueued := by
    obtain ⟨hqueued', hposted⟩ := h.kept m' hm' hqueued
    refine ⟨fun hmem => ?_, hposted⟩
    rcases List.mem_append.mp hmem with hold | hnew
    · exact hqueued' hold
    · obtain rfl := List.mem_singleton.mp hnew
      rcases htaken with ht | ht
      · exact hqueued ht
      · exact ht hm'
  known := h.known
  settled m' hm' hu := by
    have hne : m' ≠ m := fun heq => hu.unqueued (heq ▸ List.mem_append_right _ (.head _))
    have hu' : Unsettled s m' :=
      ⟨hu.sent, hu.early, hu.unposted, fun hq => hu.unqueued (List.mem_append_left _ hq), hu.http⟩
    rcases h.settled m' hm' hu' with hhand | hold
    · exact .inl (List.mem_of_ne_of_mem hne hhand)
    · exact .inr hold

/-- The first message in hand is posted. -/
theorem SseRely.posted (h : SseRely endpoint (m :: hand) s₀ s)
    (htaken : m ∈ s₀.pendingSends ∨ m ∉ sents s₀.history)
    (hunknown : Absolute endpoint → m.early = true → s₀.sseStream = s.sseStream →
      s₀.postEndpoint.isEmpty = true) (stream : Option StreamId) (url : Url) :
    SseRely endpoint hand s₀ (s.observe (.posted m stream url)) where
  nextStream := h.nextStream
  history := h.history.trans (List.suffix_cons _ _)
  http := h.http
  gone := h.gone
  kept m' hm' hqueued := by
    obtain ⟨hqueued', hposted⟩ := h.kept m' hm' hqueued
    refine ⟨hqueued', fun hmem => ?_⟩
    rcases List.mem_cons.mp hmem with rfl | hold
    · rcases htaken with ht | ht
      · exact absurd ht hqueued
      · exact absurd hm' ht
    · exact hposted hold
  known habs id hs₀ hlt hs hknown := by
    obtain ⟨hknown', hsame⟩ := h.known habs id hs₀ hlt hs hknown
    refine ⟨hknown', ?_⟩
    have hlate : ¬m.early = true := fun he => by
      rw [hunknown habs he (hs₀.trans hs.symm)] at hknown
      cases hknown
    show List.filter _ (m :: posts s.history) = _
    rw [List.filter_cons_of_neg hlate]
    exact hsame
  settled m' hm' hu := by
    have hne : m' ≠ m := fun heq => hu.unposted (heq ▸ .head _)
    have hu' : Unsettled s m' :=
      ⟨hu.sent, hu.early, fun hp => hu.unposted (.tail _ hp), hu.unqueued, hu.http⟩
    rcases h.settled m' hm' hu' with hhand | hold
    · exact .inl (List.mem_of_ne_of_mem hne hhand)
    · exact .inr hold

/-- Where the `HttpTransport` is gone, nothing has to be posted. -/
theorem SseRely.unposted (h : SseRely endpoint (m :: hand) s₀ s) (hhttp : s.http = false) :
    SseRely endpoint hand s₀ s :=
  { h with
    settled := fun m' _ hu => by
      have hthere := hu.http
      rw [hhttp] at hthere
      cases hthere }

end Sent

/-! ### Messages in hand -/

/-- What the code that posts a queue knows of the messages it has in hand, in a visit that began
in `s₀`. -/
structure Hand (endpoint : Url) (s₀ : SseHttpTransport) (id : StreamId) (hand : List Outbound)
    (s : SseHttpTransport) : Prop where
  current : s.sseStream = some id
  own : ∀ m ∈ hand, m ∈ sents s.history ∧ m.early = true ∧ m.stream = some id ∧
    m ∉ posts s.history ∧ m ∉ s.pendingSends
  /-- They were queued when the visit began, or sent later. -/
  taken : ∀ m ∈ hand, m ∈ s₀.pendingSends ∨ m ∉ sents s₀.history
  once : hand.Nodup
  ordered : Absolute endpoint → hand.Pairwise fun m m' => m.number < m'.number
  later : Absolute endpoint → ∀ m ∈ posts s.history, m.early = true → ∀ m' ∈ hand,
    m.number < m'.number
  announced : Absolute endpoint → s.postEndpoint.isEmpty = false
  unknown : Absolute endpoint → hand ≠ [] → s₀.sseStream = some id →
    s₀.postEndpoint.isEmpty = true

theorem Hand.tail {s₀ : SseHttpTransport} {id : StreamId} {m : Outbound} {hand : List Outbound}
    (h : Hand endpoint s₀ id (m :: hand) s) : Hand endpoint s₀ id hand s where
  current := h.current
  own m' hm' := h.own m' (.tail _ hm')
  taken m' hm' := h.taken m' (.tail _ hm')
  once := (List.nodup_cons.mp h.once).2
  ordered habs := (List.pairwise_cons.mp (h.ordered habs)).2
  later habs m' hm' hearly m'' hm'' := h.later habs m' hm' hearly m'' (.tail _ hm'')
  announced := h.announced
  unknown habs _ := h.unknown habs (List.cons_ne_nil _ _)

/-- Visits of somebody else leave the messages in hand alone. -/
theorem Hand.rely {s₀ : SseHttpTransport} {id : StreamId} {hand : List Outbound}
    (h : Hand endpoint s₀ id hand s) (hs : SseInv endpoint s) (hr : SseRely endpoint [] s s')
    (hcurrent : s'.sseStream = some id) : Hand endpoint s₀ id hand s' where
  current := hcurrent
  own m hm := by
    obtain ⟨hsent, hearly, hstream, hposted, hqueued⟩ := h.own m hm
    obtain ⟨hqueued', hposted'⟩ := hr.kept m hsent hqueued
    exact ⟨sents_mono hr.history hsent, hearly, hstream, fun hp => hposted (hposted' hp), hqueued'⟩
  taken := h.taken
  once := h.once
  ordered := h.ordered
  later habs m hm hearly := by
    have hknown := hr.known habs id h.current (hs.fresh id h.current) hcurrent (h.announced habs)
    have hmem : m ∈ (posts s'.history).filter (·.early) := List.mem_filter.mpr ⟨hm, hearly⟩
    rw [hknown.2] at hmem
    exact h.later habs m (List.mem_filter.mp hmem).1 hearly
  announced habs :=
    (hr.known habs id h.current (hs.fresh id h.current) hcurrent (h.announced habs)).1
  unknown := h.unknown

end Updates

/-! ### The code -/

section Code

variable {json : JsonCodec} {urls : UrlReader} {endpoint : Url} {s₀ s s' : SseHttpTransport}

/-- The queue is being posted, and the messages of `hand` are left. The stream may have been closed
meanwhile. -/
structure Posting (endpoint : Url) (s₀ : SseHttpTransport) (id : StreamId) (hand : List Outbound)
    (s : SseHttpTransport) : Prop where
  inv : SseInv endpoint s
  rely : SseRely endpoint hand s₀ s
  old : id < s.nextStream
  streams : ∀ m ∈ hand, m.stream = some id
  hand : s.sseStream = some id → Hand endpoint s₀ id hand s

theorem Posting.visit {id : StreamId} {hand : List Outbound} (h : Posting endpoint s₀ id hand s)
    (hr : SseRely endpoint [] s s') (hi : SseInv endpoint s') : Posting endpoint s₀ id hand s' where
  inv := hi
  rely := h.rely.trans hr
  old := Nat.lt_of_lt_of_le h.old hr.nextStream
  streams := h.streams
  hand hcurrent := by
    have hold : s.sseStream = some id := by
      refine (hr.gone id hcurrent).resolve_right fun hle => ?_
      exact absurd (Nat.lt_of_lt_of_le h.old hle) (Nat.lt_irrefl _)
    exact (h.hand hold).rely h.inv hr hcurrent

/-- Where the stream was closed, the messages that are left are dropped. -/
theorem Posting.moves {id : StreamId} {hand : List Outbound} (h : Posting endpoint s₀ id hand s)
    (hdone : hand = [] ∨ s.sseStream ≠ some id) : (sseContract endpoint).Moves s₀ s := by
  refine ⟨h.inv, { h.rely with settled := fun m hm hu => ?_ }⟩
  rcases h.rely.settled m hm hu with hhand | hold
  · rcases hdone with rfl | hne
    · exact .inl hhand
    · exact absurd (hm ▸ h.streams m hhand) hne
  · exact .inr hold

/-- What visits keep, a failed `POST` keeps. -/
theorem wp_failPost {Q : SseHttpTransport → Prop} (hinv : ∀ s, Q s → SseInv endpoint s)
    (hvisit : ∀ s s', Q s → SseRely endpoint [] s s' → SseInv endpoint s' → Q s')
    (message : JsonObject) (reason : String) (hs : Q s) :
    wp anyReturn (sseContract endpoint) (failPost message reason) (fun _ s' => Q s') s := by
  unfold failPost
  refine (wp_bind (S := SseSig) _ _ _ s).mpr ⟨hinv s hs, fun s₁ hr₁ hi₁ _ _ => ?_⟩
  have hs₁ := hvisit s s₁ hs hr₁ hi₁
  exact (wp_ite (S := SseSig) _ _ _ _ s₁).mpr
    ⟨fun _ => ⟨hi₁, fun s₂ hr₂ hi₂ _ _ => hvisit s₁ s₂ hs₁ hr₂ hi₂⟩, fun _ => hs₁⟩

theorem keepsFrom_failPost (h : (sseContract endpoint).Moves s₀ s) (message : JsonObject)
    (reason : String) :
    (sseContract endpoint).KeepsFrom anyReturn s₀ (failPost message reason) s :=
  wp_failPost (fun _ h => h.1)
    (fun _ _ h hr hi => h.trans (sseContract_preorder endpoint) ⟨hi, hr⟩) message reason h

/-- The first message in hand is posted, or fails, or is queued again. -/
theorem Posting.post {id : StreamId} {m : Outbound} {hand : List Outbound}
    (h : Posting endpoint s₀ id (m :: hand) s) (hcurrent : s.sseStream = some id) :
    wp anyReturn (sseContract endpoint) (post m)
      (fun _ s' => Posting endpoint s₀ id hand s') s := by
  have hh := h.hand hcurrent
  obtain ⟨hsent, hearly, hstream, hposted, hqueued⟩ := hh.own m (.head _)
  obtain ⟨hne, -⟩ := List.nodup_cons.mp hh.once
  have hstreams : ∀ m' ∈ hand, m'.stream = some id := fun m' hm' => h.streams m' (.tail _ hm')
  unfold SseHttpTransport.post
  refine (wp_bind (S := SseSig) _ _ _ s).mpr ((wp_ite (S := SseSig) _ _ _ _ s).mpr
    ⟨fun hunknown => ?_, fun hknown => (wp_ite (S := SseSig) _ _ _ _ s).mpr
      ⟨fun hhttp => ?_, fun _ => (wp_bind (S := SseSig) _ _ _ s).mpr ?_⟩⟩)
  · -- an endpoint of the same origin may only be empty if the configured one has no scheme
    have hrelative : ¬Absolute endpoint := fun habs => by
      rw [hh.announced habs] at hunknown
      cases hunknown
    show Posting endpoint s₀ id hand { s with pendingSends := s.pendingSends ++ [m] }
    exact
      { inv := h.inv.queued hsent hearly (hstream.trans hcurrent.symm) hposted hqueued hunknown
          (fun habs => absurd habs hrelative) fun habs => absurd habs hrelative
        rely := h.rely.queued (hh.taken m (.head _))
        old := h.old
        streams := hstreams
        hand := fun hcur =>
          { hh.tail with
            current := hcur
            own := fun m' hm' => by
              obtain ⟨hs, he, hst, hp, hq⟩ := hh.own m' (.tail _ hm')
              refine ⟨hs, he, hst, hp, fun hmem => ?_⟩
              rcases List.mem_append.mp hmem with hold | hnew
              · exact hq hold
              · exact hne (List.mem_singleton.mp hnew ▸ hm') } }
  · have hgone : s.http = false := by simpa using hhttp
    exact wp_failPost (fun _ h => h.inv) (fun _ _ h hr hi => h.visit hr hi) _ _
      { inv := h.inv
        rely := h.rely.unposted hgone
        old := h.old
        streams := hstreams
        hand := fun _ => hh.tail }
  · have hinv := h.inv.posted hsent (hstream.trans hcurrent.symm) hposted
      (Bool.eq_false_iff.mpr hknown) fun habs _ m' hm' he => hh.later habs m' hm' he m (.head _)
    have hposting : Posting endpoint s₀ id hand
        (s.observe (.posted m s.sseStream s.postEndpoint)) :=
      { inv := hinv
        rely := by
          refine h.rely.posted (hh.taken m (.head _)) (fun habs _ hsame => ?_) _ _
          exact hh.unknown habs (List.cons_ne_nil _ _) (hsame.trans hcurrent)
        old := h.old
        streams := hstreams
        hand := fun hcur =>
          { hh.tail with
            current := hcur
            own := fun m' hm' => by
              obtain ⟨hs, he, hst, hp, hq⟩ := hh.own m' (.tail _ hm')
              refine ⟨hs, he, hst, fun hmem => ?_, hq⟩
              rcases List.mem_cons.mp hmem with rfl | hold
              · exact hne hm'
              · exact hp hold
            later := fun habs m' hm' he m'' hm'' => by
              rcases List.mem_cons.mp hm' with rfl | hold
              · exact (List.pairwise_cons.mp (hh.ordered habs)).1 m'' hm''
              · exact hh.later habs m' hold he m'' (.tail _ hm'') } }
    exact ⟨hinv, fun s₁ hr₁ hi₁ _ _ => hposting.visit hr₁ hi₁⟩

/-- The loop over the queue. -/
theorem Posting.flush {id : StreamId} {hand : List Outbound}
    (h : Posting endpoint s₀ id hand s) (hcurrent : s.sseStream = some id) :
    wp anyReturn (sseContract endpoint) (flush (some id) hand)
      (fun current s' => (sseContract endpoint).Moves s₀ s' ∧
        (current = true → s'.sseStream = some id)) s := by
  induction hand generalizing s with
  | nil => exact ⟨h.moves (.inl rfl), fun _ => hcurrent⟩
  | cons m hand ih =>
      simp only [SseHttpTransport.flush, stillCurrent, wp_bind, wp_reads]
      refine wp_mono (h.post hcurrent) fun _ s₁ h₁ => ?_
      split
      · rename_i hcur
        exact ih h₁ (by simpa using hcur)
      · rename_i hcur
        exact ⟨h₁.moves (.inr (by simpa using hcur)), fun hcurrent => by cases hcurrent⟩

/-- The endpoint is known, and the queue is taken in hand. -/
theorem SseInv.take (h₀ : SseInv endpoint s₀) (h : (sseContract endpoint).Moves s₀ s)
    {id : StreamId} (hcurrent : s.sseStream = some id) {ep : Url}
    (horigin : ep.isSameOrigin endpoint = true) :
    Posting endpoint s₀ id s.pendingSends
      { { s with postEndpoint := ep }.observe (.announced s.sseStream ep) with
        pendingSends := [] } := by
  obtain ⟨hinv, hrely⟩ := h
  have hknown : Absolute endpoint → ep.isEmpty = false := fun habs => by
    rw [Bool.eq_false_iff]
    intro hempty
    have hep : ep = {} := by simpa [Url.isEmpty] using hempty
    subst hep
    simp only [Url.isSameOrigin, Bool.and_eq_true, beq_iff_eq] at horigin
    exact habs horigin.1.1.symm
  exact
    { inv :=
        { hinv with
          pending := nofun
          pendingOnce := .nil
          pendingOrdered := fun _ => .nil
          later := fun _ _ _ _ => nofun
          announced := fun _ => ⟨rfl, horigin⟩
          heard := fun stream hstream => by
            rcases List.mem_cons.mp hstream with rfl | hold
            · exact ⟨id, hcurrent, hinv.fresh id hcurrent, fun habs _ => hknown habs⟩
            · obtain ⟨id', hid', hlt, -⟩ := hinv.heard stream hold
              exact ⟨id', hid', hlt, fun habs _ => hknown habs⟩
          safe :=
            { origin := fun m stream url hm => by
                rcases List.mem_cons.mp hm with heq | hold
                · cases heq
                · exact hinv.safe.origin m stream url hold
              sent := hinv.safe.sent
              numbered := hinv.safe.numbered
              once := hinv.safe.once
              ordered := hinv.safe.ordered
              connection := fun m stream url hm => by
                rcases List.mem_cons.mp hm with heq | hold
                · cases heq
                · exact hinv.safe.connection m stream url hold } }
      rely :=
        { nextStream := hrely.nextStream
          history := hrely.history.trans (List.suffix_cons _ _)
          http := hrely.http
          gone := hrely.gone
          kept := fun m hm hqueued => ⟨List.not_mem_nil, (hrely.kept m hm hqueued).2⟩
          known := fun habs id' hs₀ hlt hs hk =>
            ⟨hknown habs, (hrely.known habs id' hs₀ hlt hs hk).2⟩
          settled := fun m hm hu => by
            by_cases hq : m ∈ s.pendingSends
            · exact .inl hq
            · refine .inr ((hrely.settled m hm ?_).resolve_left List.not_mem_nil)
              exact ⟨hu.sent, hu.early, hu.unposted, hq, hu.http⟩ }
      old := hinv.fresh id hcurrent
      streams := fun m hm => (hinv.pending m hm).2.2.1.trans hcurrent
      hand := fun _ =>
        { current := hcurrent
          own := fun m hm => by
            obtain ⟨hsent, hearly, hstream, hposted⟩ := hinv.pending m hm
            exact ⟨hsent, hearly, hstream.trans hcurrent, hposted, List.not_mem_nil⟩
          taken := fun m hm => by
            by_contra hnone
            obtain ⟨hqueued, hsent⟩ := not_or.mp hnone
            exact (hrely.kept m (not_not.mp hsent) hqueued).1 hm
          once := hinv.pendingOnce
          ordered := hinv.pendingOrdered
          later := hinv.later
          announced := hknown
          unknown := fun habs hne hs₀ => by
            by_contra hk
            have hold := (hrely.known habs id hs₀ (h₀.fresh id hs₀) hcurrent
              (Bool.eq_false_iff.mpr hk)).1
            exact hne (hinv.announced hold).1 } }

/-! What the entry points do to a state that the visit has become. -/

theorem keepsFrom_query (h : (sseContract endpoint).Moves s₀ s) (e : SseOut) :
    (sseContract endpoint).KeepsFrom anyReturn s₀ (Proc.query (S := SseSig) e) s :=
  .query (S := SseSig) (sseContract_preorder endpoint) h e

theorem keepsFrom_stop (h : (sseContract endpoint).Moves s₀ s) :
    (sseContract endpoint).KeepsFrom anyReturn s₀ stop s := by
  unfold SseHttpTransport.stop
  refine (wp_bind (S := SseSig) _ _ _ s).mpr ((wp_ite (S := SseSig) _ _ _ _ s).mpr
    ⟨fun _ => (wp_bind (S := SseSig) _ _ _ s).mpr ?_, fun _ => h⟩)
  have hcloses : Closes s { s with isOpen := false }.dropStream.resetSession := by
    have hsame : { s with isOpen := false }.dropStream.resetSession =
        { s.dropStream.resetSession with isOpen := false } := by
      cases hs : s.sseStream <;> simp [dropStream, resetSession, hs]
    rw [hsame]
    exact h.1.closes
  exact keepsFrom_query (h.trans (sseContract_preorder endpoint) (hcloses.moves h.1)) _

/-- The end of a stream that has been let go already, or is let go now. -/
theorem keepsFrom_onFinished (h₀ : (sseContract endpoint).Moves s₀ s)
    (h : Closes s { s'.dropStream.resetSession with isOpen := false }) :
    (sseContract endpoint).KeepsFrom anyReturn s₀ onFinished s' := by
  have hmoves := h₀.trans (sseContract_preorder endpoint) (h.moves h₀.1)
  unfold SseHttpTransport.onFinished
  refine (wp_bind (S := SseSig) _ _ _ s').mpr ((wp_bind (S := SseSig) _ _ _ _).mpr
    ((wp_ite (S := SseSig) _ _ _ _ _).mpr ⟨fun _ => ?_, fun hclosed => ?_⟩))
  · exact (wp_bind (S := SseSig) _ _ _ _).mpr (keepsFrom_query hmoves _)
  · have hsame : s'.dropStream.resetSession =
        { s'.dropStream.resetSession with isOpen := false } := by
      rw [← Bool.eq_false_iff.mpr hclosed]
    show (sseContract endpoint).Moves s₀ s'.dropStream.resetSession
    rw [hsame]
    exact hmoves

/-- Whoever goes on after an error does so with the stream that was current. -/
theorem keepsFrom_reportError (h : (sseContract endpoint).Moves s₀ s) (reason : String)
    {g : Bool → Proc SseSig Unit}
    (hg : ∀ current s', (sseContract endpoint).Moves s₀ s' →
      (sseContract endpoint).KeepsFrom anyReturn s₀ (g current) s') :
    (sseContract endpoint).KeepsFrom anyReturn s₀ (reportError reason >>= g) s := by
  unfold SseHttpTransport.reportError
  refine (wp_bind (S := SseSig) _ _ _ s).mpr ((wp_bind (S := SseSig) _ _ _ s).mpr
    ((wp_bind (S := SseSig) _ _ _ s).mpr (wp_mono (keepsFrom_query h _) fun _ s₁ h₁ => ?_)))
  exact hg _ s₁ h₁

theorem keepsFrom_onHeaders (h : (sseContract endpoint).Moves s₀ s) (statusCode : Int)
    (contentType : String) :
    (sseContract endpoint).KeepsFrom anyReturn s₀ (onHeaders statusCode contentType) s := by
  unfold SseHttpTransport.onHeaders
  refine (wp_ite (S := SseSig) _ _ _ _ s).mpr ⟨fun _ => h, fun _ => ?_⟩
  refine keepsFrom_reportError h _ fun current s₁ h₁ => ?_
  cases current with
  | true => exact keepsFrom_stop h₁
  | false => exact h₁

theorem keepsFrom_onStreamError (h : (sseContract endpoint).Moves s₀ s) (message : String) :
    (sseContract endpoint).KeepsFrom anyReturn s₀ (onStreamError message) s := by
  refine keepsFrom_reportError h _ fun current s₁ h₁ => ?_
  cases current with
  | true => exact keepsFrom_onFinished h₁ h₁.1.closes
  | false => exact h₁

theorem keepsFrom_handleEvents (h₀ : SseInv endpoint s₀) {id : StreamId} (events : List SSEEvent)
    (h : (sseContract endpoint).Moves s₀ s) (hcurrent : s.sseStream = some id) :
    (sseContract endpoint).KeepsFrom anyReturn s₀
      (handleEvents json urls endpoint (some id) events) s := by
  induction events generalizing s with
  | nil => exact h
  | cons ev events ih =>
      unfold SseHttpTransport.handleEvents
      dsimp only
      refine (wp_ite (S := SseSig) _ _ _ _ s).mpr ⟨fun _ => (wp_ite (S := SseSig) _ _ _ _ s).mpr
        ⟨fun _ => ?_, fun hsame => ?_⟩, fun _ => (wp_ite (S := SseSig) _ _ _ _ s).mpr
        ⟨fun _ => (wp_ite (S := SseSig) _ _ _ _ s).mpr ⟨fun _ => ih h hcurrent, fun _ => ?_⟩,
          fun _ => ih h hcurrent⟩⟩
      · refine keepsFrom_reportError h _ fun current s₁ h₁ => ?_
        cases current with
        | true => exact keepsFrom_stop h₁
        | false => exact h₁
      · have horigin : (urls.announced endpoint ev.data).isSameOrigin endpoint = true := by
          simpa using hsame
        refine (wp_bind (S := SseSig) _ _ _ s).mpr ((wp_bind (S := SseSig) _ _ _ _).mpr
          ((wp_bind (S := SseSig) _ _ _ _).mpr ((wp_bind (S := SseSig) _ _ _ _).mpr
            (wp_mono ((h₀.take h hcurrent horigin).flush hcurrent) ?_))))
        intro current s₁ h₁
        cases current with
        | true => exact ih h₁.1 (h₁.2 rfl)
        | false => exact h₁.1
      · refine (wp_bind (S := SseSig) _ _ _ s).mpr
          (wp_mono (keepsFrom_query h _) fun _ s₁ h₁ => ?_)
        refine (wp_bind (S := SseSig) _ _ _ s₁).mpr ((wp_ite (S := SseSig) _ _ _ _ s₁).mpr
          ⟨fun hcur => ih h₁ (by simpa using hcur), fun _ => h₁⟩)

theorem keepsFrom_send (h : SseInv endpoint s) (message : JsonObject) :
    (sseContract endpoint).KeepsFrom anyReturn s (send message) s := by
  have hC := sseContract_preorder endpoint
  unfold SseHttpTransport.send
  refine (wp_bind (S := SseSig) _ _ _ s).mpr ((wp_ite (S := SseSig) _ _ _ _ s).mpr
    ⟨fun hopen => (wp_bind (S := SseSig) _ _ _ s).mpr ?_,
      fun _ => keepsFrom_query ⟨h, SseRely.refl s⟩ _⟩)
  -- the message is new: it was neither queued nor posted
  have hfresh : s.outbound message ∉ sents s.history := h.fresh_number rfl
  have hposted : s.outbound message ∉ posts s.history := fun hp => hfresh (h.safe.sent _ hp)
  have hqueued : s.outbound message ∉ s.pendingSends := fun hq => hfresh (h.pending _ hq).1
  have hinv := h.number hopen message
  have hrely : SseRely endpoint _ s _ := SseRely.number s message
  unfold SseHttpTransport.post
  refine (wp_bind (S := SseSig) _ _ _ _).mpr ((wp_ite (S := SseSig) _ _ _ _ _).mpr
    ⟨fun hunknown => ?_, fun hknown => (wp_ite (S := SseSig) _ _ _ _ _).mpr
      ⟨fun hhttp => ?_, fun _ => (wp_bind (S := SseSig) _ _ _ _).mpr ?_⟩⟩)
  · refine ⟨hinv.queued (.head _) hunknown rfl hposted hqueued hunknown
      (fun _ m hm => h.numbers m (h.pending m hm).1)
      (fun _ m hm _ => h.numbers m (h.safe.sent m hm)), hrely.queued (.inr hfresh)⟩
  · have hgone : (s.number (s.outbound message)).http = false := by simpa using hhttp
    exact keepsFrom_failPost ⟨hinv, hrely.unposted hgone⟩ _ _
  · have hknown : s.postEndpoint.isEmpty = false := Bool.eq_false_iff.mpr hknown
    refine keepsFrom_query ⟨hinv.posted (.head _) rfl hposted hknown ?_,
      hrely.posted (.inr hfresh) (fun _ hearly _ => hearly) _ _⟩ _
    intro _ _ m hm _
    exact h.numbers m (h.safe.sent m hm)

theorem keepsFrom_start (h : SseInv endpoint s) (opens : Bool) :
    (sseContract endpoint).KeepsFrom anyReturn s (start urls endpoint opens) s := by
  have hs : (sseContract endpoint).Moves s s := ⟨h, SseRely.refl s⟩
  unfold SseHttpTransport.start openStream
  refine (wp_bind (S := SseSig) _ _ _ s).mpr ((wp_ite (S := SseSig) _ _ _ _ s).mpr
    ⟨fun _ => hs, fun hopen => (wp_ite (S := SseSig) _ _ _ _ s).mpr
      ⟨fun _ => keepsFrom_query hs _, fun _ => (wp_bind (S := SseSig) _ _ _ s).mpr
        ((wp_ite (S := SseSig) _ _ _ _ s).mpr ⟨fun _ => keepsFrom_query hs _, fun _ =>
          (wp_ite (S := SseSig) _ _ _ _ s).mpr ⟨fun _ => (wp_bind (S := SseSig) _ _ _ s).mpr ?_,
            fun _ => h.connect (Bool.eq_false_iff.mpr hopen)⟩⟩)⟩⟩)
  have hnone : s.sseStream = none := by
    have hclosed : s.isOpen = false := Bool.eq_false_iff.mpr hopen
    rw [h.isOpen] at hclosed
    exact Option.not_isSome_iff_eq_none.mp (by simp [hclosed])
  have hsame : { s with sseStream := none } = s := by rw [← hnone]
  show (sseContract endpoint).KeepsFrom anyReturn s (Proc.query (S := SseSig) _)
    { s with sseStream := none }
  rw [hsame]
  exact keepsFrom_query hs _

/-- A stream that is destroyed is the current one. -/
theorem SseInv.destroyed (h : SseInv endpoint s) {id : StreamId} (hid : id ∈ s.connected) :
    Closes s { (s.destroyStream id).dropStream.resetSession with isOpen := false } := by
  have hcurrent := h.connected id hid
  have hdrop : (s.destroyStream id).dropStream = s.destroyStream id := by
    simp [dropStream, destroyStream, hcurrent]
  rw [hdrop]
  refine ⟨rfl, ?_, ?_, rfl, rfl, rfl, rfl, rfl, rfl⟩
  · simp [destroyStream, resetSession, hcurrent]
  · exact h.connected_drop hcurrent

theorem keepsFrom_entry (h : SseInv endpoint s) {e : SseTransportEvent} (he : e.Possible s) :
    (sseContract endpoint).KeepsFrom anyReturn s (sseEntry json urls endpoint e) s := by
  have hs : (sseContract endpoint).Moves s s := ⟨h, SseRely.refl s⟩
  cases e with
  | start opens => exact keepsFrom_start h opens
  | stop => exact keepsFrom_stop hs
  | send message => exact keepsFrom_send h message
  | postFailed message reason => exact keepsFrom_failPost hs message reason
  | httpDestroyed => exact h.httpDestroyed
  | stream id signal =>
      have hcurrent : s.sseStream = some id := h.connected id he
      cases signal with
      | headersReceived statusCode contentType =>
          exact keepsFrom_onHeaders hs statusCode contentType
      | chunkReceived chunk =>
          refine (wp_bind (S := SseSig) _ _ _ s).mpr ((wp_bind (S := SseSig) _ _ _ s).mpr
            ((wp_bind (S := SseSig) _ _ _ s).mpr ?_))
          show (sseContract endpoint).KeepsFrom anyReturn s
            (handleEvents json urls endpoint s.sseStream _) _
          rw [hcurrent]
          exact keepsFrom_handleEvents h _ (h.parserMoves _) hcurrent
      | finished => exact keepsFrom_onFinished hs h.closes
      | errorOccurred message => exact keepsFrom_onStreamError hs message
      | destroyed =>
          exact (wp_bind (S := SseSig) _ _ _ s).mpr (keepsFrom_onFinished hs (h.destroyed he))

end Code

/-! ### Runs -/

section Runs

variable {json : JsonCodec} {urls : UrlReader} {endpoint : Url}

/-- What may reach a transport. -/
abbrev sseSurroundings (json : JsonCodec) (urls : UrlReader) (endpoint : Url) :
    Surroundings (sseMachine json urls endpoint) :=
  .only (sseMachine json urls endpoint) SseTransportEvent.Possible

theorem sseContract_valid :
    (sseContract endpoint).Valid (sseSurroundings json urls endpoint) :=
  .of_guarded (sseContract_preorder endpoint) (fun _ _ hs he => keepsFrom_entry hs he)
    (fun f => f.elim)

theorem SseInv.init (endpoint : Url) : SseInv endpoint {} where
  isOpen := rfl
  connected := nofun
  fresh := nofun
  numbers := nofun
  streams := nofun
  pending := nofun
  pendingOnce := .nil
  pendingOrdered _ := .nil
  later _ := nofun
  announced := nofun
  heard := nofun
  safe := ⟨nofun, nofun, .nil, .nil, fun _ => .nil, nofun⟩

/-- Whatever is sent that can be posted was sent over a stream that is gone, or waits for its
endpoint. -/
theorem SseInv.flushed {s : SseHttpTransport} (h : SseInv endpoint s)
    (hrely : SseRely endpoint [] {} s) : Flushed endpoint s := by
  intro m hsent hearly
  by_cases hposted : m ∈ posts s.history
  · exact .inl hposted
  by_cases hstream : s.sseStream = m.stream
  · by_cases hqueued : m ∈ s.pendingSends
    · refine .inr (.inl ⟨hqueued, fun habs hheard => ?_⟩)
      obtain ⟨id, hid, -, hknown⟩ := h.heard m.stream hheard
      have hempty := (h.announced (hknown habs (hstream.trans hid))).1
      rw [hempty] at hqueued
      cases hqueued
    · refine .inr (.inr (.inr ?_))
      by_contra hhttp
      have hu : Unsettled s m :=
        ⟨hsent, hearly, hposted, hqueued, Bool.not_eq_false _ ▸ hhttp⟩
      rcases hrely.settled m hstream.symm hu with hhand | ⟨-, hu₀⟩
      · cases hhand
      · cases hu₀.sent
  · exact .inr (.inr (.inl hstream))

/-- What is posted is posted safely, and once no code runs nothing that could be posted is left. -/
theorem posts_safely {c : Config SseSig}
    (hrun : Reaches (sseSurroundings json urls endpoint) (.idle {}) c) (hw : c.Waiting) :
    PostsSafely endpoint c.state ∧ (c.prog = .ret () → Flushed endpoint c.state) := by
  refine ⟨(sseContract_valid.waiting (SseInv.init endpoint) hrun hw).safe, fun hidle => ?_⟩
  obtain ⟨s, prog⟩ := c
  obtain rfl : prog = .ret () := hidle
  obtain ⟨hinv, hrely⟩ := sseContract_valid.idle (SseInv.init endpoint) hrun
  exact hinv.flushed hrely

end Runs

/-! An event with the path of an endpoint arrives. -/

/-- A reader of paths. -/
def pathReader : UrlReader where
  parse data := { rest := data.toUtf8String }
  resolved url base := { base with rest := url.rest }
  isValid _ := true
  toString url := url.rest

def localEndpoint : Url where
  scheme := "http"
  host := "localhost"
  port := some 8080
  rest := "/sse"

def endpointChunk : Bytes := Bytes.ascii "event: endpoint\ndata: /post\n\n"

def ping : JsonObject := [("id", .str "1"), ("method", .str "ping")]

/-- `ping` is sent over the first stream, before an endpoint is announced. -/
def earlyPing : Outbound := { message := ping, number := 0, stream := some 0, early := true }

theorem endpointChunk_events : (({} : SSEParser).append endpointChunk).2 =
    [{ type := "endpoint", data := Bytes.ascii "/post" }] := by
  decide +kernel

/-- Where the messages are posted. -/
def postUrl : Url := pathReader.announced localEndpoint (Bytes.ascii "/post")

theorem postUrl_origin : postUrl.isSameOrigin localEndpoint = true := by decide +kernel

/-- The transport once it knows where to post. -/
def toldEndpoint (s : SseHttpTransport) : SseHttpTransport :=
  { { s with
      sseParser := (s.sseParser.append endpointChunk).1
      postEndpoint := postUrl }.observe (.announced s.sseStream postUrl) with
    pendingSends := [] }

theorem advance_onChunk (json : JsonCodec) {s : SseHttpTransport} (hparser : s.sseParser = {}) :
    (onChunk json pathReader localEndpoint endpointChunk).advance s =
      (do
        let current ← flush s.sseStream s.pendingSends
        if current then pure () else pure () : Proc SseSig Unit).advance (toldEndpoint s) := by
  have hevents : (s.sseParser.append endpointChunk).2 =
      [{ type := "endpoint", data := Bytes.ascii "/post" }] := hparser ▸ endpointChunk_events
  show (handleEvents json pathReader localEndpoint s.sseStream
    (s.sseParser.append endpointChunk).2).advance _ = _
  rw [hevents]
  unfold handleEvents
  rw [if_pos rfl]
  show (if !postUrl.isSameOrigin localEndpoint then _ else _ : Proc SseSig Unit).advance _ = _
  rw [postUrl_origin]
  rfl

/-- The endpoint is announced to an idle transport. -/
theorem reaches_announced (json : JsonCodec) {s : SseHttpTransport} (hparser : s.sseParser = {})
    (hconnected : 0 ∈ s.connected) {c : Config SseSig}
    (hc : (do
        let current ← flush s.sseStream s.pendingSends
        if current then pure () else pure () : Proc SseSig Unit).advance (toldEndpoint s) =
      (c.state, c.prog)) :
    Reaches (sseSurroundings json pathReader localEndpoint) (.idle s) c := by
  have hstep : Step (sseSurroundings json pathReader localEndpoint) (.idle s)
      ⟨s, (sseMachine json pathReader localEndpoint).entry
        (.stream 0 (.chunkReceived endpointChunk))⟩ := .event hconnected
  have hrun := reaches_advance (sseSurroundings json pathReader localEndpoint)
    (onChunk json pathReader localEndpoint endpointChunk) s
  rw [advance_onChunk json hparser, hc] at hrun
  exact ((Reaches.refl _).step hstep).trans hrun

/-- `ping` was sent before an endpoint was announced. -/
def waitingPing : SseHttpTransport where
  isOpen := true
  sseStream := some 0
  connected := [0]
  pendingSends := [earlyPing]
  nextStream := 1
  nextNumber := 1
  history := [.sent earlyPing]

theorem reaches_waitingPing (json : JsonCodec) :
    Reaches (sseSurroundings json pathReader localEndpoint) (.idle {}) (.idle waitingPing) := by
  have hplay : Playable (sseSurroundings json pathReader localEndpoint) 0
      [.event (.start true), .event (.send ping)] (.idle {}) := ⟨trivial, trivial, trivial⟩
  exact reaches_play hplay

/-- No message arrives. -/
def noMessages : JsonCodec := ⟨fun _ => .null, fun _ => ""⟩

def pong : JsonObject := [("id", .str "2"), ("result", .obj [])]

/-- `pong` is sent next. -/
def earlyPong : Outbound := { message := pong, number := 1, stream := some 0, early := true }

/-- `pong` was sent behind `ping`. -/
def waitingPong : SseHttpTransport :=
  { waitingPing with
    pendingSends := [earlyPing, earlyPong]
    nextNumber := 2
    history := [.sent earlyPong, .sent earlyPing] }

theorem reaches_waitingPong (json : JsonCodec) :
    Reaches (sseSurroundings json pathReader localEndpoint) (.idle {}) (.idle waitingPong) := by
  have hplay : Playable (sseSurroundings json pathReader localEndpoint) 0
      [.event (.send pong)] (.idle waitingPing) := ⟨trivial, trivial⟩
  exact (reaches_waitingPing json).trans (reaches_play hplay)

/-- Two messages that are queued, and posted in order when the endpoint is announced. -/
theorem posts_safely_pong :
    ∃ c : Config SseSig,
      Reaches (sseSurroundings noMessages pathReader localEndpoint) (.idle {}) c ∧ c.Waiting ∧
        c.prog = .ret () ∧ (posts c.state.history).reverse = [earlyPing, earlyPong] ∧
        PostsSafely localEndpoint c.state ∧ Flushed localEndpoint c.state := by
  have hping := (reaches_waitingPong noMessages).trans
    (reaches_announced noMessages rfl (.head _)
      (c := ⟨(toldEndpoint waitingPong).observe (.posted earlyPing (some 0) postUrl),
        .out (.httpSend postUrl ping) _⟩) rfl)
  have hpong := (hping.step (.answer (a := ()) trivial)).trans (reaches_advance _ _ _)
  have hrun := (hpong.step (.answer (a := ()) trivial)).trans (reaches_advance _ _ _)
  obtain ⟨hsafe, hflushed⟩ := posts_safely hrun (.inl rfl)
  exact ⟨_, hrun, .inl rfl, rfl, rfl, hsafe, hflushed rfl⟩

/-- The `HttpTransport` goes, and the stream stays: when the endpoint is announced the message that
was queued fails, though the transport is open all the while. -/
theorem queued_not_posted :
    ∃ c : Config SseSig,
      Reaches (sseSurroundings noMessages pathReader localEndpoint) (.idle {}) c ∧
        c.prog = .ret () ∧ c.state.isOpen = true ∧ c.state.sseStream = earlyPing.stream ∧
        earlyPing.stream ∈ heard c.state.history ∧ earlyPing ∈ sents c.state.history ∧
        earlyPing ∉ posts c.state.history := by
  have hplay : Playable (sseSurroundings noMessages pathReader localEndpoint) 0
      [.event .httpDestroyed] (.idle waitingPing) := ⟨trivial, trivial⟩
  have hfailing := ((reaches_waitingPing noMessages).trans (reaches_play hplay)).trans
    (reaches_announced noMessages (s := { waitingPing with http := false }) rfl (.head _)
      (c := ⟨toldEndpoint { waitingPing with http := false },
        .out (.errorOccurred "HTTP transport destroyed") _⟩) rfl)
  have hreported := (hfailing.step (.answer (a := ()) trivial)).trans
    (reaches_advance _ _ _)
  have hfailed := (hreported.step (.answer (a := ()) trivial)).trans (reaches_advance _ _ _)
  exact ⟨_, hfailed, rfl, rfl, rfl, .head _, .head _, List.not_mem_nil⟩

end SseHttpTransport

end LLMQore.Mcp
