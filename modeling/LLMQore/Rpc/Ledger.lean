import Mathlib.Data.List.Nodup
import LLMQore.Rpc.Session

/-!
# LLMQore.Rpc.Ledger

The ledger of the peer's requests: which arrived, how each ended, which were
cancelled while they were in flight, and what was sent in answer to each.

The session keeps no such ledger. It keeps two sets of strings, the ids in flight
and the ids marked as cancelled, and a watcher for each unfinished handler.
`Books` puts these beside the ledger an observer keeps, and `BooksInv` is the
agreement between the two under which the sets can stand in for the ledger: a
mark belongs to exactly one request in flight, and that request was cancelled.

An id is filed under its string, so two different ids in flight may share a
string. Each operation below has the guard under which it keeps the agreement.
-/

namespace LLMQore.Rpc

/-- The message that is to answer a request whose handler ended. A future that is cancelled without
an exception fails for an unknown reason. -/
def answerMessage (id : JsonValue) : HandlerEnd → JsonObject
  | .noHandler method =>
      errorMessage id ⟨ErrorCode.methodNotFound, s!"Method not found: {method}", .null⟩
  | .threw e => errorMessage id (errorAnswerFor e)
  | .finished (.result v) => resultMessage id v
  | .finished (.exception e) => errorMessage id (errorAnswerFor e)
  | .finished .cancelled => errorMessage id (errorAnswerFor .unknown)

/-- A message that answers nothing: it has neither a result nor an error. -/
def IsCall (message : JsonObject) : Prop :=
  message.contains "result" = false ∧ message.contains "error" = false

instance (message : JsonObject) : Decidable (IsCall message) :=
  inferInstanceAs (Decidable (_ ∧ _))

/-- What an observer knows about the requests of the peer. -/
structure Ledger where
  received : List (RequestTag × JsonValue) := []
  ends : List (RequestTag × HandlerEnd) := []
  /-- The requests named by a cancellation while they were in flight. -/
  cancelled : List RequestTag := []
  answers : List (RequestTag × JsonObject) := []

namespace Ledger

/-- The requests in flight. -/
def live (l : Ledger) : List (RequestTag × JsonValue) :=
  l.received.filter fun r => r.1 ∉ l.ends.map Prod.fst

/-- The messages sent in answer to a request, newest first. -/
def answersTo (l : Ledger) (t : RequestTag) : List JsonObject :=
  (l.answers.filter fun a => a.1 = t).map Prod.snd

def receive (l : Ledger) (t : RequestTag) (id : JsonValue) : Ledger :=
  { l with received := (t, id) :: l.received }

def finish (l : Ledger) (t : RequestTag) (how : HandlerEnd) : Ledger :=
  { l with ends := (t, how) :: l.ends }

def cancel (l : Ledger) (id : JsonValue) : Ledger :=
  { l with cancelled := (l.live.filter fun r => r.2 = id).map Prod.fst ++ l.cancelled }

def answer (l : Ledger) (t : RequestTag) (message : JsonObject) : Ledger :=
  { l with answers := (t, message) :: l.answers }

/-- A message is sent under an id, on nobody's behalf: to the peer it answers the request in flight
that has the id. -/
def answerId (l : Ledger) (message : JsonObject) : Ledger :=
  { l with answers :=
      (l.live.filter fun r => r.2 = message.value "id").map (fun r => (r.1, message)) ++ l.answers }

variable {l : Ledger}

theorem mem_live {r : RequestTag × JsonValue} :
    r ∈ l.live ↔ r ∈ l.received ∧ r.1 ∉ l.ends.map Prod.fst := by
  simp [live]

theorem mem_live_receive {t : RequestTag} {id : JsonValue} (ht : t ∉ l.ends.map Prod.fst)
    {r : RequestTag × JsonValue} :
    r ∈ (l.receive t id).live ↔ r = (t, id) ∨ r ∈ l.live := by
  rw [mem_live, mem_live]
  constructor
  · intro h
    rcases List.mem_cons.mp h.1 with heq | hr
    · exact Or.inl heq
    · exact Or.inr ⟨hr, h.2⟩
  · intro h
    rcases h with rfl | h
    · exact ⟨List.mem_cons_self, ht⟩
    · exact ⟨List.mem_cons_of_mem _ h.1, h.2⟩

theorem mem_live_finish {t : RequestTag} {how : HandlerEnd} {r : RequestTag × JsonValue} :
    r ∈ (l.finish t how).live ↔ r ∈ l.live ∧ r.1 ≠ t := by
  rw [mem_live, mem_live]
  show r ∈ l.received ∧ r.1 ∉ t :: l.ends.map Prod.fst ↔ _
  rw [List.mem_cons, not_or]
  tauto

@[simp] theorem live_cancel (id : JsonValue) : (l.cancel id).live = l.live := rfl
@[simp] theorem live_answer (t : RequestTag) (m : JsonObject) : (l.answer t m).live = l.live := rfl

/-- No request in flight has the id of the message. -/
theorem answerId_of_unanswering {m : JsonObject} (h : ∀ r ∈ l.live, r.2 ≠ m.value "id") :
    l.answerId m = l := by
  have hnone : (l.live.filter fun r => r.2 = m.value "id") = [] := by
    simpa [List.filter_eq_nil_iff] using h
  unfold answerId
  rw [hnone]
  rfl

theorem mem_cancelled_cancel {id : JsonValue} {t : RequestTag} :
    t ∈ (l.cancel id).cancelled ↔ (t, id) ∈ l.live ∨ t ∈ l.cancelled := by
  show t ∈ (l.live.filter fun r => r.2 = id).map Prod.fst ++ l.cancelled ↔ _
  rw [List.mem_append, List.mem_map]
  constructor
  · intro h
    rcases h with ⟨r, hr, rfl⟩ | h
    · obtain ⟨hlive, hid⟩ := List.mem_filter.mp hr
      have hid : r.2 = id := by simpa using hid
      exact Or.inl (hid ▸ hlive)
    · exact Or.inr h
  · intro h
    rcases h with h | h
    · exact Or.inl ⟨(t, id), List.mem_filter.mpr ⟨h, by simp⟩, rfl⟩
    · exact Or.inr h

theorem answersTo_answer (t t' : RequestTag) (m : JsonObject) :
    (l.answer t m).answersTo t' = if t = t' then m :: l.answersTo t' else l.answersTo t' := by
  unfold answersTo answer
  rw [List.filter_cons]
  by_cases h : t = t' <;> simp [h]

end Ledger

/-- The observer's ledger of a session. -/
def ledger : List Observation → Ledger
  | [] => {}
  | .received t id :: older => (ledger older).receive t id
  | .ended t how :: older => (ledger older).finish t how
  | .notified method params :: older =>
      if method = Method.cancelled then (ledger older).cancel (params.value "requestId")
      else ledger older
  | .sent message (some t) :: older => (ledger older).answer t message
  | .sent message none :: older =>
      if IsCall message then ledger older else (ledger older).answerId message
  | _ :: older => ledger older

/-- The ledger and the tables of the session that concern the peer's requests. -/
structure Books where
  ledger : Ledger := {}
  nextTag : RequestTag := 0
  watchers : AList (fun _ : RequestTag => Watcher) := ∅
  inFlight : Finset String := ∅
  marks : Finset String := ∅

def Session.books (s : Session) : Books :=
  ⟨Rpc.ledger s.history, s.nextTag, s.watchers, s.inFlightIncomingIds, s.cancelledIncomingIds⟩

theorem ledger_sent_call {message : JsonObject} (h : IsCall message) (older : List Observation) :
    ledger (.sent message none :: older) = ledger older :=
  if_pos h

theorem ledger_sent_unanswering {message : JsonObject} {older : List Observation}
    (h : ∀ r ∈ (ledger older).live, r.2 ≠ message.value "id") :
    ledger (.sent message none :: older) = ledger older := by
  by_cases hcall : IsCall message
  · exact ledger_sent_call hcall older
  · exact (if_neg hcall).trans (Ledger.answerId_of_unanswering h)

/-- A message leaves the books alone where it answers no request in flight. -/
theorem Session.books_sent {s : Session} {message : JsonObject}
    (h : ledger (.sent message none :: s.history) = ledger s.history) :
    (s.observe (.sent message none)).books = s.books := by
  show Books.mk (ledger (.sent message none :: s.history)) _ _ _ _ = _
  rw [h]
  rfl

/-- What holds of the books in every run: tags are used once, and a watcher watches
a request in flight. -/
structure TagsInv (b : Books) : Prop where
  received_lt : ∀ r ∈ b.ledger.received, r.1 < b.nextTag
  received_nodup : (b.ledger.received.map Prod.fst).Nodup
  ends_lt : ∀ e ∈ b.ledger.ends, e.1 < b.nextTag
  ends_nodup : (b.ledger.ends.map Prod.fst).Nodup
  watched : ∀ t w, b.watchers.lookup t = some w →
    (t, w.idValue) ∈ b.ledger.live ∧ w.idStr = idToString w.idValue

/-- The ledger and the tables agree, and every request that ended was answered as
the ledger says it should be. -/
structure BooksInv (b : Books) : Prop extends TagsInv b where
  cancelled_lt : ∀ t ∈ b.ledger.cancelled, t < b.nextTag
  answers_lt : ∀ a ∈ b.ledger.answers, a.1 < b.nextTag
  unanswered : ∀ r ∈ b.ledger.live, b.ledger.answersTo r.1 = []
  answered : ∀ r ∈ b.ledger.received, ∀ how, (r.1, how) ∈ b.ledger.ends →
    b.ledger.answersTo r.1 = if r.1 ∈ b.ledger.cancelled then [] else [answerMessage r.2 how]
  ids_distinct : ∀ r ∈ b.ledger.live, ∀ r' ∈ b.ledger.live, r.2 = r'.2 → r = r'
  in_flight : ∀ k ∈ b.inFlight, k ≠ "" ∧ ∃ r ∈ b.ledger.live, idToString r.2 = k
  /-- A mark belongs to one request in flight, and that request was cancelled. -/
  marked : ∀ k ∈ b.marks, k ≠ "" ∧ ∃ r ∈ b.ledger.live, idToString r.2 = k ∧
    r.1 ∈ b.ledger.cancelled ∧ ∀ r' ∈ b.ledger.live, idToString r'.2 = k → r' = r
  /-- A cancelled request in flight is marked. -/
  cancelled : ∀ r ∈ b.ledger.live, r.1 ∈ b.ledger.cancelled → idToString r.2 ∈ b.marks

/-- A request being dispatched: it is in flight and has no watcher. -/
def Books.Dispatching (b : Books) (t : RequestTag) (id : JsonValue) : Prop :=
  (t, id) ∈ b.ledger.live ∧ b.watchers.lookup t = none

/-- A request that is watched is not being dispatched. -/
theorem Books.Dispatching.ne {b : Books} {t t' : RequestTag} {id' : JsonValue} {w : Watcher}
    (h : b.Dispatching t' id') (hw : b.watchers.lookup t = some w) : t' ≠ t := by
  rintro rfl
  cases h.2.symm.trans hw

theorem Session.dispatching_unwatch {s : Session} {t t' : RequestTag} {id' : JsonValue}
    (h : s.books.Dispatching t' id') (hne : t' ≠ t) : (s.unwatch t).books.Dispatching t' id' :=
  ⟨h.1, (AList.lookup_erase_ne hne).trans h.2⟩

/-- The parts of the books that tell which requests are in flight are the same. -/
structure Books.SameTags (b b' : Books) : Prop where
  received : b'.ledger.received = b.ledger.received
  ends : b'.ledger.ends = b.ledger.ends
  nextTag : b'.nextTag = b.nextTag
  watchers : b'.watchers = b.watchers

theorem Books.SameTags.live {b b' : Books} (h : b.SameTags b') : b'.ledger.live = b.ledger.live := by
  unfold Ledger.live
  rw [h.received, h.ends]

theorem Books.SameTags.dispatching {b b' : Books} (h : b.SameTags b') {t : RequestTag}
    {id : JsonValue} (hd : b.Dispatching t id) : b'.Dispatching t id := by
  refine ⟨?_, ?_⟩
  · rw [h.live]; exact hd.1
  · rw [h.watchers]; exact hd.2

theorem Books.SameTags.of_eq {b b' : Books} (h : b' = b) : b.SameTags b' := by
  subst h
  exact ⟨rfl, rfl, rfl, rfl⟩

namespace TagsInv

variable {b : Books}

/-- A tag belongs to one request. -/
theorem eq_of_received (hb : TagsInv b) {r r' : RequestTag × JsonValue}
    (hr : r ∈ b.ledger.received) (hr' : r' ∈ b.ledger.received) (h : r.1 = r'.1) : r = r' :=
  List.inj_on_of_nodup_map hb.received_nodup hr hr' h

theorem eq_of_tag (hb : TagsInv b) {r r' : RequestTag × JsonValue} (hr : r ∈ b.ledger.live)
    (hr' : r' ∈ b.ledger.live) (h : r.1 = r'.1) : r = r' :=
  hb.eq_of_received (Ledger.mem_live.mp hr).1 (Ledger.mem_live.mp hr').1 h

theorem live_lt (hb : TagsInv b) {r : RequestTag × JsonValue} (hr : r ∈ b.ledger.live) :
    r.1 < b.nextTag :=
  hb.received_lt r (Ledger.mem_live.mp hr).1

theorem fresh_not_ended (hb : TagsInv b) : b.nextTag ∉ b.ledger.ends.map Prod.fst := by
  intro h
  obtain ⟨e, he, heq⟩ := List.mem_map.mp h
  exact (hb.ends_lt e he).ne heq

/-- The next request has no watcher yet: a watcher belongs to a request received
before. -/
theorem fresh_not_watched (hb : TagsInv b) : b.watchers.lookup b.nextTag = none := by
  cases hw : b.watchers.lookup b.nextTag with
  | none => rfl
  | some w => exact absurd (hb.live_lt (hb.watched _ w hw).1) (lt_irrefl _)

theorem congr (hb : TagsInv b) {b' : Books} (h : b.SameTags b') : TagsInv b' where
  received_lt := by rw [h.received, h.nextTag]; exact hb.received_lt
  received_nodup := by rw [h.received]; exact hb.received_nodup
  ends_lt := by rw [h.ends, h.nextTag]; exact hb.ends_lt
  ends_nodup := by rw [h.ends]; exact hb.ends_nodup
  watched := by
    rw [h.watchers, h.live]
    exact hb.watched

theorem empty : TagsInv {} where
  received_lt _ h := absurd h List.not_mem_nil
  received_nodup := List.nodup_nil
  ends_lt _ h := absurd h List.not_mem_nil
  ends_nodup := List.nodup_nil
  watched _ _ h := absurd h (by simp)

/-- A request arrives. -/
theorem receive (hb : TagsInv b) (id : JsonValue) {b' : Books}
    (hr : b'.ledger.received = (b.nextTag, id) :: b.ledger.received)
    (he : b'.ledger.ends = b.ledger.ends) (hn : b'.nextTag = b.nextTag + 1)
    (hw : b'.watchers = b.watchers) : TagsInv b' where
  received_lt := by
    rw [hr, hn]
    intro r hr
    rcases List.mem_cons.mp hr with rfl | hr
    · exact Nat.lt_succ_self _
    · exact Nat.lt_succ_of_lt (hb.received_lt r hr)
  received_nodup := by
    rw [hr]
    refine List.nodup_cons.mpr ⟨fun hmem => ?_, hb.received_nodup⟩
    obtain ⟨r, hr, heq⟩ := List.mem_map.mp hmem
    exact (hb.received_lt r hr).ne heq
  ends_lt := by
    rw [he, hn]
    exact fun e he => Nat.lt_succ_of_lt (hb.ends_lt e he)
  ends_nodup := by rw [he]; exact hb.ends_nodup
  watched := by
    rw [hw]
    intro t w h
    obtain ⟨hl, hk⟩ := hb.watched t w h
    rw [Ledger.mem_live] at hl ⊢
    rw [hr, he]
    exact ⟨⟨List.mem_cons_of_mem _ hl.1, hl.2⟩, hk⟩

/-- A request that is being dispatched ends. -/
theorem finish (hb : TagsInv b) {t : RequestTag} {id : JsonValue} (hd : b.Dispatching t id)
    (how : HandlerEnd) {b' : Books} (hr : b'.ledger.received = b.ledger.received)
    (he : b'.ledger.ends = (t, how) :: b.ledger.ends) (hn : b'.nextTag = b.nextTag)
    (hw : b'.watchers = b.watchers) : TagsInv b' where
  received_lt := by rw [hr, hn]; exact hb.received_lt
  received_nodup := by rw [hr]; exact hb.received_nodup
  ends_lt := by
    rw [he, hn]
    intro e he
    rcases List.mem_cons.mp he with rfl | he
    · exact hb.live_lt hd.1
    · exact hb.ends_lt e he
  ends_nodup := by
    rw [he]
    exact List.nodup_cons.mpr ⟨(Ledger.mem_live.mp hd.1).2, hb.ends_nodup⟩
  watched := by
    rw [hw]
    intro t' w h
    obtain ⟨hl, hk⟩ := hb.watched t' w h
    refine ⟨?_, hk⟩
    have hne : t' ≠ t := by
      intro heq
      rw [heq, hd.2] at h
      cases h
    rw [Ledger.mem_live] at hl ⊢
    rw [hr, he, List.map_cons, List.mem_cons, not_or]
    exact ⟨hl.1, hne, hl.2⟩

/-- A handler that returned a future is watched. -/
theorem watch (hb : TagsInv b) {t : RequestTag} {id : JsonValue} (hlive : (t, id) ∈ b.ledger.live) :
    TagsInv { b with watchers := b.watchers.insert t ⟨id, idToString id⟩ } :=
  { hb with
    watched := by
      intro t' w hw
      have hw : (b.watchers.insert t ⟨id, idToString id⟩).lookup t' = some w := hw
      by_cases h : t' = t
      · subst h
        rw [AList.lookup_insert] at hw
        obtain rfl := Option.some.inj hw
        exact ⟨hlive, rfl⟩
      · rw [AList.lookup_insert_ne h] at hw
        exact hb.watched t' w hw }

/-- A watcher that fired is gone. -/
theorem unwatch (hb : TagsInv b) (t : RequestTag) :
    TagsInv { b with watchers := b.watchers.erase t } :=
  { hb with
    watched := by
      intro t' w hw
      have hw : (b.watchers.erase t).lookup t' = some w := hw
      by_cases h : t' = t
      · subst h
        rw [AList.lookup_erase] at hw
        cases hw
      · rw [AList.lookup_erase_ne h] at hw
        exact hb.watched t' w hw }

end TagsInv

namespace BooksInv

variable {b : Books}

theorem answersTo_fresh (hb : BooksInv b) {t : RequestTag} (ht : b.nextTag ≤ t) :
    b.ledger.answersTo t = [] := by
  unfold Ledger.answersTo
  rw [List.map_eq_nil_iff, List.filter_eq_nil_iff]
  intro a ha
  have hlt := hb.answers_lt a ha
  simp only [decide_eq_true_eq]
  exact (lt_of_lt_of_le hlt ht).ne

theorem empty : BooksInv {} where
  toTagsInv := .empty
  cancelled_lt _ h := absurd h List.not_mem_nil
  answers_lt _ h := absurd h List.not_mem_nil
  unanswered _ h := absurd h List.not_mem_nil
  answered _ h := absurd h List.not_mem_nil
  ids_distinct _ h := absurd h List.not_mem_nil
  in_flight _ h := absurd h (Finset.notMem_empty _)
  marked _ h := absurd h (Finset.notMem_empty _)
  cancelled _ h := absurd h List.not_mem_nil

end BooksInv

/-! ### A request arrives -/

namespace Books

def arrive (b : Books) (id : JsonValue) : Books :=
  { b with
    ledger := b.ledger.receive b.nextTag id
    nextTag := b.nextTag + 1
    inFlight := if (idToString id).isEmpty then b.inFlight else insert (idToString id) b.inFlight }

/-- A request may arrive when no request in flight has its id, and no mark is
filed under its string. -/
structure MayArrive (b : Books) (id : JsonValue) : Prop where
  new_id : ∀ r ∈ b.ledger.live, r.2 ≠ id
  unmarked : idToString id ∉ b.marks

end Books

theorem BooksInv.arrive {b : Books} (hb : BooksInv b) {id : JsonValue} (h : b.MayArrive id) :
    BooksInv (b.arrive id) := by
  have hlive : ∀ r, r ∈ (b.arrive id).ledger.live ↔ r = (b.nextTag, id) ∨ r ∈ b.ledger.live :=
    fun r => Ledger.mem_live_receive hb.fresh_not_ended
  constructor
  · exact hb.toTagsInv.receive id rfl rfl rfl rfl
  · exact fun t ht => Nat.lt_succ_of_lt (hb.cancelled_lt t ht)
  · exact fun a ha => Nat.lt_succ_of_lt (hb.answers_lt a ha)
  · intro r hr
    rcases (hlive r).mp hr with rfl | hr
    · exact hb.answersTo_fresh le_rfl
    · exact hb.unanswered r hr
  · intro r hr how he
    rcases List.mem_cons.mp hr with rfl | hr
    · exact absurd (hb.ends_lt _ he) (lt_irrefl _)
    · exact hb.answered r hr how he
  · intro r hr r' hr' heq
    rcases (hlive r).mp hr with rfl | hr
    · rcases (hlive r').mp hr' with rfl | hr'
      · rfl
      · exact absurd heq.symm (h.new_id r' hr')
    · rcases (hlive r').mp hr' with rfl | hr'
      · exact absurd heq (h.new_id r hr)
      · exact hb.ids_distinct r hr r' hr' heq
  · intro k hk
    have hk : k ∈ if (idToString id).isEmpty then b.inFlight
        else insert (idToString id) b.inFlight := hk
    have hcase : (k = idToString id ∧ k ≠ "") ∨ k ∈ b.inFlight := by
      split at hk
      · exact Or.inr hk
      · rename_i hemp
        rcases Finset.mem_insert.mp hk with rfl | hk
        · exact Or.inl ⟨rfl, fun h0 => hemp (String.isEmpty_iff.mpr h0)⟩
        · exact Or.inr hk
    rcases hcase with ⟨rfl, hne⟩ | hk
    · exact ⟨hne, (b.nextTag, id), (hlive _).mpr (Or.inl rfl), rfl⟩
    · obtain ⟨hne, r, hr, hkr⟩ := hb.in_flight k hk
      exact ⟨hne, r, (hlive r).mpr (Or.inr hr), hkr⟩
  · intro k hk
    obtain ⟨hne, r, hr, hkr, hc, huniq⟩ := hb.marked k hk
    refine ⟨hne, r, (hlive r).mpr (Or.inr hr), hkr, hc, fun r' hr' hkr' => ?_⟩
    rcases (hlive r').mp hr' with rfl | hr'
    · exact absurd hk (hkr' ▸ h.unmarked)
    · exact huniq r' hr' hkr'
  · intro r hr hc
    rcases (hlive r).mp hr with rfl | hr
    · exact absurd (hb.cancelled_lt _ hc) (lt_irrefl _)
    · exact hb.cancelled r hr hc

/-! ### A cancellation arrives -/

namespace Books

/-- A cancellation is noted, and marked where `marks` says so. -/
def cancel (b : Books) (id : JsonValue) (marks : Bool) : Books :=
  { b with
    ledger := b.ledger.cancel id
    marks := if marks ∧ idToString id ∈ b.inFlight then insert (idToString id) b.marks
      else b.marks }

/-- A cancellation may arrive when the request in flight with its id can be
marked, and marking its string marks no other. -/
def MayCancel (b : Books) (id : JsonValue) (marks : Bool) : Prop :=
  ∀ r ∈ b.ledger.live,
    (r.2 = id → marks ∧ idToString id ∈ b.inFlight) ∧
    (marks ∧ idToString id ∈ b.inFlight → idToString r.2 = idToString id → r.2 = id)

end Books

theorem BooksInv.cancel {b : Books} (hb : BooksInv b) {id : JsonValue} {marks : Bool}
    (h : b.MayCancel id marks) : BooksInv (b.cancel id marks) := by
  have hmarks : (b.cancel id marks).marks =
      if marks ∧ idToString id ∈ b.inFlight then insert (idToString id) b.marks else b.marks := rfl
  constructor
  · exact hb.toTagsInv.congr ⟨rfl, rfl, rfl, rfl⟩
  · intro t ht
    rcases Ledger.mem_cancelled_cancel.mp ht with ht | ht
    · exact hb.received_lt _ (Ledger.mem_live.mp ht).1
    · exact hb.cancelled_lt t ht
  · exact hb.answers_lt
  · exact hb.unanswered
  · intro r hr how he
    -- the request has ended, so this cancellation does not concern it
    have hnew : r.1 ∈ (b.ledger.cancel id).cancelled ↔ r.1 ∈ b.ledger.cancelled := by
      rw [Ledger.mem_cancelled_cancel]
      refine ⟨fun h => h.resolve_left fun hl => ?_, Or.inr⟩
      exact (Ledger.mem_live.mp hl).2 (List.mem_map.mpr ⟨_, he, rfl⟩)
    have hans := hb.answered r hr how he
    show b.ledger.answersTo r.1 = if r.1 ∈ (b.ledger.cancel id).cancelled then _ else _
    rw [hans]
    exact if_congr hnew.symm rfl rfl
  · exact hb.ids_distinct
  · exact hb.in_flight
  · intro k hk
    rw [hmarks] at hk
    have hcase : (k = idToString id ∧ marks ∧ idToString id ∈ b.inFlight) ∨ k ∈ b.marks := by
      split at hk
      · rename_i hin
        rcases Finset.mem_insert.mp hk with rfl | hk
        · exact Or.inl ⟨rfl, hin⟩
        · exact Or.inr hk
      · exact Or.inr hk
    rcases hcase with ⟨rfl, hin⟩ | hk
    · obtain ⟨hne, r, hr, hkr⟩ := hb.in_flight _ hin.2
      have hid : r.2 = id := (h r hr).2 hin hkr
      refine ⟨hne, r, hr, hkr, ?_, fun r' hr' hkr' => ?_⟩
      · exact Ledger.mem_cancelled_cancel.mpr (Or.inl (hid ▸ hr))
      · exact hb.ids_distinct r' hr' r hr (((h r' hr').2 hin hkr').trans hid.symm)
    · obtain ⟨hne, r, hr, hkr, hc, huniq⟩ := hb.marked k hk
      exact ⟨hne, r, hr, hkr, Ledger.mem_cancelled_cancel.mpr (Or.inr hc), huniq⟩
  · intro r hr hc
    rw [hmarks]
    rcases Ledger.mem_cancelled_cancel.mp hc with hl | hc
    · have hid : r.2 = id := congrArg Prod.snd (hb.eq_of_tag hr hl rfl)
      rw [if_pos ((h r hr).1 hid), hid]
      exact Finset.mem_insert_self _ _
    · have hold := hb.cancelled r hr hc
      split
      · exact Finset.mem_insert_of_mem hold
      · exact hold

/-! ### A handler ends -/

namespace Books

/-- The request ended and was answered. -/
def answered (b : Books) (t : RequestTag) (id : JsonValue) (how : HandlerEnd) : Books :=
  { b with
    ledger := (b.ledger.finish t how).answer t (answerMessage id how)
    inFlight := b.inFlight.erase (idToString id) }

/-- The request ended, and its mark kept it from being answered. -/
def suppressed (b : Books) (t : RequestTag) (id : JsonValue) (how : HandlerEnd) : Books :=
  { b with
    ledger := b.ledger.finish t how
    inFlight := b.inFlight.erase (idToString id)
    marks := b.marks.erase (idToString id) }

end Books

section Ends

variable {b : Books} {t : RequestTag} {id : JsonValue}

theorem BooksInv.answered_inv (hb : BooksInv b) (how : HandlerEnd) (hd : b.Dispatching t id)
    (hm : idToString id ∉ b.marks) :
    BooksInv (b.answered t id how) := by
  have hlive := hd.1
  have hl : ∀ r, r ∈ (b.answered t id how).ledger.live ↔ r ∈ b.ledger.live ∧ r.1 ≠ t :=
    fun r => Ledger.mem_live_finish
  have hrec := (Ledger.mem_live.mp hlive).1
  have hnend := (Ledger.mem_live.mp hlive).2
  have hnc : t ∉ b.ledger.cancelled := fun hc => hm (hb.cancelled _ hlive hc)
  have hto : ∀ t', (b.answered t id how).ledger.answersTo t' =
      if t = t' then [answerMessage id how] else b.ledger.answersTo t' := by
    intro t'
    refine (Ledger.answersTo_answer t t' _).trans ?_
    by_cases h : t = t'
    · subst h
      rw [if_pos rfl, if_pos rfl]
      exact congrArg _ (hb.unanswered _ hlive)
    · rw [if_neg h, if_neg h]
      rfl
  -- a request filed under another string is another request
  have hother : ∀ r ∈ b.ledger.live, idToString r.2 ≠ idToString id → r.1 ≠ t := by
    intro r hr hne heq
    exact hne (congrArg (fun r => idToString r.2) (hb.eq_of_tag hr hlive heq))
  constructor
  · exact hb.toTagsInv.finish hd how rfl rfl rfl rfl
  · exact hb.cancelled_lt
  · intro a ha
    rcases List.mem_cons.mp ha with rfl | ha
    · exact hb.received_lt _ hrec
    · exact hb.answers_lt a ha
  · intro r hr
    obtain ⟨hr, hne⟩ := (hl r).mp hr
    rw [hto, if_neg (Ne.symm hne)]
    exact hb.unanswered r hr
  · intro r hr how' he
    rw [hto]
    rcases List.mem_cons.mp he with heq | he
    · obtain ⟨h1, h2⟩ := Prod.mk.inj heq
      obtain rfl : r = (t, id) := List.inj_on_of_nodup_map hb.received_nodup hr hrec h1
      rw [if_pos rfl, h2]
      exact (if_neg hnc).symm
    · have hne : t ≠ r.1 := by
        intro heq
        exact hnend (List.mem_map.mpr ⟨_, he, heq.symm⟩)
      rw [if_neg hne]
      exact hb.answered r hr how' he
  · intro r hr r' hr' heq
    exact hb.ids_distinct r ((hl r).mp hr).1 r' ((hl r').mp hr').1 heq
  · intro k hk
    obtain ⟨hne, hk⟩ := Finset.mem_erase.mp hk
    obtain ⟨hne', r, hr, hkr⟩ := hb.in_flight k hk
    exact ⟨hne', r, (hl r).mpr ⟨hr, hother r hr (hkr.trans_ne hne)⟩, hkr⟩
  · intro k hk
    have hk : k ∈ b.marks := hk
    obtain ⟨hne, r, hr, hkr, hc, huniq⟩ := hb.marked k hk
    have hne' : idToString r.2 ≠ idToString id := by
      rw [hkr]
      exact fun h => hm (h ▸ hk)
    refine ⟨hne, r, (hl r).mpr ⟨hr, hother r hr hne'⟩, hkr, hc, fun r' hr' hkr' => ?_⟩
    exact huniq r' ((hl r').mp hr').1 hkr'
  · intro r hr hc
    exact hb.cancelled r ((hl r).mp hr).1 hc

theorem BooksInv.suppressed_inv (hb : BooksInv b) (how : HandlerEnd) (hd : b.Dispatching t id)
    (hm : idToString id ∈ b.marks) :
    BooksInv (b.suppressed t id how) := by
  have hlive := hd.1
  have hl : ∀ r, r ∈ (b.suppressed t id how).ledger.live ↔ r ∈ b.ledger.live ∧ r.1 ≠ t :=
    fun r => Ledger.mem_live_finish
  have hrec := (Ledger.mem_live.mp hlive).1
  have hnend := (Ledger.mem_live.mp hlive).2
  -- the mark under the request's string is its own
  obtain ⟨_, r₀, hr₀, hk₀, hc₀, huniq₀⟩ := hb.marked _ hm
  obtain rfl : (t, id) = r₀ := huniq₀ _ hlive rfl
  have hother : ∀ r ∈ b.ledger.live, r.1 ≠ t → idToString r.2 ≠ idToString id := by
    intro r hr hne heq
    exact hne (congrArg Prod.fst (huniq₀ r hr heq))
  constructor
  · exact hb.toTagsInv.finish hd how rfl rfl rfl rfl
  · exact hb.cancelled_lt
  · exact hb.answers_lt
  · exact fun r hr => hb.unanswered r ((hl r).mp hr).1
  · intro r hr how' he
    rcases List.mem_cons.mp he with heq | he
    · obtain ⟨h1, _⟩ := Prod.mk.inj heq
      obtain rfl : r = (t, id) := List.inj_on_of_nodup_map hb.received_nodup hr hrec h1
      exact (hb.unanswered _ hlive).trans (if_pos hc₀).symm
    · exact hb.answered r hr how' he
  · intro r hr r' hr' heq
    exact hb.ids_distinct r ((hl r).mp hr).1 r' ((hl r').mp hr').1 heq
  · intro k hk
    obtain ⟨hne, hk⟩ := Finset.mem_erase.mp hk
    obtain ⟨hne', r, hr, hkr⟩ := hb.in_flight k hk
    refine ⟨hne', r, (hl r).mpr ⟨hr, fun heq => ?_⟩, hkr⟩
    obtain rfl : r = (t, id) := hb.eq_of_tag hr hlive heq
    exact hne hkr.symm
  · intro k hk
    obtain ⟨hne, hk⟩ := Finset.mem_erase.mp hk
    obtain ⟨hne', r, hr, hkr, hc, huniq⟩ := hb.marked k hk
    refine ⟨hne', r, (hl r).mpr ⟨hr, fun heq => ?_⟩, hkr, hc, fun r' hr' hkr' => ?_⟩
    · obtain rfl : r = (t, id) := hb.eq_of_tag hr hlive heq
      exact hne hkr.symm
    · exact huniq r' ((hl r').mp hr').1 hkr'
  · intro r hr hc
    obtain ⟨hr, hne⟩ := (hl r).mp hr
    exact Finset.mem_erase.mpr ⟨hother r hr hne, hb.cancelled r hr hc⟩

theorem BooksInv.watch (hb : BooksInv b) (hlive : (t, id) ∈ b.ledger.live) :
    BooksInv { b with watchers := b.watchers.insert t ⟨id, idToString id⟩ } :=
  { hb with toTagsInv := hb.toTagsInv.watch hlive }

theorem BooksInv.unwatch (hb : BooksInv b) (t : RequestTag) :
    BooksInv { b with watchers := b.watchers.erase t } :=
  { hb with toTagsInv := hb.toTagsInv.unwatch t }

end Ends

end LLMQore.Rpc
