import Mathlib.Data.List.Nodup
import Mathlib.Data.List.Range
import LLMQore.Rpc.SessionMachine
import LLMQore.Rpc.SessionRules

/-!
# LLMQore.Rpc.Outgoing

Requests this side sends are settled exactly once.

The bookkeeping is read off the observer's history: the requests issued
(`issuedRequests`), the promises settled (`settledPromises`), and whether a
progress handler was installed after an entry left `m_pending`
(`registeredSince`). `OutgoingInv` ties them to the session's tables.

Between the moment a timeout or a cancellation erases an entry and the moment it
settles the promise, the session calls out to the transport. A promise in that
gap is `Leaving`. A complete visit of the session, however deep it nests, leaves
the set of leaving promises as it was (`outgoingRely`), so between top-level
events no promise is leaving and the unsettled promises are exactly the pending
ones.
-/

namespace LLMQore.Rpc

open Reentrant

/-! ### What the observer knows about requests -/

/-- A request that was put in `m_pending`. -/
structure IssuedRequest where
  id : String
  promise : PromiseId
  progressToken : String

/-- The requests put in `m_pending`, newest first. -/
def issuedRequests : List Observation → List IssuedRequest
  | [] => []
  | .issued id promise token :: older => ⟨id, promise, token⟩ :: issuedRequests older
  | _ :: older => issuedRequests older

/-- The promises settled, newest first, one for each time it happened. -/
def settledPromises : List Observation → List PromiseId
  | [] => []
  | .settled promise _ :: older => promise :: settledPromises older
  | _ :: older => settledPromises older

/-- A progress handler was installed under `token` after the entry of `promise`
left `m_pending`. -/
def registeredSince (token : String) (promise : PromiseId) : List Observation → Bool
  | [] => false
  | .registered t :: older => t == token || registeredSince token promise older
  | .removed _ p :: older => p != promise && registeredSince token promise older
  | _ :: older => registeredSince token promise older

namespace Session

def requests (s : Session) : List IssuedRequest := issuedRequests s.history

def settledIds (s : Session) : List PromiseId := settledPromises s.history

/-- The promise belongs to an entry of `m_pending`. -/
def IsPending (s : Session) (promise : PromiseId) : Prop :=
  ∃ id p, s.pending.lookup id = some p ∧ p.promise = promise

/-- The promise was issued and has neither an entry nor been settled. -/
def Leaving (s : Session) (promise : PromiseId) : Prop :=
  (∃ r ∈ s.requests, r.promise = promise) ∧ promise ∉ s.settledIds ∧ ¬s.IsPending promise

end Session

/-- The id of the `k`-th request of a session, counted from `0`. -/
def requestId (k : Nat) : String := toString (UInt64.ofNat (1 + k)).toNat

/-- The bookkeeping of outgoing requests. -/
structure OutgoingInv (s : Session) : Prop where
  /-- The counter is the number of requests issued, up to wrap-around. -/
  nextId : s.nextId = UInt64.ofNat (1 + s.requests.length)
  ids : s.requests.map (·.id) = ((List.range s.requests.length).map requestId).reverse
  few : s.requests.length ≤ 2 ^ 64
  promise_lt : ∀ r ∈ s.requests, r.promise < s.nextPromise
  settled_lt : ∀ p ∈ s.settledIds, p < s.nextPromise
  promises_nodup : (s.requests.map (·.promise)).Nodup
  settled_nodup : s.settledIds.Nodup
  pending_issued : ∀ id p, s.pending.lookup id = some p →
    ⟨id, p.promise, p.progressToken⟩ ∈ s.requests
  pending_unsettled : ∀ id p, s.pending.lookup id = some p → p.promise ∉ s.settledIds
  token : ∀ r ∈ s.requests, r.progressToken = "" ∨ r.progressToken = r.id
  progress_gone : ∀ r ∈ s.requests, r.progressToken ≠ "" → ¬s.IsPending r.promise →
    r.progressToken ∈ s.progressHandlers →
    registeredSince r.progressToken r.promise s.history = true

/-- What a complete visit of the session may do: leave the leaving promises as
they were. -/
def outgoingRely (s s' : Session) : Prop := ∀ p, s'.Leaving p ↔ s.Leaving p

/-! ### Updates that do not concern outgoing requests -/

/-- The parts of a session the bookkeeping looks at are unchanged. -/
structure SameOutgoing (s s' : Session) : Prop where
  nextId : s'.nextId = s.nextId
  pending : s'.pending = s.pending
  nextPromise : s.nextPromise ≤ s'.nextPromise
  handlers : ∀ t ∈ s'.progressHandlers, t ∈ s.progressHandlers
  requests : s'.requests = s.requests
  settled : s'.settledIds = s.settledIds
  registered : ∀ t p, registeredSince t p s.history = true → registeredSince t p s'.history = true

theorem SameOutgoing.isPending {s s' : Session} (h : SameOutgoing s s') (p : PromiseId) :
    s'.IsPending p ↔ s.IsPending p := by
  simp only [Session.IsPending, h.pending]

theorem SameOutgoing.inv {s s' : Session} (h : SameOutgoing s s') (hs : OutgoingInv s) :
    OutgoingInv s' where
  nextId := by rw [h.nextId, h.requests]; exact hs.nextId
  ids := by rw [h.requests]; exact hs.ids
  few := by rw [h.requests]; exact hs.few
  promise_lt := by
    intro r hr
    rw [h.requests] at hr
    exact lt_of_lt_of_le (hs.promise_lt r hr) h.nextPromise
  settled_lt := by
    intro p hp
    rw [h.settled] at hp
    exact lt_of_lt_of_le (hs.settled_lt p hp) h.nextPromise
  promises_nodup := by rw [h.requests]; exact hs.promises_nodup
  settled_nodup := by rw [h.settled]; exact hs.settled_nodup
  pending_issued := by rw [h.requests, h.pending]; exact hs.pending_issued
  pending_unsettled := by rw [h.settled, h.pending]; exact hs.pending_unsettled
  token := by rw [h.requests]; exact hs.token
  progress_gone := by
    intro r hr htok hnp hin
    rw [h.requests] at hr
    rw [h.isPending] at hnp
    exact h.registered _ _ (hs.progress_gone r hr htok hnp (h.handlers _ hin))

theorem SameOutgoing.rely {s s' : Session} (h : SameOutgoing s s') : outgoingRely s s' := by
  intro p
  simp only [Session.Leaving, h.isPending, h.requests, h.settled]

/-! ### One lemma for each update that does -/

section Updates

variable {s : Session} {id : String} {p : Pending}

theorem OutgoingInv.eq_of_promise (hs : OutgoingInv s) {r r' : IssuedRequest}
    (hr : r ∈ s.requests) (hr' : r' ∈ s.requests) (h : r.promise = r'.promise) : r = r' :=
  List.inj_on_of_nodup_map hs.promises_nodup hr hr' h

/-- A promise has at most one entry. -/
theorem OutgoingInv.eq_of_pending (hs : OutgoingInv s) {id' : String} {p' : Pending}
    (h : s.pending.lookup id = some p) (h' : s.pending.lookup id' = some p')
    (heq : p'.promise = p.promise) : id' = id := by
  have := hs.eq_of_promise (hs.pending_issued id' p' h') (hs.pending_issued id p h) heq
  exact congrArg IssuedRequest.id this

@[simp] theorem settle_requests (q : PromiseId) (o : Outcome) :
    (s.settle q o).requests = s.requests := rfl
@[simp] theorem settle_settledIds (q : PromiseId) (o : Outcome) :
    (s.settle q o).settledIds = q :: s.settledIds := rfl
@[simp] theorem settle_isPending (q : PromiseId) (o : Outcome) (q' : PromiseId) :
    (s.settle q o).IsPending q' ↔ s.IsPending q' := Iff.rfl

@[simp] theorem dropPending_requests : (s.dropPending id p).requests = s.requests := by
  unfold Session.dropPending Session.requests
  split <;> rfl
@[simp] theorem dropPending_settledIds : (s.dropPending id p).settledIds = s.settledIds := by
  unfold Session.dropPending Session.settledIds
  split <;> rfl
@[simp] theorem dropPending_pending :
    (s.dropPending id p).pending = s.pending.erase id := by
  unfold Session.dropPending
  split <;> rfl
@[simp] theorem dropPending_nextId : (s.dropPending id p).nextId = s.nextId := by
  unfold Session.dropPending
  split <;> rfl
@[simp] theorem dropPending_nextPromise :
    (s.dropPending id p).nextPromise = s.nextPromise := by
  unfold Session.dropPending
  split <;> rfl
@[simp] theorem dropPending_history :
    (s.dropPending id p).history = .removed id p.promise :: s.history := by
  unfold Session.dropPending
  split <;> rfl
theorem dropPending_handlers :
    (s.dropPending id p).progressHandlers =
      if p.progressToken.isEmpty then s.progressHandlers
      else s.progressHandlers.erase p.progressToken := by
  unfold Session.dropPending
  split <;> rfl

/-- Settling a promise that has no entry and was not settled before. -/
theorem OutgoingInv.settle (hs : OutgoingInv s) {q : PromiseId} (o : Outcome)
    (hlt : q < s.nextPromise) (hnew : q ∉ s.settledIds) (hnp : ¬s.IsPending q) :
    OutgoingInv (s.settle q o) where
  nextId := hs.nextId
  ids := hs.ids
  few := hs.few
  promise_lt := hs.promise_lt
  settled_lt := by
    intro q' hq'
    rcases List.mem_cons.mp hq' with rfl | hq'
    · exact hlt
    · exact hs.settled_lt q' hq'
  promises_nodup := hs.promises_nodup
  settled_nodup := List.nodup_cons.mpr ⟨hnew, hs.settled_nodup⟩
  pending_issued := hs.pending_issued
  pending_unsettled := by
    intro id p hp hmem
    rcases List.mem_cons.mp hmem with heq | hmem
    · exact hnp ⟨id, p, hp, heq⟩
    · exact hs.pending_unsettled id p hp hmem
  token := hs.token
  progress_gone := hs.progress_gone

/-- A settled promise is no longer leaving. -/
theorem settle_leaving (q : PromiseId) (o : Outcome) (q' : PromiseId) :
    (s.settle q o).Leaving q' ↔ s.Leaving q' ∧ q' ≠ q := by
  simp only [Session.Leaving, settle_requests, settle_settledIds, settle_isPending,
    List.mem_cons, not_or]
  tauto

/-- Erasing an entry takes exactly its promise out of the pending ones. -/
theorem OutgoingInv.dropPending_isPending (hs : OutgoingInv s)
    (h : s.pending.lookup id = some p) (q : PromiseId) :
    (s.dropPending id p).IsPending q ↔ s.IsPending q ∧ q ≠ p.promise := by
  simp only [Session.IsPending, dropPending_pending]
  constructor
  · rintro ⟨id', p', hp', rfl⟩
    have hne : id' ≠ id := by
      rintro rfl
      rw [AList.lookup_erase] at hp'
      exact absurd hp' (by simp)
    rw [AList.lookup_erase_ne hne] at hp'
    exact ⟨⟨id', p', hp', rfl⟩, fun heq => hne (hs.eq_of_pending h hp' heq)⟩
  · rintro ⟨⟨id', p', hp', rfl⟩, hne⟩
    have hid : id' ≠ id := by
      rintro rfl
      rw [h] at hp'
      obtain rfl := Option.some.inj hp'
      exact hne rfl
    exact ⟨id', p', by rw [AList.lookup_erase_ne hid]; exact hp', rfl⟩

/-- Erasing an entry. -/
theorem OutgoingInv.dropPending (hs : OutgoingInv s) (h : s.pending.lookup id = some p) :
    OutgoingInv (s.dropPending id p) where
  nextId := by simpa using hs.nextId
  ids := by simpa using hs.ids
  few := by simpa using hs.few
  promise_lt := by simpa using hs.promise_lt
  settled_lt := by simpa using hs.settled_lt
  promises_nodup := by simpa using hs.promises_nodup
  settled_nodup := by simpa using hs.settled_nodup
  pending_issued := by
    intro id' p' hp'
    rw [dropPending_pending] at hp'
    by_cases hid : id' = id
    · rw [hid, AList.lookup_erase] at hp'
      exact absurd hp' (by simp)
    · rw [AList.lookup_erase_ne hid] at hp'
      simpa using hs.pending_issued id' p' hp'
  pending_unsettled := by
    intro id' p' hp'
    rw [dropPending_pending] at hp'
    by_cases hid : id' = id
    · rw [hid, AList.lookup_erase] at hp'
      exact absurd hp' (by simp)
    · rw [AList.lookup_erase_ne hid] at hp'
      simpa using hs.pending_unsettled id' p' hp'
  token := by simpa using hs.token
  progress_gone := by
    intro r hr htok hnp hin
    rw [dropPending_requests] at hr
    rw [hs.dropPending_isPending h] at hnp
    rw [dropPending_history, registeredSince]
    have hissued := hs.pending_issued id p h
    by_cases hr' : r.promise = p.promise
    · -- the entry's own token: its handler has just been dropped
      have heq : r = ⟨id, p.promise, p.progressToken⟩ := hs.eq_of_promise hr hissued hr'
      have htok' : p.progressToken ≠ "" := by simpa [heq] using htok
      have hemp : p.progressToken.isEmpty = false := by simpa using htok'
      rw [dropPending_handlers, hemp, heq] at hin
      simp at hin
    · have hnp' : ¬s.IsPending r.promise := fun hp => hnp ⟨hp, hr'⟩
      have hin' : r.progressToken ∈ s.progressHandlers := by
        rw [dropPending_handlers] at hin
        split at hin
        · exact hin
        · exact Finset.mem_of_mem_erase hin
      simp [hs.progress_gone r hr htok hnp' hin', Ne.symm hr']

/-- The promise of an erased entry is leaving until it is settled. -/
theorem OutgoingInv.dropPending_leaving (hs : OutgoingInv s)
    (h : s.pending.lookup id = some p) (q : PromiseId) :
    (s.dropPending id p).Leaving q ↔ s.Leaving q ∨ q = p.promise := by
  have hissued := hs.pending_issued id p h
  have hunsettled := hs.pending_unsettled id p h
  simp only [Session.Leaving, dropPending_requests, dropPending_settledIds,
    hs.dropPending_isPending h]
  by_cases hq : q = p.promise
  · subst hq
    simp only [ne_eq, not_true_eq_false, and_false, not_false_eq_true, and_true, or_true,
      iff_true]
    exact ⟨⟨_, hissued, rfl⟩, hunsettled⟩
  · simp [hq]

/-- An entry's promise is not leaving. -/
theorem not_leaving_of_pending (h : s.pending.lookup id = some p) : ¬s.Leaving p.promise :=
  fun hl => hl.2.2 ⟨id, p, h, rfl⟩

/-- Erasing an entry and settling its promise at once. -/
theorem OutgoingInv.drop_settle (hs : OutgoingInv s) (h : s.pending.lookup id = some p)
    (o : Outcome) :
    OutgoingInv ((s.dropPending id p).settle p.promise o) ∧
      outgoingRely s ((s.dropPending id p).settle p.promise o) := by
  have hdrop := hs.dropPending h
  constructor
  · refine hdrop.settle o ?_ ?_ ?_
    · simpa using hs.promise_lt _ (hs.pending_issued id p h)
    · simpa using hs.pending_unsettled id p h
    · simp [hs.dropPending_isPending h]
  · intro q
    rw [settle_leaving, hs.dropPending_leaving h]
    have hnl := not_leaving_of_pending h
    constructor
    · rintro ⟨hq | hq, hne⟩
      · exact hq
      · exact absurd hq hne
    · intro hq
      exact ⟨Or.inl hq, fun heq => hnl (heq ▸ hq)⟩

/-- The order of the loop of `abortPending` (settle, then erase) makes no
difference to the bookkeeping. -/
theorem sameOutgoing_settle_drop (s : Session) (id : String) (p : Pending) (o : Outcome) :
    SameOutgoing ((s.dropPending id p).settle p.promise o)
      ((s.settle p.promise o).dropPending id p) where
  nextId := by simp [Session.settle, Session.observe]
  pending := by simp [Session.settle, Session.observe]
  nextPromise := by simp [Session.settle, Session.observe]
  handlers := by
    intro t ht
    simpa [Session.settle, Session.observe, dropPending_handlers] using ht
  requests := by simp
  settled := by simp
  registered := by
    intro t q
    simp [Session.settle, Session.observe, registeredSince]

/-- The loop of `abortPending`, over entries that are all there. -/
theorem OutgoingInv.abortEntries (reason : String)
    (entries : List (Sigma fun _ : String => Pending)) :
    ∀ {s : Session}, OutgoingInv s → entries.NodupKeys →
      (∀ e ∈ entries, s.pending.lookup e.1 = some e.2) →
      OutgoingInv (Session.abortEntries reason entries s) ∧
        outgoingRely s (Session.abortEntries reason entries s) := by
  induction entries with
  | nil => exact fun hs _ _ => ⟨hs, fun _ => Iff.rfl⟩
  | cons e rest ih =>
      obtain ⟨id, p⟩ := e
      intro s hs hnd hall
      rw [List.nodupKeys_cons] at hnd
      have hlook := hall ⟨id, p⟩ List.mem_cons_self
      obtain ⟨hinv, hrely⟩ := hs.drop_settle hlook (.exception (.transportError reason))
      have hsame := sameOutgoing_settle_drop s id p (.exception (.transportError reason))
      have hrest : ∀ e ∈ rest,
          ((s.settle p.promise (.exception (.transportError reason))).dropPending id p).pending.lookup
            e.1 = some e.2 := by
        intro e he
        have hne : e.1 ≠ id := by
          intro heq
          exact hnd.1 (heq ▸ List.mem_map.mpr ⟨e, he, rfl⟩)
        rw [dropPending_pending, AList.lookup_erase_ne hne]
        exact hall e (List.mem_cons_of_mem _ he)
      obtain ⟨hinv', hrely'⟩ := ih (hsame.inv hinv) hnd.2 hrest
      exact ⟨hinv', fun q => (hrely' q).trans ((hsame.rely q).trans (hrely q))⟩

/-- The loop erases every entry it visits. -/
theorem abortEntries_lookup (reason : String)
    (entries : List (Sigma fun _ : String => Pending)) (id : String) :
    ∀ s : Session, (Session.abortEntries reason entries s).pending.lookup id =
      if id ∈ entries.keys then none else s.pending.lookup id := by
  induction entries with
  | nil => intro s; simp [Session.abortEntries]
  | cons e rest ih =>
      obtain ⟨id', p⟩ := e
      intro s
      rw [Session.abortEntries, ih, dropPending_pending]
      by_cases hrest : id ∈ rest.keys
      · simp [hrest]
      · by_cases heq : id = id'
        · subst heq
          simp [Session.settle, Session.observe]
        · simp [hrest, heq, AList.lookup_erase_ne heq, Session.settle, Session.observe]

/-- `abortPending` leaves no entry. -/
theorem abortPending_lookup (reason id : String) :
    (s.abortPending reason).pending.lookup id = none := by
  rw [Session.abortPending, abortEntries_lookup]
  by_cases h : id ∈ s.pending.entries.keys
  · rw [if_pos h]
  · rw [if_neg h]
    exact AList.lookup_eq_none.mpr h

theorem OutgoingInv.abortPending (hs : OutgoingInv s) (reason : String) :
    OutgoingInv (s.abortPending reason) ∧ outgoingRely s (s.abortPending reason) :=
  OutgoingInv.abortEntries reason s.pending.entries hs s.pending.nodupKeys
    fun _ he => AList.mem_lookup_iff.mpr he

/-- The first 2^64 request ids are pairwise distinct. -/
theorem requestId_inj {k l : Nat} (hk : k < 2 ^ 64) (hl : l < 2 ^ 64)
    (h : requestId k = requestId l) : k = l := by
  have hnat : (UInt64.ofNat (1 + k)).toNat = (UInt64.ofNat (1 + l)).toNat :=
    natRepr_inj h
  simp only [UInt64.toNat_ofNat'] at hnat
  omega

theorem requestIds_nodup {n : Nat} (hn : n ≤ 2 ^ 64) :
    ((List.range n).map requestId).Nodup := by
  refine List.Nodup.map_on (fun k hk l hl h => ?_) List.nodup_range
  rw [List.mem_range] at hk hl
  exact requestId_inj (lt_of_lt_of_le hk hn) (lt_of_lt_of_le hl hn) h

/-- While fewer than 2^64 requests were issued, the next id is a new one. -/
theorem OutgoingInv.fresh_id (hs : OutgoingInv s) (hfew : s.requests.length < 2 ^ 64) :
    ∀ r ∈ s.requests, r.id ≠ requestId s.requests.length := by
  intro r hr heq
  have hmem : r.id ∈ s.requests.map (·.id) := List.mem_map_of_mem hr
  rw [hs.ids, List.mem_reverse, List.mem_map] at hmem
  obtain ⟨k, hk, hkr⟩ := hmem
  rw [List.mem_range] at hk
  have := requestId_inj (lt_trans hk hfew) hfew (hkr.trans heq)
  omega

/-- The session after `sendRequestImpl` put a request in `m_pending`. -/
def Session.issue (s : Session) (method : String) (tracked : Bool) : Session :=
  let id := toString s.nextId.toNat
  let token := if tracked then id else ""
  { s with
    nextPromise := s.nextPromise + 1
    nextId := s.nextId + 1
    pending := s.pending.insert id ⟨s.nextPromise, token, method⟩
    timers := s.timers.insert s.nextPromise id }.observe (.issued id s.nextPromise token)

theorem OutgoingInv.issue (hs : OutgoingInv s) (method : String) (tracked : Bool)
    (hfew : s.requests.length < 2 ^ 64) :
    OutgoingInv (s.issue method tracked) ∧ outgoingRely s (s.issue method tracked) := by
  have hid : toString s.nextId.toNat = requestId s.requests.length := by
    rw [hs.nextId]; rfl
  have hfresh := hs.fresh_id hfew
  rw [← hid] at hfresh
  have hnone : ∀ p, s.pending.lookup (toString s.nextId.toNat) = some p → False :=
    fun p hp => hfresh _ (hs.pending_issued _ p hp) rfl
  have hpend : ∀ q, (s.issue method tracked).IsPending q ↔ s.IsPending q ∨ q = s.nextPromise := by
    intro q
    constructor
    · rintro ⟨id, p, hp, rfl⟩
      by_cases h : id = toString s.nextId.toNat
      · subst h
        simp only [Session.issue, Session.observe, AList.lookup_insert] at hp
        obtain rfl := Option.some.inj hp
        exact Or.inr rfl
      · simp only [Session.issue, Session.observe, AList.lookup_insert_ne h] at hp
        exact Or.inl ⟨id, p, hp, rfl⟩
    · rintro (⟨id, p, hp, rfl⟩ | rfl)
      · have h : id ≠ toString s.nextId.toNat := fun h => hnone p (h ▸ hp)
        exact ⟨id, p, by simp only [Session.issue, Session.observe, AList.lookup_insert_ne h]; exact hp,
          rfl⟩
      · exact ⟨toString s.nextId.toNat, _,
          by simp only [Session.issue, Session.observe, AList.lookup_insert]; rfl, rfl⟩
  have hreq : (s.issue method tracked).requests =
      ⟨toString s.nextId.toNat, s.nextPromise, if tracked then toString s.nextId.toNat else ""⟩ ::
        s.requests := rfl
  have hset : (s.issue method tracked).settledIds = s.settledIds := rfl
  have hold : ∀ r ∈ s.requests, r.promise ≠ s.nextPromise :=
    fun r hr => (hs.promise_lt r hr).ne
  refine ⟨?_, ?_⟩
  · constructor
    · rw [hreq, List.length_cons]
      show s.nextId + 1 = _
      rw [hs.nextId, ← Nat.add_assoc, UInt64.ofNat_add (1 + _)]
      rfl
    · rw [hreq, List.map_cons, hs.ids, List.length_cons, List.range_succ, List.map_append,
        List.reverse_append, hid]
      rfl
    · rw [hreq, List.length_cons]; omega
    · intro r hr
      rw [hreq] at hr
      rcases List.mem_cons.mp hr with rfl | hr
      · exact Nat.lt_succ_self _
      · exact Nat.lt_succ_of_lt (hs.promise_lt r hr)
    · intro q hq
      exact Nat.lt_succ_of_lt (hs.settled_lt q hq)
    · rw [hreq, List.map_cons, List.nodup_cons]
      refine ⟨?_, hs.promises_nodup⟩
      intro hmem
      obtain ⟨r, hr, heq⟩ := List.mem_map.mp hmem
      exact hold r hr heq
    · exact hs.settled_nodup
    · intro id p hp
      rw [hreq]
      by_cases h : id = toString s.nextId.toNat
      · subst h
        simp only [Session.issue, Session.observe, AList.lookup_insert] at hp
        obtain rfl := Option.some.inj hp
        exact List.mem_cons_self
      · simp only [Session.issue, Session.observe, AList.lookup_insert_ne h] at hp
        exact List.mem_cons_of_mem _ (hs.pending_issued id p hp)
    · intro id p hp
      by_cases h : id = toString s.nextId.toNat
      · subst h
        simp only [Session.issue, Session.observe, AList.lookup_insert] at hp
        obtain rfl := Option.some.inj hp
        exact fun hmem => (hs.settled_lt _ hmem).ne rfl
      · simp only [Session.issue, Session.observe, AList.lookup_insert_ne h] at hp
        exact hs.pending_unsettled id p hp
    · intro r hr
      rw [hreq] at hr
      rcases List.mem_cons.mp hr with rfl | hr
      · cases tracked <;> simp
      · exact hs.token r hr
    · intro r hr htok hnp hin
      rw [hpend] at hnp
      rw [hreq] at hr
      rcases List.mem_cons.mp hr with rfl | hr
      · exact absurd (Or.inr rfl) hnp
      · exact hs.progress_gone r hr htok (fun h => hnp (Or.inl h)) hin
  · intro q
    simp only [Session.Leaving, hreq, hset, hpend, List.mem_cons, exists_eq_or_imp]
    constructor
    · rintro ⟨hq | hq, hns, hnp⟩
      · exact absurd (Or.inr hq.symm) hnp
      · exact ⟨hq, hns, fun h => hnp (Or.inl h)⟩
    · rintro ⟨⟨r, hr, rfl⟩, hns, hnp⟩
      refine ⟨Or.inr ⟨r, hr, rfl⟩, hns, ?_⟩
      rintro (h | h)
      · exact hnp h
      · exact hold r hr h

/-- Installing a progress handler. -/
theorem OutgoingInv.register (hs : OutgoingInv s) (token : String) :
    OutgoingInv ({ s with progressHandlers := insert token s.progressHandlers }.observe
      (.registered token)) where
  nextId := hs.nextId
  ids := hs.ids
  few := hs.few
  promise_lt := hs.promise_lt
  settled_lt := hs.settled_lt
  promises_nodup := hs.promises_nodup
  settled_nodup := hs.settled_nodup
  pending_issued := hs.pending_issued
  pending_unsettled := hs.pending_unsettled
  token := hs.token
  progress_gone := by
    intro r hr htok hnp hin
    simp only [Session.observe, registeredSince]
    rcases Finset.mem_insert.mp hin with heq | hin
    · simp [heq]
    · simp [hs.progress_gone r hr htok hnp hin]

end Updates

/-! ### The code keeps the bookkeeping -/

/-- The promise the session makes to whoever enters it. -/
def outgoingContract : Contract SessionSig :=
  .plain (fun s => OutgoingInv s.session) (fun s s' => outgoingRely s.session s'.session)

theorem outgoingContract_preorder : outgoingContract.Preorder where
  refl _ _ := Iff.rfl
  trans h₁ h₂ p := (h₂ p).trans (h₁ p)

section Code

variable {ans : SessionSig.State → (e : SessionSig.Out) → SessionSig.Ans e → Prop}

/-- A proof obligation of the outgoing contract. -/
abbrev KeepsOutgoing (ans : SessionSig.State → (e : SessionSig.Out) → SessionSig.Ans e → Prop)
    {α : Type} (p : Proc SessionSig α) : Prop :=
  outgoingContract.Keeps ans p

theorem keepsOutgoing_modify {f : Session → Session}
    (h : ∀ s, OutgoingInv s → OutgoingInv (f s) ∧ outgoingRely s (f s)) :
    KeepsOutgoing ans (sessionHost.modify f) :=
  Contract.Keeps.modify fun s hs => h s.session hs

/-- Code that updates other parts of the session. -/
theorem keepsOutgoing_same {f : Session → Session} (h : ∀ s, SameOutgoing s (f s)) :
    KeepsOutgoing ans (sessionHost.modify f) :=
  keepsOutgoing_modify fun s hs => ⟨(h s).inv hs, (h s).rely⟩

theorem keepsOutgoing_reads {α : Type} (f : SessionState → α) :
    KeepsOutgoing ans (Proc.reads (S := SessionSig) f) :=
  Contract.Keeps.reads outgoingContract_preorder f

theorem keepsOutgoing_pure {α : Type} (a : α) :
    KeepsOutgoing ans (pure a : Proc SessionSig α) :=
  Contract.Keeps.pure outgoingContract_preorder a

theorem keepsOutgoing_bind {α β : Type} {p : Proc SessionSig α} {g : α → Proc SessionSig β}
    (hp : KeepsOutgoing ans p) (hg : ∀ a, KeepsOutgoing ans (g a)) :
    KeepsOutgoing ans (p >>= g) :=
  Contract.Keeps.bind outgoingContract_preorder hp hg

theorem keepsOutgoing_query (e : SessionOut) :
    KeepsOutgoing ans (Proc.query (S := SessionSig) e) :=
  Contract.Keeps.query (S := SessionSig) e

theorem keepsOutgoing_send (answers : Option RequestTag) (message : JsonObject) :
    KeepsOutgoing ans (sessionHost.send answers message) := by
  refine keepsOutgoing_bind (keepsOutgoing_same (f := fun s => s.observe (.sent message answers))
    fun s => ?_) fun _ => keepsOutgoing_query _
  exact ⟨rfl, rfl, le_rfl, fun _ h => h, rfl, rfl, fun _ _ h => h⟩

theorem outgoing_calls : SessionHost.Calls sessionHost ans outgoingContract where
  toPreorder := outgoingContract_preorder
  send message _ := keepsOutgoing_send none message
  abandon id := keepsOutgoing_query (.abandon id)
  emit signal := keepsOutgoing_query (.emit signal)
  notify method params := keepsOutgoing_query (.notify method params)
  progress token progress total message :=
    keepsOutgoing_query (.progress token progress total message)

/-- Erase the entry of a pending request, call out, then settle its promise: the
shape of a timeout and of a cancellation. While the code between runs, the promise
is leaving, and nothing but this code settles it. -/
theorem outgoing_drop_call_settle {p : Pending} {id : String} {s : SessionState}
    {mid : Proc SessionSig Unit} (o : Outcome) (hmid : KeepsOutgoing ans mid)
    (hs : OutgoingInv s.session) (h : s.session.pending.lookup id = some p) :
    wp ans outgoingContract
      (do sessionHost.modify fun s => s.dropPending id p
          mid
          sessionHost.modify fun s => s.settle p.promise o)
      (fun _ s' => OutgoingInv s'.session ∧ outgoingRely s.session s'.session) s := by
  have hdrop : OutgoingInv (s.session.dropPending id p) := hs.dropPending h
  refine (wp_bind _ _ _ _).mpr ?_
  refine (wp_bind _ _ _ _).mpr ?_
  refine hmid.wp (s := { s with session := s.session.dropPending id p }) hdrop ?_
  intro _ s₁ hs₁ hrely
  have hs₁ : OutgoingInv s₁.session := hs₁
  have hrely : outgoingRely (s.session.dropPending id p) s₁.session := hrely
  have hleaving : s₁.session.Leaving p.promise :=
    (hrely p.promise).mpr ((hs.dropPending_leaving h _).mpr (Or.inr rfl))
  obtain ⟨⟨r, hr, hrp⟩, hunsettled, hnp⟩ := hleaving
  refine ⟨hs₁.settle o (hrp ▸ hs₁.promise_lt r hr) hunsettled hnp, fun q => ?_⟩
  have hq := settle_leaving (s := s₁.session) p.promise o q
  rw [hrely q, hs.dropPending_leaving h] at hq
  refine hq.trans ⟨?_, fun hl => ⟨Or.inl hl, ?_⟩⟩
  · rintro ⟨hl | heq, hne⟩
    · exact hl
    · exact absurd heq hne
  · rintro rfl
    exact not_leaving_of_pending h hl

theorem keepsOutgoing_onTimeout (id : String) :
    KeepsOutgoing ans (sessionHost.onTimeout id) :=
  outgoing_calls.lookup id fun _ _ hs h =>
    outgoing_drop_call_settle _ (outgoing_calls.abandonRequest _ _ _) hs h

theorem keepsOutgoing_cancelRequest (id reason : String) :
    KeepsOutgoing ans (sessionHost.cancelRequest id reason) :=
  outgoing_calls.lookup id fun _ _ hs h =>
    outgoing_drop_call_settle _ (outgoing_calls.abandonRequest _ _ _) hs h

theorem keepsOutgoing_timerExpired (t : PromiseId) :
    KeepsOutgoing ans (sessionHost.timerExpired t) := by
  refine keepsOutgoing_bind (keepsOutgoing_reads _) fun timers => ?_
  cases timers.lookup t with
  | none => exact keepsOutgoing_pure ()
  | some id =>
      refine keepsOutgoing_bind (keepsOutgoing_same fun s => ?_)
        fun _ => keepsOutgoing_onTimeout id
      exact ⟨rfl, rfl, le_rfl, fun _ h => h, rfl, rfl, fun _ _ h => h⟩

/-- Settling a pending request without calling out in between. -/
theorem wp_outgoing_drop_settle {p : Pending} {id : String} {s : SessionState} (o : Outcome)
    (hs : OutgoingInv s.session) (h : s.session.pending.lookup id = some p) :
    wp ans outgoingContract
      (sessionHost.modify fun s => (s.dropPending id p).settle p.promise o)
      (fun _ s' => OutgoingInv s'.session ∧ outgoingRely s.session s'.session) s :=
  hs.drop_settle h o

theorem keepsOutgoing_dispatchResponse (message : JsonObject) :
    KeepsOutgoing ans (sessionHost.dispatchResponse message) :=
  Contract.Keeps.ite _ (fun _ => keepsOutgoing_pure ()) fun _ =>
    outgoing_calls.lookup _ fun _ _ hs h => wp_outgoing_drop_settle _ hs h

theorem keepsOutgoing_onSendFailed (message : JsonObject) (reason : String) :
    KeepsOutgoing ans (sessionHost.onSendFailed message reason) :=
  Contract.Keeps.ite _ (fun _ => outgoing_calls.lookup _ fun _ _ hs h =>
    wp_outgoing_drop_settle _ hs h) fun _ => keepsOutgoing_pure ()

theorem keepsOutgoing_abortPending (reason : String) :
    KeepsOutgoing ans (sessionHost.abortPending reason) :=
  keepsOutgoing_modify fun _ hs => hs.abortPending reason

/-- The handler for `notifications/cancelled` settles the pending request whose id
has the same string, if there is one. -/
theorem keepsOutgoing_cancelledHandler (params : JsonObject) :
    KeepsOutgoing ans (sessionHost.cancelledHandler params) := by
  refine keepsOutgoing_modify fun s hs => ?_
  unfold SessionHost.applyCancelled
  dsimp only
  split
  · exact ⟨hs, fun _ => Iff.rfl⟩
  · -- first the mark, which no outgoing request looks at
    have hsame : SameOutgoing s (s.markCancelled (idToString (params.value "requestId"))) := by
      unfold Session.markCancelled
      split
      · exact ⟨rfl, rfl, le_rfl, fun _ h => h, rfl, rfl, fun _ _ h => h⟩
      · exact ⟨rfl, rfl, le_rfl, fun _ h => h, rfl, rfl, fun _ _ h => h⟩
    have hmarked := hsame.inv hs
    split
    · exact ⟨hmarked, hsame.rely⟩
    · rename_i p h
      obtain ⟨hinv, hrely⟩ := hmarked.drop_settle h
        (.exception (.cancelledError (if (params.value "reason").toString.isEmpty = true then
          "Cancelled by peer" else (params.value "reason").toString)))
      exact ⟨hinv, fun q => (hrely q).trans (hsame.rely q)⟩

theorem keepsOutgoing_sendError (tag : Option RequestTag) (id : JsonValue)
    (answer : ErrorAnswer) : KeepsOutgoing ans (sessionHost.sendError tag id answer) := by
  refine keepsOutgoing_bind (keepsOutgoing_reads _) fun isOpen => ?_
  exact Contract.Keeps.ite _ (fun _ => keepsOutgoing_send _ _) fun _ => keepsOutgoing_pure _

theorem keepsOutgoing_sendResponse (tag : RequestTag) (id result : JsonValue) :
    KeepsOutgoing ans (sessionHost.sendResponse tag id result) := by
  refine keepsOutgoing_bind (keepsOutgoing_reads _) fun isOpen => ?_
  exact Contract.Keeps.ite _ (fun _ => keepsOutgoing_send _ _) fun _ => keepsOutgoing_pure _

theorem keepsOutgoing_leaveFlight (tag : RequestTag) (idStr : String) (how : HandlerEnd) :
    KeepsOutgoing ans (sessionHost.leaveFlight tag idStr how) :=
  keepsOutgoing_same fun _ => ⟨rfl, rfl, le_rfl, fun _ h => h, rfl, rfl, fun _ _ h => h⟩

theorem keepsOutgoing_dispatchRequest (message : JsonObject) :
    KeepsOutgoing ans (sessionHost.dispatchRequest message) := by
  refine keepsOutgoing_bind (keepsOutgoing_reads _) fun tag => ?_
  refine keepsOutgoing_bind (keepsOutgoing_same fun s =>
    ⟨rfl, rfl, le_rfl, fun _ h => h, rfl, rfl, fun _ _ h => h⟩) fun _ => ?_
  refine keepsOutgoing_bind (keepsOutgoing_query _) fun _ => ?_
  refine keepsOutgoing_bind (keepsOutgoing_reads _) fun handlers => ?_
  refine Contract.Keeps.ite _ (fun _ => ?_) fun _ => ?_
  · refine keepsOutgoing_bind (keepsOutgoing_query _) fun answer => ?_
    cases answer with
    | error e =>
        refine keepsOutgoing_bind (keepsOutgoing_same fun s =>
          ⟨rfl, rfl, le_rfl, fun _ h => h, rfl, rfl, fun _ _ h => h⟩) fun _ => ?_
        exact keepsOutgoing_bind (keepsOutgoing_leaveFlight _ _ _)
          fun _ => keepsOutgoing_sendError _ _ _
    | ok u =>
        refine keepsOutgoing_bind (keepsOutgoing_same fun s =>
          ⟨rfl, rfl, le_rfl, fun _ h => h, rfl, rfl, fun _ _ h => h⟩) fun _ => ?_
        exact keepsOutgoing_same fun s =>
          ⟨rfl, rfl, le_rfl, fun _ h => h, rfl, rfl, fun _ _ h => h⟩
  · refine keepsOutgoing_bind (keepsOutgoing_same fun s =>
      ⟨rfl, rfl, le_rfl, fun _ h => h, rfl, rfl, fun _ _ h => h⟩) fun _ => ?_
    exact keepsOutgoing_bind (keepsOutgoing_leaveFlight _ _ _)
      fun _ => keepsOutgoing_sendError _ _ _

theorem keepsOutgoing_handlerFinished (tag : RequestTag) (outcome : FutureEnd) :
    KeepsOutgoing ans (sessionHost.handlerFinished tag outcome) := by
  refine keepsOutgoing_bind (keepsOutgoing_reads _) fun watchers => ?_
  cases watchers.lookup tag with
  | none => exact keepsOutgoing_pure ()
  | some w =>
      refine keepsOutgoing_bind (keepsOutgoing_same fun s =>
        ⟨rfl, rfl, le_rfl, fun _ h => h, rfl, rfl, fun _ _ h => h⟩) fun _ => ?_
      refine keepsOutgoing_bind (keepsOutgoing_reads _) fun cancelled => ?_
      refine Contract.Keeps.ite _ (fun _ => ?_) fun _ => ?_
      · exact keepsOutgoing_bind (keepsOutgoing_same fun s =>
          ⟨rfl, rfl, le_rfl, fun _ h => h, rfl, rfl, fun _ _ h => h⟩)
          fun _ => keepsOutgoing_leaveFlight _ _ _
      · refine keepsOutgoing_bind (keepsOutgoing_leaveFlight _ _ _) fun _ => ?_
        cases outcome with
        | result v => exact keepsOutgoing_sendResponse _ _ _
        | exception e => exact keepsOutgoing_sendError _ _ _
        | cancelled => exact keepsOutgoing_pure ()

theorem keepsOutgoing_runNotifyHandler (method : String) (params : JsonObject)
    (handler : Option NotifyHandler) :
    KeepsOutgoing ans (sessionHost.runNotifyHandler method params handler) := by
  by_cases h : handler = some .cancelled
  · subst h
    exact keepsOutgoing_cancelledHandler params
  · exact outgoing_calls.runNotifyHandler method params h

theorem keepsOutgoing_dispatchNotification (message : JsonObject) :
    KeepsOutgoing ans (sessionHost.dispatchNotification message) := by
  refine keepsOutgoing_bind (keepsOutgoing_same fun s =>
    ⟨rfl, rfl, le_rfl, fun _ h => h, rfl, rfl, fun _ _ h => h⟩) fun _ => ?_
  refine keepsOutgoing_bind (keepsOutgoing_reads _) fun handlers => ?_
  exact keepsOutgoing_bind (keepsOutgoing_runNotifyHandler _ _ _)
    fun _ => keepsOutgoing_query _

theorem keepsOutgoing_onMessageReceived (message : JsonObject) :
    KeepsOutgoing ans (sessionHost.onMessageReceived message) := by
  refine Contract.Keeps.ite _ (fun _ => keepsOutgoing_query _) fun _ => ?_
  cases classify message with
  | request => exact keepsOutgoing_dispatchRequest message
  | notification => exact keepsOutgoing_dispatchNotification message
  | response => exact keepsOutgoing_dispatchResponse message
  | invalid =>
      exact keepsOutgoing_bind (keepsOutgoing_sendError _ _ _) fun _ => keepsOutgoing_query _

theorem keepsOutgoing_setRequestHandler (method : String) (handler : Bool) :
    KeepsOutgoing ans (sessionHost.setRequestHandler method handler) :=
  keepsOutgoing_same fun _ => ⟨rfl, rfl, le_rfl, fun _ h => h, rfl, rfl, fun _ _ h => h⟩

theorem keepsOutgoing_setNotificationHandler (method : String) (handler : Bool) :
    KeepsOutgoing ans (sessionHost.setNotificationHandler method handler) :=
  keepsOutgoing_same fun _ => ⟨rfl, rfl, le_rfl, fun _ h => h, rfl, rfl, fun _ _ h => h⟩

theorem keepsOutgoing_setProgressHandler (token : String) (handler : Bool) :
    KeepsOutgoing ans (sessionHost.setProgressHandler token handler) := by
  refine keepsOutgoing_modify fun s hs => ?_
  cases handler with
  | true => exact ⟨hs.register token, fun _ => Iff.rfl⟩
  | false =>
      have hsame : SameOutgoing s (s.clearProgressHandler token) :=
        ⟨rfl, rfl, le_rfl, fun _ h => Finset.mem_of_mem_erase h, rfl, rfl, fun _ _ h => h⟩
      exact ⟨hsame.inv hs, hsame.rely⟩

/-- A promise that no request got is settled when the transport is not open. -/
theorem OutgoingInv.refuse {s : Session} (hs : OutgoingInv s) (o : Outcome) :
    OutgoingInv ({ s with nextPromise := s.nextPromise + 1 }.settle s.nextPromise o) ∧
      outgoingRely s ({ s with nextPromise := s.nextPromise + 1 }.settle s.nextPromise o) := by
  have hsame : SameOutgoing s { s with nextPromise := s.nextPromise + 1 } :=
    ⟨rfl, rfl, Nat.le_succ _, fun _ h => h, rfl, rfl, fun _ _ h => h⟩
  have hnew : s.nextPromise ∉ s.settledIds := fun h => (hs.settled_lt _ h).ne rfl
  have hnp : ¬s.IsPending s.nextPromise := by
    rintro ⟨id, p, hp, heq⟩
    exact (hs.promise_lt _ (hs.pending_issued id p hp)).ne heq
  refine ⟨(hsame.inv hs).settle o (Nat.lt_succ_self _) hnew hnp, fun q => ?_⟩
  rw [settle_leaving, hsame.rely q]
  refine ⟨And.left, fun hl => ⟨hl, ?_⟩⟩
  rintro rfl
  obtain ⟨⟨r, hr, hrp⟩, _⟩ := hl
  exact (hs.promise_lt r hr).ne hrp

theorem keepsOutgoing_sendRequestImpl {s : SessionState} (method : String) (params : JsonObject)
    (tracked : Bool) (hs : OutgoingInv s.session) (hfew : s.session.requests.length < 2 ^ 64) :
    wp ans outgoingContract (sessionHost.sendRequestImpl method params tracked)
      (fun _ s' => OutgoingInv s'.session ∧ outgoingRely s.session s'.session) s := by
  cases hopen : s.transportOpen with
  | false =>
      have hrefuse := hs.refuse (.exception (.transportError "Transport is not open"))
      change wp ans outgoingContract (if (!s.transportOpen) = true then _ else _) _
        { s with session := { s.session with nextPromise := s.session.nextPromise + 1 } }
      rw [hopen]
      exact hrefuse
  | true =>
      obtain ⟨hinv, hrely⟩ := hs.issue method tracked hfew
      change wp ans outgoingContract (if (!s.transportOpen) = true then _ else _) _
        { s with session := { s.session with nextPromise := s.session.nextPromise + 1 } }
      rw [hopen]
      change wp ans outgoingContract (sessionHost.send none _ >>= fun _ => pure _) _
        { s with session := s.session.issue method tracked }
      refine (wp_bind _ _ _ _).mpr ((keepsOutgoing_send none _).wp hinv ?_)
      intro _ s' hs' hr
      exact ⟨hs', fun q => (hr q).trans (hrely q)⟩

/-- The surroundings that issue at most 2^64 requests; they may do anything else. -/
def FewRequests (s : SessionState) : SessionEvent → Prop
  | .call (.sendRequest ..) => s.session.requests.length < 2 ^ 64
  | _ => True

theorem keepsOutgoing_entry {s : SessionState} (ev : SessionEvent) (hs : OutgoingInv s.session)
    (hev : FewRequests s ev) :
    wp ans outgoingContract (sessionEntry ev)
      (fun _ s' => OutgoingInv s'.session ∧ outgoingRely s.session s'.session) s := by
  cases ev with
  | call c =>
      cases c with
      | sendRequest method params tracked =>
          refine (wp_bind _ _ _ _).mpr ?_
          exact wp_mono (keepsOutgoing_sendRequestImpl method params tracked hs hev) fun _ _ h => h
      | cancelRequest id reason => exact keepsOutgoing_cancelRequest id reason s hs
      | sendNotification method params => exact outgoing_calls.sendNotification method params s hs
      | sendProgress token progress total message =>
          exact outgoing_calls.sendProgress token progress total message s hs
      | setRequestHandler method handler =>
          exact keepsOutgoing_setRequestHandler method handler s hs
      | setNotificationHandler method handler =>
          exact keepsOutgoing_setNotificationHandler method handler s hs
      | setProgressHandler token handler =>
          exact keepsOutgoing_setProgressHandler token handler s hs
      | abortPending reason => exact keepsOutgoing_abortPending reason s hs
      | timerExpired timer => exact keepsOutgoing_timerExpired timer s hs
      | handlerFinished tag outcome => exact keepsOutgoing_handlerFinished tag outcome s hs
  | messageReceived message => exact keepsOutgoing_onMessageReceived message s hs
  | sendFailed message reason => exact keepsOutgoing_onSendFailed message reason s hs
  | transportClosed => exact keepsOutgoing_abortPending _ s hs
  | transportOpen isOpen => exact ⟨hs, fun _ => Iff.rfl⟩

end Code

theorem outgoing_valid :
    outgoingContract.Valid (Surroundings.only sessionMachine FewRequests) :=
  Contract.Valid.of_guarded outgoingContract_preorder
    (fun _ ev hs hev => keepsOutgoing_entry ev hs hev) fun f => f.elim

/-- A fresh session. -/
theorem outgoingInv_init : OutgoingInv {} where
  nextId := rfl
  ids := rfl
  few := Nat.zero_le _
  promise_lt _ h := absurd h List.not_mem_nil
  settled_lt _ h := absurd h List.not_mem_nil
  promises_nodup := List.nodup_nil
  settled_nodup := List.nodup_nil
  pending_issued id p h := absurd h (by simp)
  pending_unsettled _ _ _ := List.not_mem_nil
  token _ h := absurd h List.not_mem_nil
  progress_gone _ h := absurd h List.not_mem_nil

/-! ### Runs -/

/-- The session issued requests under distinct ids, settled none of their promises
twice, and dropped the progress handler of every request it settled. -/
structure SettledOnce (s : Session) : Prop where
  ids_nodup : (s.requests.map (·.id)).Nodup
  settled_nodup : s.settledIds.Nodup
  /-- What is in `m_pending` was issued and is not settled. -/
  pending_open : ∀ q, s.IsPending q → (∃ r ∈ s.requests, r.promise = q) ∧ q ∉ s.settledIds
  progress_gone : ∀ r ∈ s.requests, r.promise ∈ s.settledIds → r.progressToken ≠ "" →
    r.progressToken ∈ s.progressHandlers →
    registeredSince r.progressToken r.promise s.history = true

/-- The unsettled promises are exactly those in `m_pending`. -/
def NoneLeaving (s : Session) : Prop :=
  ∀ r ∈ s.requests, r.promise ∉ s.settledIds ↔ s.IsPending r.promise

theorem OutgoingInv.settledOnce {s : Session} (hs : OutgoingInv s) : SettledOnce s where
  ids_nodup := by
    rw [hs.ids, List.nodup_reverse]
    exact requestIds_nodup hs.few
  settled_nodup := hs.settled_nodup
  pending_open := by
    rintro q ⟨id, p, hp, rfl⟩
    exact ⟨⟨_, hs.pending_issued id p hp, rfl⟩, hs.pending_unsettled id p hp⟩
  progress_gone := by
    intro r hr hset htok hin
    refine hs.progress_gone r hr htok ?_ hin
    rintro ⟨id, p, hp, heq⟩
    exact hs.pending_unsettled id p hp (heq ▸ hset)

theorem noneLeaving_of_rely {s : Session} (hs : OutgoingInv s) (h : outgoingRely {} s) :
    NoneLeaving s := by
  intro r hr
  constructor
  · intro hns
    by_contra hnp
    obtain ⟨⟨r', hr', _⟩, _⟩ := (h r.promise).mp ⟨⟨r, hr, rfl⟩, hns, hnp⟩
    exact absurd hr' List.not_mem_nil
  · rintro ⟨id, p, hp, heq⟩
    exact heq ▸ hs.pending_unsettled id p hp

theorem abortEntries_requests (reason : String)
    (entries : List (Sigma fun _ : String => Pending)) :
    ∀ s : Session, (Session.abortEntries reason entries s).requests = s.requests := by
  induction entries with
  | nil => exact fun _ => rfl
  | cons e rest ih =>
      intro s
      rw [Session.abortEntries, ih, dropPending_requests, settle_requests]

/-- Aborting settles every promise that was in `m_pending`. -/
theorem OutgoingInv.abortPending_settles {s : Session} (hs : OutgoingInv s) (reason : String)
    {q : PromiseId} (hq : s.IsPending q) : q ∈ (s.abortPending reason).settledIds := by
  by_contra hns
  obtain ⟨id, p, hp, rfl⟩ := hq
  have hnp : ¬(s.abortPending reason).IsPending p.promise := by
    rintro ⟨id', p', hp', _⟩
    rw [abortPending_lookup] at hp'
    exact absurd hp' (by simp)
  have hissued : ∃ r ∈ (s.abortPending reason).requests, r.promise = p.promise := by
    rw [Session.abortPending, abortEntries_requests]
    exact ⟨_, hs.pending_issued id p hp, rfl⟩
  have hleaving := ((hs.abortPending reason).2 p.promise).mp ⟨hissued, hns, hnp⟩
  exact not_leaving_of_pending hp hleaving

/-! #### Events that come too late -/

/-- An id without an entry in `m_pending`. -/
def NotPending (s : SessionState) (id : String) : Prop := s.session.pending.lookup id = none

/-- Code that looks an entry up and does nothing where there is none. -/
theorem advance_lookup_stale {s : SessionState} {id : String} (h : NotPending s id)
    (found : Pending → Proc SessionSig Unit) :
    (match s.session.pending.lookup id with
      | none => (pure () : Proc SessionSig Unit)
      | some p => found p).advance s = (s, .ret ()) := by
  have h : s.session.pending.lookup id = none := h
  rw [h]
  rfl

theorem advance_onTimeout_stale {s : SessionState} {id : String} (h : NotPending s id) :
    (sessionHost.onTimeout id).advance s = (s, .ret ()) :=
  advance_lookup_stale h _

theorem advance_cancelRequest_stale {s : SessionState} {id : String} (reason : String)
    (h : NotPending s id) :
    (sessionHost.cancelRequest id reason).advance s = (s, .ret ()) :=
  advance_lookup_stale h _

theorem advance_dispatchResponse_stale {s : SessionState} (message : JsonObject)
    (h : NotPending s (idToString (message.value "id"))) :
    (sessionHost.dispatchResponse message).advance s = (s, .ret ()) := by
  unfold SessionHost.dispatchResponse
  dsimp only
  split
  · rfl
  · exact advance_lookup_stale h _

theorem advance_onSendFailed_stale {s : SessionState} (message : JsonObject) (reason : String)
    (h : NotPending s (idToString (message.value "id"))) :
    (sessionHost.onSendFailed message reason).advance s = (s, .ret ()) := by
  unfold SessionHost.onSendFailed
  split
  · exact advance_lookup_stale h _
  · rfl

/-- Whatever names an id without an entry changes nothing. -/
structure StaleIgnored (s : SessionState) : Prop where
  response : ∀ message, (message.value "jsonrpc").toString = "2.0" →
    classify message = .response → NotPending s (idToString (message.value "id")) →
    (sessionEntry (.messageReceived message)).advance s = (s, .ret ())
  timeout : ∀ id, NotPending s id → (sessionHost.onTimeout id).advance s = (s, .ret ())
  cancel : ∀ id reason, NotPending s id →
    (sessionEntry (.call (.cancelRequest id reason))).advance s = (s, .ret ())
  sendFailed : ∀ message reason, NotPending s (idToString (message.value "id")) →
    (sessionEntry (.sendFailed message reason)).advance s = (s, .ret ())

theorem staleIgnored (s : SessionState) : StaleIgnored s where
  response := by
    intro message hver hkind h
    change (sessionHost.onMessageReceived message).advance s = _
    unfold SessionHost.onMessageReceived
    rw [if_neg (not_not.mpr hver), hkind]
    exact advance_dispatchResponse_stale message h
  timeout _ h := advance_onTimeout_stale h
  cancel _ reason h := advance_cancelRequest_stale reason h
  sendFailed message reason h := advance_onSendFailed_stale message reason h

/-- `abortPending` and a closed transport settle every pending request. -/
structure AbortsAll (s : SessionState) (ev : SessionEvent) (s' : SessionState) : Prop where
  run : (sessionEntry ev).advance s = (s', .ret ())
  empty : ∀ id, NotPending s' id
  settles : ∀ q, s.session.IsPending q → q ∈ s'.session.settledIds

theorem OutgoingInv.abortsAll {s : SessionState} (hs : OutgoingInv s.session) (reason : String) :
    AbortsAll s (.call (.abortPending reason)) { s with session := s.session.abortPending reason } where
  run := rfl
  empty _ := abortPending_lookup _ _
  settles _ hq := hs.abortPending_settles reason hq

/-- In every run that issues at most 2^64 requests, a request is settled once,
when its entry leaves `m_pending`. -/
theorem outgoing_settled_once (isOpen : Bool) {c : Config SessionSig}
    (hrun : Reaches (Surroundings.only sessionMachine FewRequests)
      (.idle { transportOpen := isOpen }) c) (hw : c.Waiting) :
    SettledOnce c.state.session ∧ StaleIgnored c.state ∧
      (c.prog = .ret () → NoneLeaving c.state.session) ∧
      (∀ reason, ∃ s', AbortsAll c.state (.call (.abortPending reason)) s') ∧
      (∃ s', AbortsAll c.state .transportClosed s') := by
  have hinit : outgoingContract.inv { transportOpen := isOpen } := outgoingInv_init
  have hinv : OutgoingInv c.state.session := outgoing_valid.waiting hinit hrun hw
  refine ⟨hinv.settledOnce, staleIgnored _, ?_, fun reason => ⟨_, hinv.abortsAll reason⟩, ?_⟩
  · obtain ⟨s, p⟩ := c
    rintro rfl
    exact noneLeaving_of_rely hinv (outgoing_valid.idle hinit hrun).2
  · obtain ⟨hempty, hrun', hset⟩ := hinv.abortsAll "Transport closed"
    exact ⟨_, hempty, hrun', hset⟩

/-- Send a tracked request, let it time out, and answer the transport's calls. -/
def timeoutScript : List (Move sessionMachine) :=
  [.event (.call (.setProgressHandler "1" true)), .event (.call (.sendRequest "ping" [] true)),
    .answer SessionOut.returns, .event (.call (.timerExpired 0)), .answer SessionOut.returns,
    .answer SessionOut.returns]

theorem outgoing_settled_once_timeout :
    ∃ c : Config SessionSig, c.Waiting ∧ c.state.session.settledIds = [0] ∧
      SettledOnce c.state.session ∧ NoneLeaving c.state.session := by
  have hrun : Reaches (Surroundings.only sessionMachine FewRequests)
      (.idle { transportOpen := true }) (play sessionMachine 0 timeoutScript (.idle {})) :=
    reaches_play ⟨trivial, ⟨Nat.two_pow_pos 64, ⟨trivial, ⟨trivial, ⟨trivial, ⟨trivial, trivial⟩⟩⟩⟩⟩⟩
  have hidle : (play sessionMachine 0 timeoutScript (.idle {})).prog = .ret () := rfl
  have h := outgoing_settled_once true hrun (Or.inl hidle)
  exact ⟨_, Or.inl hidle, rfl, h.1, h.2.2.1 hidle⟩

/-- A session that sends request after request counts them modulo 2^64. -/
theorem sends_reach (n : Nat) : ∃ s : SessionState,
    Reaches (Surroundings.any sessionMachine) (.idle {}) (.idle s) ∧ s.transportOpen = true ∧
      s.session.nextId = UInt64.ofNat (1 + n) ∧
      s.session.requests.map (·.id) = ((List.range n).map requestId).reverse := by
  induction n with
  | zero => exact ⟨{}, .refl _, rfl, rfl, rfl⟩
  | succ n ih =>
      obtain ⟨⟨s, isOpen⟩, hrun, hopen, hnext, hids⟩ := ih
      obtain rfl : isOpen = true := hopen
      refine ⟨⟨(s.issue "ping" false).observe
        (.sent (requestMessage (toString s.nextId.toNat) "ping" []) none), true⟩, ?_, rfl, ?_, ?_⟩
      · have hplay : Playable (Surroundings.any sessionMachine) 0
            [.event (.call (.sendRequest "ping" [] false)), .answer SessionOut.returns]
            (.idle ⟨s, true⟩) := ⟨trivial, trivial, trivial⟩
        exact hrun.trans (reaches_play hplay)
      · show s.nextId + 1 = _
        rw [hnext, ← Nat.add_assoc, UInt64.ofNat_add (1 + n)]
        rfl
      · have hid : toString s.nextId.toNat = requestId n := by rw [hnext]; rfl
        rw [List.range_succ, List.map_append, List.reverse_append, ← hids]
        exact congrArg (· :: s.requests.map (·.id)) hid

/-- The first request and the one after 2^64 others get the same id, and while a
cancellation calls the transport its promise has no entry but is not settled. -/
theorem outgoing_ids_wrap :
    (∃ s : SessionState, Reaches (Surroundings.any sessionMachine) (.idle {}) (.idle s) ∧
      ¬(s.session.requests.map (·.id)).Nodup) ∧
    (∃ c : Config SessionSig, Reaches (Surroundings.any sessionMachine) (.idle {}) c ∧
      c.Waiting ∧ ¬NoneLeaving c.state.session) := by
  constructor
  · obtain ⟨s, hrun, _, _, hids⟩ := sends_reach (2 ^ 64 + 1)
    refine ⟨s, hrun, fun hnd => ?_⟩
    rw [hids, List.nodup_reverse] at hnd
    have heq := List.inj_on_of_nodup_map hnd (x := 0) (y := 2 ^ 64)
      (List.mem_range.mpr (by omega)) (List.mem_range.mpr (by omega)) (by decide)
    exact absurd heq (by decide)
  · refine ⟨play sessionMachine 0 (timeoutScript.take 4) (.idle {}), reaches_play ?_, ?_, ?_⟩
    · exact ⟨trivial, ⟨trivial, ⟨trivial, ⟨trivial, trivial⟩⟩⟩⟩
    · exact Or.inr ⟨_, _, rfl⟩
    · intro h
      have hr : (⟨"1", 0, "1"⟩ : IssuedRequest) ∈
          (play sessionMachine 0 (timeoutScript.take 4) (.idle {})).state.session.requests :=
        List.mem_singleton.mpr rfl
      obtain ⟨id, p, hp, _⟩ := (h _ hr).mp List.not_mem_nil
      have hempty : (play sessionMachine 0 (timeoutScript.take 4)
          (.idle {})).state.session.pending = ∅ := rfl
      rw [hempty, AList.lookup_empty] at hp
      cases hp

end LLMQore.Rpc
