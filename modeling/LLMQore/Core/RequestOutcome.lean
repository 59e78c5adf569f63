import LLMQore.Clients.OpenAI
import LLMQore.Core.ClientRules
import LLMQore.Reentrant.History

/-!
# LLMQore.Core.RequestOutcome

The outcome of a request.

A request ends with one `requestCompleted` or `requestFailed`; after that nothing of it is
heard, nothing is sent for it, and its one-shot promise is finished, once and with what the
end was. A request that ends leaves `m_requests` before its signals are emitted and its
promise is finished after them, so in between it is gone but not over; `ClientRely` says
that whatever happens meanwhile does not touch it.
-/

namespace LLMQore

open Reentrant Network Tools

/-- The request has been reported complete or failed. -/
def Terminated (h : List ClientObservation) (id : String) : Prop :=
  (∃ text, .emitted (.requestCompleted id text) ∈ h) ∨
    ∃ error, .emitted (.requestFailed id error) ∈ h

/-- The outcome of a promise is that of the request. -/
def OneShotOutcome.Matches (h : List ClientObservation) (id : String) : OneShotOutcome → Prop
  | .result info =>
      .emitted (.requestFinalized id info) ∈ h ∧ .emitted (.requestCompleted id info.fullText) ∈ h
  | .exception what => .emitted (.requestFailed id what) ∈ h

/-- What may be observed after `h`. -/
def OutcomeAllowed (h : List ClientObservation) : ClientObservation → Prop
  | .emitted (.chunkReceived id _) | .emitted (.accumulatedReceived id _)
  | .emitted (.thinkingBlockReceived id _ _) | .emitted (.requestCompleted id _)
  | .emitted (.requestFailed id _) | .sent id => ¬Terminated h id
  | .started id oneShot =>
      (∀ p, .started id p ∉ h) ∧ ∀ promise ∈ oneShot, ∀ id', .started id' (some promise) ∉ h
  | .finished promise outcome =>
      (∀ o, .finished promise o ∉ h) ∧ ∃ id, .started id (some promise) ∈ h ∧ outcome.Matches h id
  | _ => True

/-- An observation that neither starts nor ends a request or its promise. -/
def ClientObservation.Plain : ClientObservation → Prop
  | .emitted (.requestCompleted ..) | .emitted (.requestFailed ..) | .started .. | .finished .. =>
      False
  | _ => True

section History

variable {h : List ClientObservation} {o : ClientObservation} {id : String}

theorem Terminated.cons (ht : Terminated h id) (o : ClientObservation) : Terminated (o :: h) id :=
  ht.imp (fun ⟨text, hm⟩ => ⟨text, .tail _ hm⟩) fun ⟨error, hm⟩ => ⟨error, .tail _ hm⟩

/-- What is seen last did not end the request. -/
theorem Terminated.old (hcompleted : ∀ text, .emitted (.requestCompleted id text) ≠ o)
    (hfailed : ∀ error, .emitted (.requestFailed id error) ≠ o)
    (ht : Terminated (o :: h) id) : Terminated h id := by
  rcases ht with ⟨text, hm⟩ | ⟨error, hm⟩
  · exact .inl ⟨text, mem_old hm (hcompleted text)⟩
  · exact .inr ⟨error, mem_old hm (hfailed error)⟩

theorem Terminated.mono {h' : List ClientObservation} (hsub : ∀ o ∈ h, o ∈ h')
    (ht : Terminated h id) : Terminated h' id :=
  ht.imp (fun ⟨text, hm⟩ => ⟨text, hsub _ hm⟩) fun ⟨error, hm⟩ => ⟨error, hsub _ hm⟩

theorem terminated_cons_plain (ho : o.Plain) : Terminated (o :: h) id ↔ Terminated h id := by
  refine ⟨fun ht => ?_, fun ht => ht.cons o⟩
  rcases ht with ⟨text, hm⟩ | ⟨error, hm⟩
  · refine .inl ⟨text, mem_old hm ?_⟩
    rintro rfl
    exact ho
  · refine .inr ⟨error, mem_old hm ?_⟩
    rintro rfl
    exact ho

theorem started_cons_plain (ho : o.Plain) {promise : Option PromiseRef} :
    .started id promise ∈ o :: h ↔ .started id promise ∈ h := by
  refine ⟨fun hm => mem_old hm ?_, .tail _⟩
  rintro rfl
  exact ho

theorem finished_cons_plain (ho : o.Plain) {promise : PromiseRef} {outcome : OneShotOutcome} :
    .finished promise outcome ∈ o :: h ↔ .finished promise outcome ∈ h := by
  refine ⟨fun hm => mem_old hm ?_, .tail _⟩
  rintro rfl
  exact ho

/-- A promise waits for one request. -/
theorem started_unique (hord : Ordered OutcomeAllowed h) {id' : String} {promise : PromiseRef}
    (h₁ : .started id (some promise) ∈ h) (h₂ : .started id' (some promise) ∈ h) : id = id' := by
  induction h with
  | nil => cases h₁
  | cons o h ih =>
      obtain ⟨ho, hord⟩ := ordered_cons.mp hord
      rcases List.mem_cons.mp h₁ with rfl | hm₁
      · rcases List.mem_cons.mp h₂ with heq | hm₂
        · cases heq
          rfl
        · exact absurd hm₂ (ho.2 promise rfl id')
      · rcases List.mem_cons.mp h₂ with rfl | hm₂
        · exact absurd hm₁ (ho.2 promise rfl id)
        · exact ih hord hm₁ hm₂

end History

variable {B : BaseClient} {s s' s₀ : B.State} {id : String}

/-- What holds whenever the client waits for its surroundings. -/
structure OutcomeInv (s : B.State) : Prop where
  ordered : Ordered OutcomeAllowed s.history
  pending : s.pendingOneShot = none
  live : ∀ {id}, (s.requests.lookup id).isSome →
    (∃ p, .started id p ∈ s.history) ∧ ¬Terminated s.history id
  started : ∀ {id}, Terminated s.history id → ∃ p, .started id p ∈ s.history
  oneShot : ∀ {id promise}, s.oneShots.lookup id = some promise →
    .started id (some promise) ∈ s.history ∧ ∀ o, .finished promise o ∉ s.history
  kept : ∀ {id promise}, .started id (some promise) ∈ s.history →
    (s.requests.lookup id).isSome → s.oneShots.lookup id = some promise
  issued : ∀ {id promise}, .started id (some promise) ∈ s.history → promise < s.nextPromise

/-- The request was made and is no longer there. -/
def Gone (s : B.State) (id : String) : Prop :=
  (∃ p, .started id p ∈ s.history) ∧ s.requests.lookup id = none

/-- The request has been reported and its promise is finished. -/
def Over (s : B.State) (id : String) : Prop :=
  Terminated s.history id ∧
    ∀ promise, .started id (some promise) ∈ s.history → ∃ o, .finished promise o ∈ s.history

/-- The request is gone in both states, and nothing has happened to it in between. -/
structure Untouched (s s' : B.State) (id : String) : Prop where
  gone : Gone s' id
  terminated : Terminated s'.history id → Terminated s.history id
  started : ∀ p, .started id p ∈ s'.history → .started id p ∈ s.history
  oneShot : s'.oneShots.lookup id = s.oneShots.lookup id

/-- What a visit of the client may do. -/
structure ClientRely (s s' : B.State) : Prop where
  history : ∀ o ∈ s.history, o ∈ s'.history
  untouched : ∀ id, Gone s id → Untouched s s' id
  /-- A request that ends during the visit is over when the visit is. -/
  ended : ∀ id, Gone s' id → Gone s id ∨ Over s' id

theorem Untouched.trans {s₁ s₂ s₃ : B.State} (h₁ : Untouched s₁ s₂ id)
    (h₂ : Untouched s₂ s₃ id) : Untouched s₁ s₃ id where
  gone := h₂.gone
  terminated ht := h₁.terminated (h₂.terminated ht)
  started p hp := h₁.started p (h₂.started p hp)
  oneShot := h₂.oneShot.trans h₁.oneShot

theorem Over.mono (h : Over s id) (hgone : Gone s id) (hrely : ClientRely s s') : Over s' id :=
  ⟨h.1.mono hrely.history, fun promise hp =>
    let ⟨o, ho⟩ := h.2 promise ((hrely.untouched id hgone).started _ hp)
    ⟨o, hrely.history _ ho⟩⟩

/-- The contract of the client about the outcomes of its requests. -/
def outcomeContract (B : BaseClient) : Contract B.Sig where
  inv := OutcomeInv
  rely := ClientRely
  pre _ := OutcomeInv
  post _ s _ s' := OutcomeInv s' ∧ ClientRely s s'

theorem outcome_preorder : (outcomeContract B).Preorder where
  refl s :=
    { history := fun _ ho => ho
      untouched := fun id hgone => ⟨hgone, fun ht => ht, fun _ hp => hp, rfl⟩
      ended := fun id hgone => .inl hgone }
  trans {s₁ s₂ s₃} h₁ h₂ :=
    { history := fun o ho => h₂.history o (h₁.history o ho)
      untouched := fun id hgone =>
        (h₁.untouched id hgone).trans (h₂.untouched id (h₁.untouched id hgone).gone)
      ended := fun id hgone => by
        rcases h₂.ended id hgone with hgone₂ | hover
        · exact (h₁.ended id hgone₂).imp_right fun hover => hover.mono hgone₂ h₂
        · exact .inr hover }

/-! ### Updates that concern no outcome -/

/-- The states agree on all that outcomes depend on. -/
structure SameBooks (s s' : B.State) : Prop where
  history : s'.history = s.history
  requests : ∀ id, (s'.requests.lookup id).isSome = (s.requests.lookup id).isSome
  oneShots : s'.oneShots = s.oneShots
  pending : s'.pendingOneShot = s.pendingOneShot
  nextPromise : s'.nextPromise = s.nextPromise

theorem lookup_none_iff (h : SameBooks s s') (id : String) :
    s'.requests.lookup id = none ↔ s.requests.lookup id = none := by
  rw [← Option.isNone_iff_eq_none, ← Option.isNone_iff_eq_none, ← Option.not_isSome,
    ← Option.not_isSome, h.requests id]

theorem SameBooks.gone (h : SameBooks s s') : Gone s' id ↔ Gone s id := by
  unfold Gone
  rw [h.history, lookup_none_iff h id]

theorem OutcomeInv.same (hs : OutcomeInv s) (h : SameBooks s s') : OutcomeInv s' where
  ordered := h.history ▸ hs.ordered
  pending := h.pending.trans hs.pending
  live hid := by
    rw [h.history]
    exact hs.live ((h.requests _).symm.trans hid)
  started ht := by
    rw [h.history] at ht ⊢
    exact hs.started ht
  oneShot hp := by
    rw [h.history]
    exact hs.oneShot (h.oneShots ▸ hp)
  kept hp hid := by
    rw [h.oneShots]
    exact hs.kept (h.history ▸ hp) ((h.requests _).symm.trans hid)
  issued hp := by
    rw [h.nextPromise]
    exact hs.issued (h.history ▸ hp)

theorem SameBooks.moves (h : SameBooks s s') (hs : OutcomeInv s) :
    (outcomeContract B).Moves s s' := by
  refine ⟨hs.same h, fun o ho => h.history ▸ ho, fun id hgone => ?_, fun id hgone => ?_⟩
  · exact ⟨h.gone.mpr hgone, fun ht => h.history ▸ ht, fun p hp => h.history ▸ hp,
      by rw [h.oneShots]⟩
  · exact .inl (h.gone.mp hgone)

theorem SameBooks.update (s : B.State) (id : String)
    (f : ActiveRequest B.provider → ActiveRequest B.provider) : SameBooks s (s.update id f) := by
  have heq := s.update_eq id f
  refine ⟨by rw [heq], fun id' => ?_, by rw [heq], by rw [heq], by rw [heq]⟩
  by_cases hid : id' = id
  · subst hid
    simp
  · rw [s.lookup_update_ne hid]

theorem SameBooks.trans {s₁ s₂ s₃ : B.State} (h₁ : SameBooks s₁ s₂) (h₂ : SameBooks s₂ s₃) :
    SameBooks s₁ s₃ where
  history := h₂.history.trans h₁.history
  requests id := (h₂.requests id).trans (h₁.requests id)
  oneShots := h₂.oneShots.trans h₁.oneShots
  pending := h₂.pending.trans h₁.pending
  nextPromise := h₂.nextPromise.trans h₁.nextPromise

/-- The ways in which the client's state changes outside these books. -/
theorem SameBooks.fields (s : B.State) {s' : B.State} (hrequests : s'.requests = s.requests)
    (hhistory : s'.history = s.history) (honeShots : s'.oneShots = s.oneShots)
    (hpending : s'.pendingOneShot = s.pendingOneShot) (hnext : s'.nextPromise = s.nextPromise) :
    SameBooks s s' :=
  ⟨hhistory, fun id => by rw [hrequests], honeShots, hpending, hnext⟩

theorem moves_fields (hs : OutcomeInv s) (hrequests : s'.requests = s.requests)
    (hhistory : s'.history = s.history) (honeShots : s'.oneShots = s.oneShots)
    (hpending : s'.pendingOneShot = s.pendingOneShot) (hnext : s'.nextPromise = s.nextPromise) :
    (outcomeContract B).Moves s s' :=
  (SameBooks.fields s hrequests hhistory honeShots hpending hnext).moves hs

theorem SameBooks.dropStream (s : B.State) (id : String) : SameBooks s (s.dropStream id) := by
  unfold ClientState.dropStream
  cases (s.requests.lookup id).bind (·.stream) with
  | none => exact .fields s rfl rfl rfl rfl rfl
  | some ref => exact (SameBooks.update s id _).trans (.fields _ rfl rfl rfl rfl rfl)

theorem SameBooks.cleanupFullRequest (s : B.State) (id : String) :
    SameBooks s (s.cleanupFullRequest id) :=
  (SameBooks.update s id _).trans (.fields _ rfl rfl rfl rfl rfl)

/-! ### Observations -/

theorem Gone.observe {o : ClientObservation} (ho : o.Plain) :
    Gone (s.observe o) id ↔ Gone s id := by
  unfold Gone
  simp [started_cons_plain ho]

theorem OutcomeInv.observe (hs : OutcomeInv s) {o : ClientObservation} (ho : o.Plain)
    (hallowed : OutcomeAllowed s.history o) : OutcomeInv (s.observe o) where
  ordered := ordered_cons.mpr ⟨hallowed, hs.ordered⟩
  pending := hs.pending
  live hid := by
    obtain ⟨⟨p, hp⟩, ht⟩ := hs.live hid
    exact ⟨⟨p, .tail _ hp⟩, fun h => ht ((terminated_cons_plain ho).mp h)⟩
  started ht := by
    obtain ⟨p, hp⟩ := hs.started ((terminated_cons_plain ho).mp ht)
    exact ⟨p, .tail _ hp⟩
  oneShot hp := by
    obtain ⟨hstart, hfin⟩ := hs.oneShot hp
    exact ⟨.tail _ hstart, fun o' h => hfin o' ((finished_cons_plain ho).mp h)⟩
  kept hp hid := hs.kept ((started_cons_plain ho).mp hp) hid
  issued hp := hs.issued ((started_cons_plain ho).mp hp)

theorem moves_observe (hs : OutcomeInv s) {o : ClientObservation} (ho : o.Plain)
    (hallowed : OutcomeAllowed s.history o) : (outcomeContract B).Moves s (s.observe o) := by
  refine ⟨hs.observe ho hallowed, fun o' h => .tail _ h, fun id hgone => ?_, fun id hgone => ?_⟩
  · exact ⟨(Gone.observe ho).mpr hgone, (terminated_cons_plain ho).mp,
      fun p => (started_cons_plain ho).mp, rfl⟩
  · exact .inl ((Gone.observe ho).mp hgone)

/-! ### The end of a request -/

/-- A visit in the middle of which the request `id` has ended: it is gone, and its promise is
as it was. -/
structure Leaving (id : String) (s s' : B.State) : Prop where
  history : ∀ o ∈ s.history, o ∈ s'.history
  untouched : ∀ x, x ≠ id → Gone s x → Untouched s s' x
  ended : ∀ x, x ≠ id → Gone s' x → Gone s x ∨ Over s' x
  gone : Gone s' id
  started : ∀ p, .started id p ∈ s'.history → .started id p ∈ s.history
  oneShot : s'.oneShots.lookup id = s.oneShots.lookup id

theorem Leaving.rely {s₁ s₂ : B.State} (h : Leaving id s s₁) (hrely : ClientRely s₁ s₂) :
    Leaving id s s₂ where
  history o ho := hrely.history o (h.history o ho)
  untouched x hx hgone :=
    (h.untouched x hx hgone).trans (hrely.untouched x (h.untouched x hx hgone).gone)
  ended x hx hgone := by
    rcases hrely.ended x hgone with hgone₁ | hover
    · exact (h.ended x hx hgone₁).imp_right fun hover => hover.mono hgone₁ hrely
    · exact .inr hover
  gone := (hrely.untouched id h.gone).gone
  started p hp := h.started p ((hrely.untouched id h.gone).started p hp)
  oneShot := (hrely.untouched id h.gone).oneShot.trans h.oneShot

/-- The request leaves. -/
theorem Leaving.of_erase (hs : OutcomeInv s) (hid : (s.requests.lookup id).isSome)
    (hhistory : s'.history = s.history) (honeShots : s'.oneShots = s.oneShots)
    (hnone : s'.requests.lookup id = none)
    (hne : ∀ x, x ≠ id → (s'.requests.lookup x = none ↔ s.requests.lookup x = none)) :
    Leaving id s s' where
  history o ho := hhistory ▸ ho
  untouched x hx hgone :=
    ⟨⟨hhistory ▸ hgone.1, (hne x hx).mpr hgone.2⟩, fun ht => hhistory ▸ ht,
      fun p hp => hhistory ▸ hp, by rw [honeShots]⟩
  ended x hx hgone := .inl ⟨hhistory ▸ hgone.1, (hne x hx).mp hgone.2⟩
  gone := ⟨hhistory ▸ (hs.live hid).1, hnone⟩
  started p hp := hhistory ▸ hp
  oneShot := by rw [honeShots]

theorem OutcomeInv.of_erase (hs : OutcomeInv s) (hhistory : s'.history = s.history)
    (honeShots : s'.oneShots = s.oneShots) (hpending : s'.pendingOneShot = s.pendingOneShot)
    (hnext : s'.nextPromise = s.nextPromise)
    (hsub : ∀ x, (s'.requests.lookup x).isSome → (s.requests.lookup x).isSome) :
    OutcomeInv s' where
  ordered := hhistory ▸ hs.ordered
  pending := hpending.trans hs.pending
  live hid := by
    rw [hhistory]
    exact hs.live (hsub _ hid)
  started ht := by
    rw [hhistory] at ht ⊢
    exact hs.started ht
  oneShot hp := by
    rw [hhistory]
    exact hs.oneShot (honeShots ▸ hp)
  kept hp hid := by
    rw [honeShots]
    exact hs.kept (hhistory ▸ hp) (hsub _ hid)
  issued hp := by
    rw [hnext]
    exact hs.issued (hhistory ▸ hp)

/-- A signal that reports the end of a request. -/
def ClientSignal.Ends (id : String) : ClientSignal → Prop
  | .requestFinalized id' _ | .requestCompleted id' _ | .requestFailed id' _ => id' = id
  | _ => False

theorem terminated_cons_of_ends {h : List ClientObservation} {signal : ClientSignal}
    (hends : signal.Ends id) {x : String} (hx : x ≠ id) :
    Terminated (.emitted signal :: h) x ↔ Terminated h x := by
  refine ⟨fun ht => ?_, fun ht => ht.cons _⟩
  rcases ht with ⟨text, hm⟩ | ⟨error, hm⟩
  · refine .inl ⟨text, mem_old hm ?_⟩
    intro heq
    cases heq
    exact hx hends
  · refine .inr ⟨error, mem_old hm ?_⟩
    intro heq
    cases heq
    exact hx hends

theorem mem_cons_emitted {h : List ClientObservation} {signal : ClientSignal}
    {o : ClientObservation} (hne : ∀ sig, o ≠ .emitted sig) : o ∈ .emitted signal :: h ↔ o ∈ h :=
  ⟨fun hm => mem_old hm (hne signal), .tail _⟩

/-- The end of a request that is gone but not terminated is reported. -/
theorem OutcomeInv.report (hs : OutcomeInv s) (hgone : Gone s id)
    (ht : ¬Terminated s.history id) {signal : ClientSignal} (hends : signal.Ends id) :
    OutcomeInv (s.observe (.emitted signal)) where
  ordered := by
    refine ordered_cons.mpr ⟨?_, hs.ordered⟩
    cases signal with
    | requestFinalized => trivial
    | requestCompleted => exact (show _ = id from hends) ▸ ht
    | requestFailed => exact (show _ = id from hends) ▸ ht
    | _ => exact hends.elim
  pending := hs.pending
  live {x} hx := by
    obtain ⟨⟨p, hp⟩, htx⟩ := hs.live hx
    have hne : x ≠ id := by
      rintro rfl
      have hx' : (s.requests.lookup x).isSome := hx
      rw [hgone.2] at hx'
      cases hx'
    exact ⟨⟨p, .tail _ hp⟩, fun h => htx ((terminated_cons_of_ends hends hne).mp h)⟩
  started {x} htx := by
    by_cases hne : x = id
    · obtain ⟨p, hp⟩ := hgone.1
      exact ⟨p, .tail _ (hne ▸ hp)⟩
    · obtain ⟨p, hp⟩ := hs.started ((terminated_cons_of_ends hends hne).mp htx)
      exact ⟨p, .tail _ hp⟩
  oneShot hp := by
    obtain ⟨hstart, hfin⟩ := hs.oneShot hp
    exact ⟨.tail _ hstart, fun o h => hfin o ((mem_cons_emitted (by simp)).mp h)⟩
  kept hp hid := hs.kept ((mem_cons_emitted (by simp)).mp hp) hid
  issued hp := hs.issued ((mem_cons_emitted (by simp)).mp hp)

theorem Leaving.report (h : Leaving id s s') {signal : ClientSignal} (hends : signal.Ends id) :
    Leaving id s (s'.observe (.emitted signal)) where
  history o ho := .tail _ (h.history o ho)
  untouched x hx hgone := by
    obtain ⟨⟨⟨p, hp⟩, hnone⟩, ht, hstart, hone⟩ := h.untouched x hx hgone
    exact ⟨⟨⟨p, .tail _ hp⟩, hnone⟩, fun h' => ht ((terminated_cons_of_ends hends hx).mp h'),
      fun q hq => hstart q ((mem_cons_emitted (by simp)).mp hq), hone⟩
  ended x hx hgone := by
    obtain ⟨⟨p, hp⟩, hnone⟩ := hgone
    have hgone' : Gone s' x := ⟨⟨p, (mem_cons_emitted (by simp)).mp hp⟩, hnone⟩
    refine (h.ended x hx hgone').imp_right fun ⟨ht, hfin⟩ => ⟨ht.cons _, fun promise hp => ?_⟩
    obtain ⟨o, ho⟩ := hfin promise ((mem_cons_emitted (by simp)).mp hp)
    exact ⟨o, .tail _ ho⟩
  gone := ⟨⟨_, .tail _ h.gone.1.choose_spec⟩, h.gone.2⟩
  started p hp := h.started p ((mem_cons_emitted (by simp)).mp hp)
  oneShot := h.oneShot

theorem terminated_cons_finished {h : List ClientObservation} {promise : PromiseRef}
    {outcome : OneShotOutcome} {x : String} :
    Terminated (.finished promise outcome :: h) x ↔ Terminated h x := by
  refine ⟨fun ht => ?_, fun ht => ht.cons _⟩
  exact Terminated.old (fun t => by simp) (fun e => by simp) ht

/-- What finishing the promise of a request does. -/
theorem finishOneShot_cases (s : B.State) (id : String) (outcome : OneShotOutcome) :
    (s.oneShots.lookup id = none ∧ s.finishOneShot id outcome = s) ∨
      ∃ promise, s.oneShots.lookup id = some promise ∧
        s.finishOneShot id outcome =
          { s with oneShots := s.oneShots.erase id }.observe (.finished promise outcome) := by
  unfold ClientState.finishOneShot
  cases hl : s.oneShots.lookup id with
  | none => exact .inl ⟨rfl, rfl⟩
  | some promise => exact .inr ⟨promise, rfl, rfl⟩

/-- The promise of a request that has been reported is finished with its outcome. -/
theorem OutcomeInv.finish (hs : OutcomeInv s) (hgone : Gone s id) {outcome : OneShotOutcome}
    (hmatch : outcome.Matches s.history id) : OutcomeInv (s.finishOneShot id outcome) := by
  rcases finishOneShot_cases s id outcome with ⟨-, heq⟩ | ⟨promise, hl, heq⟩
  · rw [heq]
    exact hs
  · rw [heq]
    obtain ⟨hstart, hfin⟩ := hs.oneShot hl
    have hother : ∀ {x q}, (s.oneShots.erase id).lookup x = some q →
        x ≠ id ∧ s.oneShots.lookup x = some q := by
      intro x q hq
      by_cases hx : x = id
      · rw [hx, AList.lookup_erase] at hq
        cases hq
      · exact ⟨hx, by rwa [AList.lookup_erase_ne hx] at hq⟩
    refine ⟨ordered_cons.mpr ⟨⟨hfin, id, hstart, hmatch⟩, hs.ordered⟩, hs.pending, fun hid => ?_,
      fun ht => ?_, fun {x q} hq => ?_, fun {x q} hq hid => ?_, fun hq => ?_⟩
    · obtain ⟨⟨p, hp⟩, ht⟩ := hs.live hid
      exact ⟨⟨p, .tail _ hp⟩, fun h => ht (terminated_cons_finished.mp h)⟩
    · obtain ⟨p, hp⟩ := hs.started (terminated_cons_finished.mp ht)
      exact ⟨p, .tail _ hp⟩
    · obtain ⟨hx, hq⟩ := hother hq
      obtain ⟨hstart', hfin'⟩ := hs.oneShot hq
      refine ⟨.tail _ hstart', fun o hm => ?_⟩
      rcases List.mem_cons.mp hm with heq' | hm
      · cases heq'
        exact hx (started_unique hs.ordered hstart' hstart)
      · exact hfin' o hm
    · have hx : x ≠ id := by
        rintro rfl
        have hid' : (s.requests.lookup x).isSome := hid
        rw [hgone.2] at hid'
        cases hid'
      show (s.oneShots.erase id).lookup x = some q
      rw [AList.lookup_erase_ne hx]
      exact hs.kept (mem_old hq (by simp)) hid
    · exact hs.issued (mem_old hq (by simp))

/-- The last step of a request that ends in the middle of a visit. -/
theorem Leaving.finish (h : Leaving id s s') (hs : OutcomeInv s)
    (hid : (s.requests.lookup id).isSome) (ht : Terminated s'.history id)
    (outcome : OneShotOutcome) : ClientRely s (s'.finishOneShot id outcome) := by
  have hkept : ∀ promise, .started id (some promise) ∈ s'.history →
      s'.oneShots.lookup id = some promise := fun promise hp => by
    rw [h.oneShot]
    exact hs.kept (h.started _ hp) hid
  have hnot : ¬Gone s id := fun hgone => by
    rw [hgone.2] at hid
    cases hid
  rcases finishOneShot_cases s' id outcome with ⟨hnone, heq⟩ | ⟨promise, hl, heq⟩
  · rw [heq]
    refine ⟨h.history, fun x hgone => ?_, fun x hgone => ?_⟩
    · exact h.untouched x (fun hx => hnot (hx ▸ hgone)) hgone
    · by_cases hx : x = id
      · subst hx
        refine .inr ⟨ht, fun promise hp => ?_⟩
        rw [hkept promise hp] at hnone
        cases hnone
      · exact h.ended x hx hgone
  · rw [heq]
    refine ⟨fun o ho => .tail _ (h.history o ho), fun x hgone => ?_, fun x hgone => ?_⟩
    · have hx : x ≠ id := fun hx => hnot (hx ▸ hgone)
      obtain ⟨⟨⟨p, hp⟩, hnone⟩, htx, hstart, hone⟩ := h.untouched x hx hgone
      refine ⟨⟨⟨p, .tail _ hp⟩, hnone⟩, fun h' => htx (terminated_cons_finished.mp h'),
        fun q hq => hstart q (mem_old hq (by simp)), ?_⟩
      show (s'.oneShots.erase id).lookup x = s.oneShots.lookup x
      rw [AList.lookup_erase_ne hx, hone]
    · by_cases hx : x = id
      · subst hx
        refine .inr ⟨ht.cons _, fun q hq => ?_⟩
        have hq' := hkept q (mem_old hq (by simp))
        rw [hl] at hq'
        cases hq'
        exact ⟨outcome, .head _⟩
      · obtain ⟨⟨p, hp⟩, hnone⟩ := hgone
        refine (h.ended x hx ⟨⟨p, mem_old hp (by simp)⟩, hnone⟩).imp_right fun hover => ?_
        refine ⟨hover.1.cons _, fun q hq => ?_⟩
        obtain ⟨o, ho⟩ := hover.2 q (mem_old hq (by simp))
        exact ⟨o, .tail _ ho⟩

/-- A request leaves `m_requests`, maybe after changes that concern no outcome. -/
theorem outcome_erase (hs : OutcomeInv s) (hid : (s.requests.lookup id).isSome) {s₁ : B.State}
    (hsame : SameBooks s s₁) :
    OutcomeInv (s₁.cleanupRequest id) ∧ Leaving id s (s₁.cleanupRequest id) := by
  have hdrop := hsame.trans (.dropStream s₁ id)
  have hne : ∀ x, x ≠ id →
      ((s₁.cleanupRequest id).requests.lookup x = none ↔ s.requests.lookup x = none) := by
    intro x hx
    rw [s₁.lookup_cleanupRequest_ne hx, lookup_none_iff hsame]
  refine ⟨hs.of_erase hdrop.history hdrop.oneShots hdrop.pending hdrop.nextPromise fun x hx => ?_,
    .of_erase hs hid hdrop.history hdrop.oneShots (s₁.lookup_cleanupRequest id) hne⟩
  by_cases hxid : x = id
  · rw [hxid]
    exact hid
  · rw [← hsame.requests, ← s₁.lookup_cleanupRequest_ne hxid]
    exact hx

variable {ans : BaseClient.Answers B}

theorem outcome_fail (id error : String) :
    (outcomeContract B).Keeps ans (B.failRequest id error) := by
  intro s hs
  show wp ans (outcomeContract B) (if (s.requests.lookup id).isSome then _ else _ :
    Proc B.Sig Unit) _ s
  by_cases hid : (s.requests.lookup id).isSome
  · rw [if_pos hid]
    have hfull := SameBooks.cleanupFullRequest s id
    obtain ⟨hinv, hleft⟩ := outcome_erase hs hid hfull
    have hends : (ClientSignal.requestFailed id error).Ends id := rfl
    have hlive : ¬Terminated ((s.cleanupFullRequest id).cleanupRequest id).history id := by
      show ¬Terminated ((s.cleanupFullRequest id).dropStream id).history id
      rw [(SameBooks.dropStream _ id).history, hfull.history]
      exact (hs.live hid).2
    have hreport := hinv.report hleft.gone hlive hends
    refine ⟨hreport, fun s₁ hrely hs₁ _ _ => ?_⟩
    have hend := (hleft.report hends).rely hrely
    have hfailed : .emitted (.requestFailed id error) ∈ s₁.history := hrely.history _ (.head _)
    exact ⟨hs₁.finish hend.gone hfailed, hend.finish hs hid (.inr ⟨error, hfailed⟩) _⟩
  · rw [if_neg hid]
    exact ⟨hs, outcome_preorder.refl s⟩

theorem outcome_complete (id : String) :
    (outcomeContract B).Keeps ans (B.completeRequest id) := by
  intro s hs
  refine wp_of_read ?_
  cases hl : s.requests.lookup id with
  | none => exact ⟨hs, outcome_preorder.refl s⟩
  | some r =>
      have hid : (s.requests.lookup id).isSome := by rw [hl]; rfl
      let info := r.finalizeTurn.completionInfo s.settings.model
      obtain ⟨hinv, hleave⟩ := outcome_erase hs hid (.fields s rfl rfl rfl rfl rfl)
      have hlive : ¬Terminated (s.cleanupRequest id).history id := by
        show ¬Terminated (s.dropStream id).history id
        rw [(SameBooks.dropStream _ id).history]
        exact (hs.live hid).2
      have hends : (ClientSignal.requestFinalized id info).Ends id := rfl
      have hfinal := hinv.report hleave.gone hlive hends
      refine ⟨hfinal, fun s₁ hrely₁ hs₁ _ _ => ?_⟩
      have hleave₁ := (hleave.report hends).rely hrely₁
      -- nobody else reports a request that is gone
      have hlive₁ : ¬Terminated s₁.history id := by
        intro ht
        have ht' := (hrely₁.untouched id (hleave.report hends).gone).terminated ht
        exact hlive (Terminated.old (fun t => by simp) (fun e => by simp) ht')
      have hends₁ : (ClientSignal.requestCompleted id info.fullText).Ends id := rfl
      refine ⟨hs₁.report hleave₁.gone hlive₁ hends₁, fun s₂ hrely₂ hs₂ _ _ => ?_⟩
      have hleave₂ := (hleave₁.report hends₁).rely hrely₂
      have hcompleted : .emitted (.requestCompleted id info.fullText) ∈ s₂.history :=
        hrely₂.history _ (.head _)
      have hfinalized : .emitted (.requestFinalized id info) ∈ s₂.history :=
        hrely₂.history _ (.tail _ (hrely₁.history _ (.head _)))
      exact ⟨hs₂.finish hleave₂.gone ⟨hfinalized, hcompleted⟩,
        hleave₂.finish hs hid (.inl ⟨_, hcompleted⟩) _⟩

/-! ### A new request -/

/-- A request with a fresh id is made, with the promise that is pending. -/
theorem outcome_create (hs : OutcomeInv s) (hs' : s' = s ∨ s' = s.promised)
    (hfresh : s.Fresh id) : (outcomeContract B).Moves s (s'.createRequest id) := by
  have hhistory : s'.history = s.history := by rcases hs' with rfl | rfl <;> rfl
  have hrequests : s'.requests = s.requests := by rcases hs' with rfl | rfl <;> rfl
  have honeShots : s'.oneShots = s.oneShots := by rcases hs' with rfl | rfl <;> rfl
  have hnext : s.nextPromise ≤ s'.nextPromise := by
    rcases hs' with rfl | rfl
    · exact le_rfl
    · exact Nat.le_succ _
  -- a promise that is pending is new
  have hpending : ∀ promise ∈ s'.pendingOneShot,
      promise < s'.nextPromise ∧ s.nextPromise ≤ promise := by
    intro promise hp
    rcases hs' with rfl | rfl
    · rw [hs.pending] at hp
      cases hp
    · cases hp
      exact ⟨Nat.lt_succ_self _, le_rfl⟩
  have hunused : ∀ promise ∈ s'.pendingOneShot, ∀ x, .started x (some promise) ∉ s.history :=
    fun promise hp x hx => absurd (hs.issued hx) (not_lt.mpr (hpending promise hp).2)
  have hnone : s.requests.lookup id = none := by
    by_contra hid
    obtain ⟨p, hp⟩ := (hs.live (Option.isSome_iff_ne_none.mpr hid)).1
    exact hfresh p hp
  have hlive : ¬Terminated s.history id := fun ht => by
    obtain ⟨p, hp⟩ := hs.started ht
    exact hfresh p hp
  have hterm : ∀ x, Terminated (s'.createRequest id).history x ↔ Terminated s.history x := by
    intro x
    show Terminated (.started id _ :: s'.history) x ↔ _
    rw [hhistory]
    refine ⟨fun ht => ?_, fun ht => ht.cons _⟩
    exact Terminated.old (fun t => by simp) (fun e => by simp) ht
  have hstart : ∀ {x p}, .started x p ∈ (s'.createRequest id).history ↔
      (x = id ∧ p = s'.pendingOneShot) ∨ .started x p ∈ s.history := by
    intro x p
    show .started x p ∈ ClientObservation.started id _ :: s'.history ↔ _
    rw [hhistory]
    simp
  have hfin : ∀ {p o}, .finished p o ∈ (s'.createRequest id).history ↔
      .finished p o ∈ s.history := by
    intro p o
    show .finished p o ∈ ClientObservation.started id _ :: s'.history ↔ _
    rw [hhistory]
    simp
  have hlookup : ∀ {x}, x ≠ id →
      (s'.createRequest id).requests.lookup x = s.requests.lookup x := by
    intro x hx
    show (s'.requests.insert id {}).lookup x = _
    rw [AList.lookup_insert_ne hx, hrequests]
  have hshots : ∀ {x}, x ≠ id → (s'.createRequest id).oneShots.lookup x = s.oneShots.lookup x := by
    intro x hx
    unfold ClientState.createRequest ClientState.observe
    cases s'.pendingOneShot with
    | none => rw [honeShots]
    | some promise => rw [AList.lookup_insert_ne hx, honeShots]
  have hshot : (s'.createRequest id).oneShots.lookup id = s'.pendingOneShot := by
    unfold ClientState.createRequest ClientState.observe
    cases hp : s'.pendingOneShot with
    | none =>
        rw [honeShots, Option.eq_none_iff_forall_not_mem]
        exact fun promise hp => hfresh _ (hs.oneShot hp).1
    | some promise => exact AList.lookup_insert ..
  refine ⟨⟨?_, rfl, fun {x} hx => ?_, fun {x} ht => ?_, fun {x p} hp => ?_, fun {x p} hp hx => ?_,
    fun {x p} hp => ?_⟩, fun o ho => ?_, fun x hgone => ?_, fun x hgone => ?_⟩
  · refine ordered_cons.mpr ⟨⟨fun p => hhistory ▸ hfresh p, fun promise hp x => ?_⟩,
      hhistory ▸ hs.ordered⟩
    rw [hhistory]
    exact hunused promise hp x
  · by_cases hxid : x = id
    · subst hxid
      exact ⟨⟨_, hstart.mpr (.inl ⟨rfl, rfl⟩)⟩, fun ht => hlive ((hterm x).mp ht)⟩
    · rw [hlookup hxid] at hx
      obtain ⟨⟨p, hp⟩, ht⟩ := hs.live hx
      exact ⟨⟨p, hstart.mpr (.inr hp)⟩, fun h => ht ((hterm x).mp h)⟩
  · obtain ⟨p, hp⟩ := hs.started ((hterm x).mp ht)
    exact ⟨p, hstart.mpr (.inr hp)⟩
  · by_cases hxid : x = id
    · subst hxid
      rw [hshot] at hp
      refine ⟨hstart.mpr (.inl ⟨rfl, hp.symm⟩), fun o ho => ?_⟩
      -- a finished promise has been given to a request
      obtain ⟨later, earlier, hsplit⟩ := List.append_of_mem (hfin.mp ho)
      obtain ⟨-, y, hy, -⟩ := hs.ordered later _ earlier hsplit
      refine hunused p hp y ?_
      rw [hsplit]
      exact List.mem_append_right _ (.tail _ hy)
    · rw [hshots hxid] at hp
      obtain ⟨hst, hf⟩ := hs.oneShot hp
      exact ⟨hstart.mpr (.inr hst), fun o ho => hf o (hfin.mp ho)⟩
  · rcases hstart.mp hp with ⟨rfl, hpend⟩ | hold
    · rw [hshot, hpend]
    · have hxid : x ≠ id := fun hxid => hfresh _ (hxid ▸ hold)
      rw [hshots hxid]
      rw [hlookup hxid] at hx
      exact hs.kept hold hx
  · rcases hstart.mp hp with ⟨rfl, hpend⟩ | hold
    · exact (hpending p hpend.symm).1
    · exact Nat.lt_of_lt_of_le (hs.issued hold) hnext
  · exact .tail _ (hhistory ▸ ho)
  · obtain ⟨⟨p, hp⟩, hx⟩ := hgone
    have hxid : x ≠ id := fun hxid => hfresh _ (hxid ▸ hp)
    refine ⟨⟨⟨p, hstart.mpr (.inr hp)⟩, (hlookup hxid).trans hx⟩, (hterm x).mp, fun q hq => ?_,
      hshots hxid⟩
    exact (hstart.mp hq).resolve_left fun h => hxid h.1
  · obtain ⟨⟨p, hp⟩, hx⟩ := hgone
    have hxid : x ≠ id := by
      rintro rfl
      rw [show (s'.createRequest x).requests.lookup x = _ from AList.lookup_insert ..] at hx
      cases hx
    exact .inl ⟨⟨p, (hstart.mp hp).resolve_left fun h => hxid h.1⟩, (hlookup hxid).symm.trans hx⟩

/-! ### The client keeps the contract -/

theorem outcome_sending (h : (outcomeContract B).Moves s₀ s) (hid : (s.requests.lookup id).isSome)
    (url : String) (payload : JsonObject) (mode : RequestMode) :
    (outcomeContract B).Moves s₀ (s.sendingTo id url payload mode) := by
  have hupdate := (SameBooks.update s id fun r => { r.storeContext url payload with mode }).moves h.1
  refine (h.trans outcome_preorder hupdate).trans outcome_preorder (moves_observe hupdate.1 trivial ?_)
  rw [(SameBooks.update s id _).history]
  exact (h.1.live hid).2

/-- What a round of tools and the end of a turn do concerns no outcome. -/
theorem outcome_continues : B.Continues (outcomeContract B) ans where
  toPreorder := outcome_preorder
  pending hs := hs.pending
  enter hs := hs
  leave h := h
  fail := outcome_fail
  dropStream id hs := (SameBooks.dropStream _ id).moves hs
  countRound id hs := (SameBooks.update _ id _).moves hs
  continued {s id r m} toolResults hs _ _ := by
    have hupdate := (SameBooks.update s id fun r =>
      (r.buildReplayContinuation toolResults).1).moves hs
    exact hupdate.trans outcome_preorder (moves_observe hupdate.1 trivial trivial)
  nextTurn {s id r} payload hs hl := by
    refine outcome_sending ((SameBooks.update s id _).moves hs) ?_ _ payload _
    rw [s.lookup_update, hl]
    rfl
  firstTurn {s s' id} url payload mode hs hs' hfresh := by
    refine outcome_sending (outcome_create hs hs' hfresh) ?_ url payload mode
    rw [show (s'.createRequest id).requests.lookup id = _ from AList.lookup_insert ..]
    rfl
  connect {s id} hs _ := by
    have hupdate := (SameBooks.update s id fun r =>
      { r with stream := some s.nextStream, errorMode := false, errorBody := [] }).moves hs
    have hconnect : (outcomeContract B).Moves s { s.update id fun r =>
        { r with stream := some s.nextStream, errorMode := false, errorBody := [] } with
      streams := s.streams.insert s.nextStream id
      nextStream := s.nextStream + 1 } :=
      hupdate.trans outcome_preorder (moves_fields hupdate.1 rfl rfl rfl rfl rfl)
    exact hconnect.trans outcome_preorder (moves_observe hconnect.1 trivial trivial)
  watchSend {s} id hs := by
    have hwatch : (outcomeContract B).Moves s { s with
        sends := s.sends.insert s.nextSend id
        nextSend := s.nextSend + 1 } := moves_fields hs rfl rfl rfl rfl rfl
    exact hwatch.trans outcome_preorder (moves_observe hwatch.1 trivial trivial)
  track id _ hs := (SameBooks.update _ id _).moves hs

theorem outcome_replaced {text : String} (hs : OutcomeInv s) :
    (outcomeContract B).Moves s (s.replaceText id text) := by
  have hupdate := (SameBooks.update s id fun r =>
    { r with responseContent := r.replacedText text }).moves hs
  exact hupdate.trans outcome_preorder (moves_observe hupdate.1 trivial trivial)

theorem outcome_chunk {chunk : String} (hs : OutcomeInv s) (hid : (s.requests.lookup id).isSome) :
    (outcomeContract B).Moves s
      ((s.appendText id chunk).observe (.emitted (.chunkReceived id chunk))) := by
  have hupdate := (SameBooks.update s id fun r =>
    { r with responseContent := r.responseContent ++ chunk }).moves hs
  have happend : (outcomeContract B).Moves s (s.appendText id chunk) :=
    hupdate.trans outcome_preorder (moves_observe hupdate.1 trivial trivial)
  refine happend.trans outcome_preorder (moves_observe happend.1 trivial ?_)
  refine (happend.1.live ?_).2
  show ((s.update id _).requests.lookup id).isSome
  rw [(SameBooks.update s id _).requests]
  exact hid

theorem outcome_serves : B.Serves (outcomeContract B) ans where
  toSends := outcome_continues.toSends
  chunk {s id r} chunk hs hl := outcome_chunk hs (by rw [hl]; rfl)
  replaced text hs _ := outcome_replaced hs
  thinking id _ _ hs _ _ _ := (SameBooks.update _ id _).moves hs
  signal {s id signal} hs hid hsig := by
    have hlive := (hs.live hid).2
    cases signal with
    | accumulatedReceived => exact moves_observe hs trivial ((show _ = id from hsig) ▸ hlive)
    | thinkingBlockReceived => exact moves_observe hs trivial ((show _ = id from hsig) ▸ hlive)
    | _ => exact hsig.elim
  begun hs _ _ := moves_observe hs trivial trivial

theorem outcome_hosted {α : Type} (p : Proc ToolsSig α) :
    (outcomeContract B).Keeps ans (p.implement B.hostedTools) :=
  outcome_continues.hosted (fun _ _ hs => moves_fields hs rfl rfl rfl rfl rfl) p

theorem outcome_receives (id : String) (ref : Option StreamRef) :
    B.Receives (outcomeContract B) ans id ref fun _ => True where
  toServes := outcome_serves
  guard _ _ := trivial
  beginRound _ _ := outcome_hosted _
  finish f _ := .bind outcome_preorder
    (.modify fun s hs => ((SameBooks.update s id f).trans (.cleanupFullRequest _ id)).moves hs)
    fun _ => outcome_complete id
  stop := .bind outcome_preorder
    (.modify fun s hs => (SameBooks.cleanupFullRequest s id).moves hs) fun _ => outcome_complete id
  applied {s source} message hs _ _ := by
    have hupdate := (SameBooks.update s id fun r => { r with message := some message }).moves hs
    exact hupdate.trans outcome_preorder (moves_observe hupdate.1 trivial trivial)
  account {s source} delta hs _ _ := by
    unfold ClientState.account
    cases hl : s.requests.lookup id with
    | none => exact ⟨hs, outcome_preorder.refl s⟩
    | some r =>
        have hsame : SameBooks s { s with requests := s.requests.insert id (r.applyUsage delta) } :=
          ⟨rfl, fun x => by
            by_cases hx : x = id
            · subst hx
              simp [hl]
            · simp [AList.lookup_insert_ne hx], rfl, rfl, rfl⟩
        exact (hsame.moves hs).trans outcome_preorder (moves_observe (hs.same hsame) trivial trivial)
  framer _ hs _ := (SameBooks.update _ id _).moves hs
  derived _ hs _ := moves_fields hs rfl rfl rfl rfl rfl

/-! ### Every event -/

theorem outcome_enters : B.Enters (outcomeContract B) ans where
  receives := outcome_receives
  settings _ hs := moves_fields hs rfl rfl rfl rfl rfl
  hosted _ := outcome_hosted _
  transport id f _ hs := (SameBooks.update _ id f).moves hs
  tables _ _ _ hs := moves_fields hs rfl rfl rfl rfl rfl
  received _ _ hs := moves_observe hs trivial trivial
  ended _ hs := moves_observe hs trivial trivial

theorem outcome_valid (B : BaseClient) :
    (outcomeContract B).Valid (.only B.machine fun s e => ClientEvent.FreshIn s e) :=
  .of_guarded outcome_preorder
    (fun _ e hs hfresh => outcome_enters.entry hs e hfresh fun _ _ =>
      moves_fields hs rfl rfl rfl rfl rfl)
    fun f _ hs => outcome_hosted (toolsMachine.body f) _ hs

theorem outcome_init (B : BaseClient) : OutcomeInv ({} : B.State) where
  ordered := ordered_nil
  pending := rfl
  live hid := by simp at hid
  started ht := by rcases ht with ⟨_, hm⟩ | ⟨_, hm⟩ <;> cases hm
  oneShot hp := by simp at hp
  kept hp := nomatch hp
  issued hp := nomatch hp

/-- In every run of a client, whatever happens in its slots, each request is reported complete or
failed at most once, nothing is heard or sent of it afterwards, and it is gone; its one-shot
promise is finished at most once, with what was reported, and is finished by the time the
client is idle again. -/
theorem one_outcome (B : BaseClient) {c : Config B.Sig}
    (hrun : Reaches (.only B.machine fun s e => ClientEvent.FreshIn s e) (.idle {}) c)
    (hw : c.Waiting) :
    Ordered OutcomeAllowed c.state.history ∧
      (∀ id, Terminated c.state.history id → c.state.requests.lookup id = none) ∧
      (c.prog = .ret () → ∀ id promise, .started id (some promise) ∈ c.state.history →
        Terminated c.state.history id → ∃ outcome, .finished promise outcome ∈ c.state.history) := by
  have hinv := (outcome_valid B).waiting (outcome_init B) hrun hw
  refine ⟨hinv.ordered, fun id ht => ?_, fun hidle id promise hp ht => ?_⟩
  · by_contra hid
    exact (hinv.live (Option.isSome_iff_ne_none.mpr hid)).2 ht
  · obtain ⟨s, prog⟩ := c
    obtain rfl : prog = .ret () := hidle
    have hrely := ((outcome_valid B).idle (outcome_init B) hrun).2
    have hgone : Gone s id := ⟨⟨_, hp⟩, by
      by_contra hid
      exact (hinv.live (Option.isSome_iff_ne_none.mpr hid)).2 ht⟩
    rcases hrely.ended id hgone with h₀ | hover
    · obtain ⟨⟨_, hm⟩, -⟩ := h₀
      cases hm
    · exact hover.2 promise hp

/-- A codec that reads no text. -/
def blankCodec : JsonCodec := ⟨fun _ => .null, fun _ => ""⟩

/-- The surroundings answer with a stream or with none, and let everything else return. -/
def clientAnswers (stream : Bool) : (e : ClientOut) → Option e.Ans
  | .emit _ | .tools _ | .send .. => some ()
  | .gate _ | .executeAsync .. => some (.ok ())
  | .openStream .. => some stream
  | .terminate => none

/-- A client of the Chat Completions API that reads no text. -/
def blankClient : BaseClient := ⟨openAIClient blankCodec fun _ => [], blankCodec⟩

/-- `askOnce` with a transport that returns no stream. -/
def noStreamScript : List (Move blankClient.machine) :=
  [.event (.askOnce "r" {} [] .streaming), .respond (clientAnswers false),
    .respond (clientAnswers false)]

theorem noStream_playable : Playable
    (.only blankClient.machine fun s e => ClientEvent.FreshIn s e) 9 noStreamScript (.idle {}) :=
  ⟨fun _ hm => (nomatch hm), ⟨_, rfl, trivial⟩, ⟨_, rfl, trivial⟩, trivial⟩

theorem one_outcome_no_stream :
    ∃ outcome, .finished 0 outcome ∈
      (play blankClient.machine 9 noStreamScript (.idle {})).state.history :=
  (one_outcome blankClient (reaches_play noStream_playable) (.inl rfl)).2.2 rfl "r" 0
    (.tail _ (.tail _ (.tail _ (.head _)))) (.inr ⟨_, .tail _ (.head _)⟩)

end LLMQore
