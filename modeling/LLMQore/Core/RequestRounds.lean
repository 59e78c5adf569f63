import LLMQore.Core.RequestOutcome
import LLMQore.Tools.Announcing

/-!
# LLMQore.Core.RequestRounds

The rounds of a request: their texts, and how many there are.

Each HTTP request that is sent for a request begins a round of it. `roundTexts` reads the
texts of the rounds off what an observer sees; the client keeps them in one string, with the
place where the current round begins. It counts the rounds of tools, and sends once for each
that is within the limit.

From the end of a round of tools until the next HTTP request is sent, nothing is called out;
meanwhile the books of that one request are open (`Tallied` with an exception).
-/

namespace LLMQore

open Reentrant Network Tools

/-! ### What the history says of a request -/

/-- The text of a round after a change. -/
def TextEdit.apply : TextEdit → String → String
  | .append chunk, text => text ++ chunk
  | .replace new, _ => new

/-- The texts of the rounds of a request, newest first. -/
def roundTexts (id : String) : List ClientObservation → List String
  | [] => []
  | .sent id' :: h => if id' = id then "" :: roundTexts id h else roundTexts id h
  | .wrote id' edit :: h =>
      if id' = id then (roundTexts id h).modifyHead edit.apply else roundTexts id h
  | _ :: h => roundTexts id h

/-- The text of all rounds, given newest first. -/
def wholeText : List String → String
  | [] => ""
  | text :: earlier => wholeText earlier ++ text

/-- How many HTTP requests were sent for a request. -/
def sentCount (id : String) : List ClientObservation → Nat
  | [] => 0
  | .sent id' :: h => if id' = id then sentCount id h + 1 else sentCount id h
  | _ :: h => sentCount id h

/-- The continuations, newest first: the request of each and the results it is built from. -/
def continuations (h : List ClientObservation) : List (String × ToolResults) :=
  h.filterMap fun
    | .continued id _ toolResults => some (id, toolResults)
    | _ => none

/-- An HTTP request may be sent for a request that was just made, or just continued. -/
def SendableAfter (h : List ClientObservation) (id : String) : Prop :=
  (∃ p h', h = .started id p :: h') ∨
    ∃ message toolResults h', h = .continued id message toolResults :: h' ∧
      ∃ p, .started id p ∈ h'

/-- What may be observed after `h`. -/
def RoundsAllowed (h : List ClientObservation) : ClientObservation → Prop
  | .emitted (.requestFinalized id info) => info.fullText = wholeText (roundTexts id h)
  | .emitted (.requestCompleted id text) => text = wholeText (roundTexts id h)
  | .emitted (.chunkReceived id chunk) => ∃ h', h = .wrote id (.append chunk) :: h'
  | .sent id => SendableAfter h id
  | .started id _ => ∀ p, .started id p ∉ h
  | _ => True

/-- An observation that concerns the rounds of no request. -/
def ClientObservation.Silent : ClientObservation → Prop
  | .started .. | .sent _ | .wrote .. | .continued .. => False
  | _ => True

section History

variable {h : List ClientObservation} {o : ClientObservation} {id id' : String}

@[simp] theorem roundTexts_sent_self : roundTexts id (.sent id :: h) = "" :: roundTexts id h := by
  simp [roundTexts]

theorem roundTexts_sent_ne (hne : id' ≠ id) : roundTexts id (.sent id' :: h) = roundTexts id h := by
  simp [roundTexts, hne]

@[simp] theorem roundTexts_wrote_self (edit : TextEdit) :
    roundTexts id (.wrote id edit :: h) = (roundTexts id h).modifyHead edit.apply := by
  simp [roundTexts]

theorem roundTexts_wrote_ne (hne : id' ≠ id) (edit : TextEdit) :
    roundTexts id (.wrote id' edit :: h) = roundTexts id h := by
  simp [roundTexts, hne]

theorem roundTexts_silent (ho : o.Silent) : roundTexts id (o :: h) = roundTexts id h := by
  cases o <;> first | rfl | exact ho.elim

theorem sentCount_silent (ho : o.Silent) : sentCount id (o :: h) = sentCount id h := by
  cases o <;> first | rfl | exact ho.elim

@[simp] theorem sentCount_sent_self : sentCount id (.sent id :: h) = sentCount id h + 1 := by
  simp [sentCount]

theorem sentCount_sent_ne (hne : id' ≠ id) : sentCount id (.sent id' :: h) = sentCount id h := by
  simp [sentCount, hne]

theorem continuations_silent (ho : o.Silent) : continuations (o :: h) = continuations h := by
  cases o <;> first | rfl | exact ho.elim

theorem started_silent (ho : o.Silent) {p : Option PromiseRef} :
    .started id p ∈ o :: h ↔ .started id p ∈ h := by
  refine ⟨fun hm => mem_old hm ?_, .tail _⟩
  rintro rfl
  exact ho

/-- The texts of the rounds that are over stay. -/
theorem tail_roundTexts_suffix (id : String) (later h : List ClientObservation) :
    (roundTexts id h).tail <:+ (roundTexts id (later ++ h)).tail := by
  induction later with
  | nil => exact List.suffix_refl _
  | cons o later ih =>
      rw [List.cons_append]
      cases o with
      | sent id' =>
          by_cases hid : id' = id
          · subst hid
            rw [roundTexts_sent_self]
            exact ih.trans (List.tail_suffix _)
          · rwa [roundTexts_sent_ne hid]
      | wrote id' edit =>
          by_cases hid : id' = id
          · subst hid
            rw [roundTexts_wrote_self, List.tail_modifyHead]
            exact ih
          · rwa [roundTexts_wrote_ne hid]
      | _ => exact ih

/-- Nothing is sent for a request that was not made. -/
theorem started_of_sent (hord : Ordered RoundsAllowed h) (hsent : sentCount id h ≠ 0) :
    ∃ p, .started id p ∈ h := by
  induction h with
  | nil => exact absurd rfl hsent
  | cons o h ih =>
      obtain ⟨ho, hord⟩ := ordered_cons.mp hord
      have hold : sentCount id h ≠ 0 → ∃ p, .started id p ∈ o :: h := fun hne =>
        (ih hord hne).imp fun _ hm => .tail _ hm
      cases o with
      | sent id' =>
          by_cases hid : id' = id
          · subst hid
            rcases ho with ⟨p, h', rfl⟩ | ⟨m, results, h', rfl, p, hp⟩
            · exact ⟨p, .tail _ (.head _)⟩
            · exact ⟨p, .tail _ (.tail _ hp)⟩
          · rw [sentCount_sent_ne hid] at hsent
            exact hold hsent
      | _ => exact hold hsent

theorem roundTexts_of_unsent (hsent : sentCount id h = 0) : roundTexts id h = [] := by
  induction h with
  | nil => rfl
  | cons o h ih =>
      cases o with
      | sent id' =>
          by_cases hid : id' = id
          · subst hid
            rw [sentCount_sent_self] at hsent
            cases hsent
          · rw [sentCount_sent_ne hid] at hsent
            rw [roundTexts_sent_ne hid]
            exact ih hsent
      | wrote id' edit =>
          by_cases hid : id' = id
          · subst hid
            rw [roundTexts_wrote_self, ih hsent]
            rfl
          · rw [roundTexts_wrote_ne hid]
            exact ih hsent
      | _ => exact ih hsent

/-- How often a request was made. -/
def startedCount (id : String) : List ClientObservation → Nat
  | [] => 0
  | .started id' _ :: h => if id' = id then startedCount id h + 1 else startedCount id h
  | _ :: h => startedCount id h

/-- How many continuations were built for a request. -/
def continuedCount (id : String) : List ClientObservation → Nat
  | [] => 0
  | .continued id' _ _ :: h => if id' = id then continuedCount id h + 1 else continuedCount id h
  | _ :: h => continuedCount id h

/-- Is an HTTP request for the request due? -/
def sendsDue (id : String) : List ClientObservation → Nat
  | .started id' _ :: _ | .continued id' _ _ :: _ => if id' = id then 1 else 0
  | _ => 0

theorem continuedCount_eq (id : String) (h : List ClientObservation) :
    continuedCount id h = (continuations h).countP (·.1 = id) := by
  induction h with
  | nil => rfl
  | cons o h ih =>
      cases o with
      | continued id' m results =>
          by_cases hid : id' = id
          · simp [continuedCount, continuations, hid, ih]
          · simp [continuedCount, continuations, hid, ih]
      | _ => exact ih

theorem sentCount_add_due (hord : Ordered RoundsAllowed h) :
    sentCount id h + sendsDue id h ≤ startedCount id h + continuedCount id h := by
  induction h with
  | nil => exact le_rfl
  | cons o h ih =>
      obtain ⟨ho, hord⟩ := ordered_cons.mp hord
      have hold := ih hord
      cases o with
      | sent id' =>
          by_cases hid : id' = id
          · subst hid
            -- what was due is paid
            have hdue : sendsDue id' h = 1 := by
              rcases ho with ⟨p, h', rfl⟩ | ⟨m, results, h', rfl, -⟩ <;> simp [sendsDue]
            simp only [sentCount_sent_self, sendsDue, startedCount, continuedCount]
            omega
          · simp only [sentCount_sent_ne hid, sendsDue, startedCount, continuedCount]
            omega
      | started id' p =>
          simp only [sentCount, sendsDue, startedCount, continuedCount]
          split <;> omega
      | continued id' m results =>
          simp only [sentCount, sendsDue, startedCount, continuedCount]
          split <;> omega
      | _ =>
          simp only [sentCount, sendsDue, startedCount, continuedCount]
          omega

theorem startedCount_eq_zero (hnot : ∀ p, .started id p ∉ h) : startedCount id h = 0 := by
  induction h with
  | nil => rfl
  | cons o h ih =>
      have hold := ih fun p hp => hnot p (.tail _ hp)
      cases o with
      | started id' p =>
          have hne : id' ≠ id := fun hid => hnot p (hid ▸ .head _)
          simp [startedCount, hne, hold]
      | _ => exact hold

theorem startedCount_le (hord : Ordered RoundsAllowed h) : startedCount id h ≤ 1 := by
  induction h with
  | nil => exact Nat.zero_le _
  | cons o h ih =>
      obtain ⟨ho, hrest⟩ := ordered_cons.mp hord
      cases o with
      | started id' p =>
          by_cases hid : id' = id
          · subst hid
            simp [startedCount, startedCount_eq_zero ho]
          · simpa [startedCount, hid] using ih hrest
      | _ => exact ih hrest

/-- One HTTP request is sent when a request is made, and at most one for each continuation. -/
theorem sentCount_le (hord : Ordered RoundsAllowed h) :
    sentCount id h ≤ 1 + (continuations h).countP (·.1 = id) := by
  have hdue : sentCount id h + sendsDue id h ≤ startedCount id h + continuedCount id h :=
    sentCount_add_due hord
  have hstarted : startedCount id h ≤ 1 := startedCount_le hord
  rw [continuedCount_eq] at hdue
  omega

end History

/-! ### The books of the requests -/

variable {B : BaseClient} {s s' s₀ : B.State} {id : String} {W X : String → Prop}

/-- The text of a request is that of its rounds, and the current one begins where the earlier
ones end. -/
def KeepsText (texts : List String) (r : ActiveRequest B.provider) : Prop :=
  ∃ current earlier, texts = current :: earlier ∧
    r.responseContent = wholeText earlier ++ current ∧
    r.roundTextOffset = (wholeText earlier).length

/-- What the client keeps of the rounds of a request is right. -/
structure Tally (h : List ClientObservation) (id : String) (r : ActiveRequest B.provider) :
    Prop where
  text : KeepsText (roundTexts id h) r
  sent : sentCount id h = 1 + r.toolRounds

/-- What holds whenever the client waits for its surroundings, but for the tallies of the
requests in `X`. The limit does not change once one of the requests in `W` is made. -/
structure Tallied (W X : String → Prop) (s : B.State) : Prop where
  allowed : Ordered RoundsAllowed s.history
  pending : s.pendingOneShot = none
  limit : 1 ≤ s.maxToolRounds
  started : ∀ {id}, (s.requests.lookup id).isSome → ∃ p, .started id p ∈ s.history
  tally : ∀ {id r}, ¬X id → s.requests.lookup id = some r → Tally s.history id r
  bounded : ∀ {id}, W id → (∃ p, .started id p ∈ s.history) →
    (sentCount id s.history : Int) ≤ 1 + s.maxToolRounds
  matched : (continuations s.history).Sublist (completions s.toolsManager.history)

/-- A request that is gone stays so, and its texts with it. -/
structure TallyRely (s s' : B.State) : Prop where
  history : ∀ o ∈ s.history, o ∈ s'.history
  gone : ∀ id, Gone s id →
    Gone s' id ∧ roundTexts id s'.history = roundTexts id s.history

theorem TallyRely.refl (s : B.State) : TallyRely s s := ⟨fun _ ho => ho, fun _ hgone => ⟨hgone, rfl⟩⟩

theorem TallyRely.trans {s₁ s₂ s₃ : B.State} (h₁ : TallyRely s₁ s₂) (h₂ : TallyRely s₂ s₃) :
    TallyRely s₁ s₃ where
  history o ho := h₂.history o (h₁.history o ho)
  gone id hgone := by
    obtain ⟨hgone₂, heq₂⟩ := h₁.gone id hgone
    obtain ⟨hgone₃, heq₃⟩ := h₂.gone id hgone₂
    exact ⟨hgone₃, heq₃.trans heq₂⟩

/-- The contract of the client about the rounds of its requests. -/
def tallyContract (B : BaseClient) (W : String → Prop) : Contract B.Sig where
  inv := Tallied W fun _ => False
  rely := TallyRely
  pre _ := Tallied W fun _ => False
  post _ s _ s' := Tallied W (fun _ => False) s' ∧ TallyRely s s'

theorem tally_preorder : (tallyContract B W).Preorder := ⟨TallyRely.refl, TallyRely.trans⟩

/-! ### Updates that concern no round -/

/-- The states agree on all that the books depend on, and requests may have left. -/
structure SameTally (s s' : B.State) : Prop where
  history : s'.history = s.history
  pending : s'.pendingOneShot = s.pendingOneShot
  limit : s'.maxToolRounds = s.maxToolRounds
  requests : ∀ {id r'}, s'.requests.lookup id = some r' → ∃ r, s.requests.lookup id = some r ∧
    r'.responseContent = r.responseContent ∧ r'.roundTextOffset = r.roundTextOffset ∧
    r'.toolRounds = r.toolRounds
  completed : Recorded s.toolsManager s'.toolsManager

theorem SameTally.trans {s₁ s₂ s₃ : B.State} (h₁ : SameTally s₁ s₂) (h₂ : SameTally s₂ s₃) :
    SameTally s₁ s₃ where
  history := h₂.history.trans h₁.history
  pending := h₂.pending.trans h₁.pending
  limit := h₂.limit.trans h₁.limit
  requests hl := by
    obtain ⟨r₂, hl₂, htext₂, hoffset₂, hrounds₂⟩ := h₂.requests hl
    obtain ⟨r₁, hl₁, htext₁, hoffset₁, hrounds₁⟩ := h₁.requests hl₂
    exact ⟨r₁, hl₁, htext₂.trans htext₁, hoffset₂.trans hoffset₁, hrounds₂.trans hrounds₁⟩
  completed := h₁.completed.trans h₂.completed

/-- An update outside the requests. -/
theorem SameTally.fields (s : B.State) {s' : B.State} (hrequests : s'.requests = s.requests)
    (hhistory : s'.history = s.history) (hpending : s'.pendingOneShot = s.pendingOneShot)
    (hlimit : s'.maxToolRounds = s.maxToolRounds)
    (hcompleted : Recorded s.toolsManager s'.toolsManager) : SameTally s s' where
  history := hhistory
  pending := hpending
  limit := hlimit
  requests {_ r'} hl := ⟨r', hrequests ▸ hl, rfl, rfl, rfl⟩
  completed := hcompleted

theorem SameTally.update (s : B.State) (id : String)
    {f : ActiveRequest B.provider → ActiveRequest B.provider}
    (hf : ∀ r, (f r).responseContent = r.responseContent ∧
      (f r).roundTextOffset = r.roundTextOffset ∧ (f r).toolRounds = r.toolRounds) :
    SameTally s (s.update id f) := by
  refine ⟨s.history_update id f, s.pendingOneShot_update id f, s.maxToolRounds_update id f,
    fun {x r'} hl => ?_, by rw [s.toolsManager_update]; exact .refl _⟩
  by_cases hx : x = id
  · subst hx
    rw [s.lookup_update] at hl
    obtain ⟨r, hr, rfl⟩ := Option.map_eq_some_iff.mp hl
    exact ⟨r, hr, hf r⟩
  · rw [s.lookup_update_ne hx] at hl
    exact ⟨r', hl, rfl, rfl, rfl⟩

theorem SameTally.dropStream (s : B.State) (id : String) : SameTally s (s.dropStream id) := by
  unfold ClientState.dropStream
  cases (s.requests.lookup id).bind (·.stream) with
  | none => exact .fields s rfl rfl rfl rfl (.refl _)
  | some ref =>
      have hupdate := SameTally.update s id (f := fun r => { r with stream := none })
        fun r => ⟨rfl, rfl, rfl⟩
      exact hupdate.trans (.fields _ rfl rfl rfl rfl (.refl _))

theorem SameTally.cleanupRequest (s : B.State) (id : String) :
    SameTally s (s.cleanupRequest id) := by
  have hdrop := SameTally.dropStream s id
  refine ⟨hdrop.history, hdrop.pending, hdrop.limit, fun {x r'} hl => hdrop.requests ?_,
    hdrop.completed⟩
  have hx : x ≠ id := by
    rintro rfl
    rw [s.lookup_cleanupRequest] at hl
    cases hl
  exact (AList.lookup_erase_ne hx).symm.trans hl

theorem SameTally.cleanupFullRequest (s : B.State) (id : String) :
    SameTally s (s.cleanupFullRequest id) := by
  have hretire : SameTally s (s.update id ActiveRequest.retire) :=
    .update s id fun r => ⟨rfl, rfl, rfl⟩
  exact ⟨hretire.history, hretire.pending, hretire.limit, hretire.requests,
    logs_announced.cleanupRequest _ id⟩

theorem Tally.same {h : List ClientObservation} {r r' : ActiveRequest B.provider}
    (hr : Tally h id r) (htext : r'.responseContent = r.responseContent)
    (hoffset : r'.roundTextOffset = r.roundTextOffset) (hrounds : r'.toolRounds = r.toolRounds) :
    Tally h id r' := by
  obtain ⟨current, earlier, htexts, hcontent, hbegin⟩ := hr.text
  exact ⟨⟨current, earlier, htexts, htext.trans hcontent, hoffset.trans hbegin⟩,
    by rw [hrounds, hr.sent]⟩

theorem Tallied.same (hs : Tallied W X s) (h : SameTally s s') : Tallied W X s' where
  allowed := h.history ▸ hs.allowed
  pending := h.pending.trans hs.pending
  limit := by rw [h.limit]; exact hs.limit
  started {id} hid := by
    obtain ⟨r', hl⟩ := Option.isSome_iff_exists.mp hid
    obtain ⟨r, hr, -⟩ := h.requests hl
    rw [h.history]
    exact hs.started (by rw [hr]; rfl)
  tally hx hl := by
    obtain ⟨r, hr, htext, hoffset, hrounds⟩ := h.requests hl
    rw [h.history]
    exact (hs.tally hx hr).same htext hoffset hrounds
  bounded hw hp := by
    rw [h.history] at hp ⊢
    rw [h.limit]
    exact hs.bounded hw hp
  matched := by
    rw [h.history]
    exact hs.matched.trans h.completed

theorem TallyRely.same (h : SameTally s s') : TallyRely s s' where
  history o ho := by rwa [h.history]
  gone id hgone := by
    refine ⟨⟨by rw [h.history]; exact hgone.1, ?_⟩, by rw [h.history]⟩
    by_contra hid
    obtain ⟨r', hl⟩ := Option.ne_none_iff_exists'.mp hid
    obtain ⟨r, hr, -⟩ := h.requests hl
    rw [hgone.2] at hr
    cases hr

theorem SameTally.moves (h : SameTally s s') (hs : Tallied W (fun _ => False) s) :
    (tallyContract B W).Moves s s' :=
  ⟨hs.same h, .same h⟩

theorem tally_fields (hs : Tallied W (fun _ => False) s) (hrequests : s'.requests = s.requests)
    (hhistory : s'.history = s.history) (hpending : s'.pendingOneShot = s.pendingOneShot)
    (hlimit : s'.maxToolRounds = s.maxToolRounds)
    (hcompleted : Recorded s.toolsManager s'.toolsManager) : (tallyContract B W).Moves s s' :=
  (SameTally.fields s hrequests hhistory hpending hlimit hcompleted).moves hs

/-! ### Observations -/

theorem Tallied.observe (hs : Tallied W X s) {o : ClientObservation} (ho : o.Silent)
    (hallowed : RoundsAllowed s.history o) : Tallied W X (s.observe o) where
  allowed := ordered_cons.mpr ⟨hallowed, hs.allowed⟩
  pending := hs.pending
  limit := hs.limit
  started hid := (hs.started hid).imp fun _ hm => .tail _ hm
  tally hx hl := by
    have hr := hs.tally hx hl
    refine ⟨?_, (sentCount_silent ho).trans hr.sent⟩
    rw [ClientState.history_observe, roundTexts_silent ho]
    exact hr.text
  bounded hw hp := by
    rw [ClientState.history_observe, sentCount_silent ho]
    exact hs.bounded hw (hp.imp fun _ hm => (started_silent ho).mp hm)
  matched := by
    rw [ClientState.history_observe, continuations_silent ho]
    exact hs.matched

/-- Something is observed of no request that is gone. -/
theorem TallyRely.observe {o : ClientObservation}
    (ho : ∀ id, Gone s id → roundTexts id (o :: s.history) = roundTexts id s.history) :
    TallyRely s (s.observe o) where
  history _ hm := .tail _ hm
  gone id hgone := ⟨⟨hgone.1.imp fun _ hm => .tail _ hm, hgone.2⟩, ho id hgone⟩

theorem tally_observe (hs : Tallied W (fun _ => False) s) {o : ClientObservation} (ho : o.Silent)
    (hallowed : RoundsAllowed s.history o) : (tallyContract B W).Moves s (s.observe o) :=
  ⟨hs.observe ho hallowed, .observe fun _ _ => roundTexts_silent ho⟩

/-- An update and an observation that concern no round. -/
theorem tally_note (h : SameTally s s') (hs : Tallied W (fun _ => False) s)
    {o : ClientObservation} (ho : o.Silent) (hallowed : RoundsAllowed s.history o) :
    (tallyContract B W).Moves s (s'.observe o) := by
  have hsame := h.moves hs
  refine hsame.trans tally_preorder (tally_observe hsame.1 ho ?_)
  rw [h.history]
  exact hallowed

/-! ### Text -/

section Text

variable {texts : List String} {r : ActiveRequest B.provider}

theorem KeepsText.roundText (h : KeepsText texts r) : texts.head? = some r.roundText := by
  obtain ⟨current, earlier, rfl, htext, hoffset⟩ := h
  rw [ActiveRequest.roundText, midChars, htext, hoffset, String.toList_append,
    ← String.length_toList, List.drop_left, String.ofList_toList]
  rfl

theorem KeepsText.whole (h : KeepsText texts r) : r.responseContent = wholeText texts := by
  obtain ⟨current, earlier, rfl, htext, -⟩ := h
  exact htext

theorem KeepsText.append (h : KeepsText texts r) (chunk : String) :
    KeepsText (texts.modifyHead (TextEdit.append chunk).apply)
      { r with responseContent := r.responseContent ++ chunk } := by
  obtain ⟨current, earlier, rfl, htext, hoffset⟩ := h
  refine ⟨current ++ chunk, earlier, rfl, ?_, hoffset⟩
  show r.responseContent ++ chunk = _
  rw [htext, String.append_assoc]

/-- What stands before the current round is kept. -/
theorem KeepsText.replace (h : KeepsText texts r) (text : String) :
    KeepsText (texts.modifyHead (TextEdit.replace text).apply)
      { r with responseContent := r.replacedText text } := by
  obtain ⟨current, earlier, rfl, htext, hoffset⟩ := h
  refine ⟨text, earlier, rfl, ?_, hoffset⟩
  show r.replacedText text = _
  rw [ActiveRequest.replacedText, leftChars, htext, hoffset, String.toList_append,
    ← String.length_toList, List.take_left, String.ofList_toList]

/-- The next round begins where the text ends. -/
theorem KeepsText.next (h : KeepsText texts r) {r' : ActiveRequest B.provider}
    (htext : r'.responseContent = r.responseContent)
    (hoffset : r'.roundTextOffset = r.responseContent.length) : KeepsText ("" :: texts) r' := by
  refine ⟨"", texts, rfl, ?_, ?_⟩
  · rw [htext, h.whole, String.append_empty]
  · rw [hoffset, h.whole]

end Text

/-- The text of a request that is there changes. -/
theorem tally_wrote (hs : Tallied W (fun _ => False) s) (hid : (s.requests.lookup id).isSome)
    (edit : TextEdit) {f : ActiveRequest B.provider → ActiveRequest B.provider}
    (htext : ∀ {texts r}, KeepsText texts r → KeepsText (texts.modifyHead edit.apply) (f r))
    (hrounds : ∀ r, (f r).toolRounds = r.toolRounds) :
    (tallyContract B W).Moves s ((s.update id f).observe (.wrote id edit)) := by
  have hhistory := s.history_update id f
  have hlive : ∀ x, ((s.update id f).requests.lookup x).isSome = (s.requests.lookup x).isSome :=
    (SameBooks.update s id f).requests
  refine ⟨?_, fun o ho => ?_, fun x hgone => ?_⟩
  · refine ⟨ordered_cons.mpr ⟨trivial, hhistory ▸ hs.allowed⟩, ?_, ?_, fun {x} hx => ?_,
      fun {x r'} _ hl => ?_, fun {x} hw hp => ?_, ?_⟩
    · exact (s.pendingOneShot_update id f).trans hs.pending
    · exact hs.limit.trans_eq (s.maxToolRounds_update id f).symm
    · obtain ⟨p, hp⟩ := hs.started ((hlive x).symm.trans hx)
      exact ⟨p, .tail _ (hhistory ▸ hp)⟩
    · rw [ClientState.history_observe, hhistory]
      rw [ClientState.requests_observe] at hl
      by_cases hx : x = id
      · subst hx
        rw [s.lookup_update] at hl
        obtain ⟨r, hr, rfl⟩ := Option.map_eq_some_iff.mp hl
        have htally := hs.tally not_false hr
        refine ⟨?_, htally.sent.trans (by rw [hrounds])⟩
        rw [roundTexts_wrote_self]
        exact htext htally.text
      · rw [s.lookup_update_ne hx] at hl
        have htally := hs.tally not_false hl
        refine ⟨?_, htally.sent⟩
        rw [roundTexts_wrote_ne (Ne.symm hx)]
        exact htally.text
    · show (sentCount x (s.update id f).history : Int) ≤ 1 + (s.update id f).maxToolRounds
      rw [hhistory, s.maxToolRounds_update]
      refine hs.bounded hw (hp.imp fun _ hm => ?_)
      exact hhistory ▸ mem_old hm (by simp)
    · show (continuations (s.update id f).history).Sublist
        (completions (s.update id f).toolsManager.history)
      rw [hhistory, s.toolsManager_update]
      exact hs.matched
  · exact .tail _ (hhistory ▸ ho)
  · have hx : x ≠ id := by
      rintro rfl
      rw [hgone.2] at hid
      cases hid
    refine ⟨⟨?_, ?_⟩, ?_⟩
    · exact hgone.1.imp fun _ hm => .tail _ (hhistory ▸ hm)
    · exact (s.lookup_update_ne hx f).trans hgone.2
    · rw [ClientState.history_observe, hhistory, roundTexts_wrote_ne (Ne.symm hx)]

/-! ### The end of a request -/

variable {ans : BaseClient.Answers B}

theorem tally_finishOneShot (hs : Tallied W (fun _ => False) s) (id : String)
    (outcome : OneShotOutcome) : (tallyContract B W).Moves s (s.finishOneShot id outcome) := by
  rcases finishOneShot_cases s id outcome with ⟨-, heq⟩ | ⟨promise, -, heq⟩
  · rw [heq]
    exact ⟨hs, .refl s⟩
  · rw [heq]
    have herase : SameTally s { s with oneShots := s.oneShots.erase id } :=
      .fields s rfl rfl rfl rfl (.refl _)
    exact tally_note (o := .finished promise outcome) herase hs trivial trivial

/-- The books are in order again when the request whose books are open has left. -/
theorem Tallied.cleanup (hs : Tallied W (· = id) s) (h : SameTally s s') :
    Tallied W (fun _ => False) (s'.cleanupRequest id) := by
  have hleft := hs.same (h.trans (.cleanupRequest s' id))
  refine ⟨hleft.allowed, hleft.pending, hleft.limit, hleft.started, fun {x r} _ hl => ?_,
    hleft.bounded, hleft.matched⟩
  refine hleft.tally ?_ hl
  rintro rfl
  rw [s'.lookup_cleanupRequest] at hl
  cases hl

/-- A request fails whose books are open. -/
theorem tally_failRequest (hs : Tallied W (· = id) s) (hid : (s.requests.lookup id).isSome)
    (hrely : TallyRely s₀ s) (error : String) :
    (tallyContract B W).KeepsFrom ans s₀ (B.failRequest id error) s := by
  show (tallyContract B W).KeepsFrom ans s₀ (if (s.requests.lookup id).isSome then _ else _ :
    Proc B.Sig Unit) s
  rw [if_pos hid]
  have hfull := SameTally.cleanupFullRequest s id
  have hleft := hs.cleanup hfull
  have hmoved : (tallyContract B W).Moves s₀ ((s.cleanupFullRequest id).cleanupRequest id) :=
    ⟨hleft, hrely.trans (.same (hfull.trans (.cleanupRequest _ id)))⟩
  have hreport := hmoved.trans tally_preorder
    (tally_observe hleft (o := .emitted (.requestFailed id error)) trivial trivial)
  refine ⟨hreport.1, fun s₁ hrely₁ hs₁ _ _ => ?_⟩
  exact hreport.trans tally_preorder
    (Contract.Moves.trans tally_preorder ⟨hs₁, hrely₁⟩ (tally_finishOneShot hs₁ id _))

theorem Tallied.weaken (hs : Tallied W (fun _ => False) s) (id : String) : Tallied W (· = id) s :=
  ⟨hs.allowed, hs.pending, hs.limit, hs.started, fun _ hl => hs.tally not_false hl, hs.bounded,
    hs.matched⟩

theorem tally_fail (id error : String) : (tallyContract B W).Keeps ans (B.failRequest id error) := by
  intro s hs
  by_cases hid : (s.requests.lookup id).isSome
  · exact tally_failRequest (Tallied.weaken hs id) hid (.refl s) error
  · show wp ans (tallyContract B W) (if (s.requests.lookup id).isSome then _ else _ :
      Proc B.Sig Unit) _ s
    rw [if_neg hid]
    exact ⟨hs, .refl s⟩

/-- A request is complete: what is reported is the text of all its rounds. -/
theorem tally_complete (id : String) : (tallyContract B W).Keeps ans (B.completeRequest id) := by
  intro s hs
  refine wp_of_read ?_
  cases hl : s.requests.lookup id with
  | none => exact ⟨hs, .refl s⟩
  | some r =>
      let info := r.finalizeTurn.completionInfo s.settings.model
      have hwhole : info.fullText = wholeText (roundTexts id s.history) :=
        (r.responseContent_finalizeTurn).trans (hs.tally not_false hl).text.whole
      have hsame := SameTally.cleanupRequest s id
      have hgone : Gone (s.cleanupRequest id) id := by
        refine ⟨?_, s.lookup_cleanupRequest id⟩
        rw [hsame.history]
        exact hs.started (by rw [hl]; rfl)
      have hfinal := tally_note (o := .emitted (.requestFinalized id info)) hsame hs trivial hwhole
      refine ⟨hfinal.1, fun s₁ hrely₁ hs₁ _ _ => ?_⟩
      -- nobody writes for a request that is gone
      have htexts : roundTexts id s₁.history = roundTexts id s.history := by
        refine (hrely₁.gone id ⟨?_, hgone.2⟩).2.trans ?_
        · exact hgone.1.imp fun _ hm => .tail _ hm
        · rw [ClientState.history_observe, roundTexts_silent (o := .emitted _) trivial,
            hsame.history]
      have hcompleted := tally_observe (o := .emitted (.requestCompleted id info.fullText)) hs₁
        trivial (hwhole.trans (by rw [htexts]))
      refine ⟨hcompleted.1, fun s₂ hrely₂ hs₂ _ _ => ?_⟩
      have hmoved := (hfinal.trans tally_preorder ⟨hs₁, hrely₁⟩).trans tally_preorder
        (hcompleted.trans tally_preorder ⟨hs₂, hrely₂⟩)
      exact hmoved.trans tally_preorder (tally_finishOneShot hs₂ id _)

/-! ### Sending -/

/-- Any change of the request whose books are open. -/
theorem Tallied.update (hs : Tallied W (· = id) s)
    (f : ActiveRequest B.provider → ActiveRequest B.provider) :
    Tallied W (· = id) (s.update id f) := by
  refine ⟨?_, ?_, ?_, fun {x} hx => ?_, fun {x r} hx hl => ?_, fun hw hp => ?_, ?_⟩
  · simpa using hs.allowed
  · simpa using hs.pending
  · simpa using hs.limit
  · rw [s.history_update]
    exact hs.started (((SameBooks.update s id f).requests x).symm.trans hx)
  · rw [s.lookup_update_ne hx] at hl
    rw [s.history_update]
    exact hs.tally hx hl
  · rw [s.history_update] at hp ⊢
    rw [s.maxToolRounds_update]
    exact hs.bounded hw hp
  · simpa using hs.matched

theorem TallyRely.update (s : B.State) (id : String)
    (f : ActiveRequest B.provider → ActiveRequest B.provider) : TallyRely s (s.update id f) := by
  refine ⟨fun o ho => by rwa [s.history_update], fun x hgone => ?_⟩
  exact ⟨(SameBooks.update s id f).gone.mpr hgone, by rw [s.history_update]⟩

/-- An HTTP request is about to be sent, and the books of its request are closed. -/
theorem Tallied.send (hs : Tallied W (· = id) s) (hsendable : SendableAfter s.history id)
    {r : ActiveRequest B.provider} (hl : s.requests.lookup id = some r)
    (htext : KeepsText ("" :: roundTexts id s.history) r)
    (hcount : sentCount id s.history = r.toolRounds)
    (hlimit : W id → (r.toolRounds : Int) ≤ s.maxToolRounds) :
    Tallied W (fun _ => False) (s.observe (.sent id)) := by
  refine ⟨ordered_cons.mpr ⟨hsendable, hs.allowed⟩, hs.pending, hs.limit, fun hx => ?_,
    fun {x r'} _ hx => ?_, fun {x} hw hp => ?_, hs.matched⟩
  · exact (hs.started hx).imp fun _ hm => .tail _ hm
  · rw [ClientState.requests_observe] at hx
    rw [ClientState.history_observe]
    by_cases hid : x = id
    · subst hid
      rw [hl] at hx
      cases hx
      exact ⟨by rwa [roundTexts_sent_self], by rw [sentCount_sent_self, hcount, Nat.add_comm]⟩
    · have htally := hs.tally hid hx
      refine ⟨?_, (sentCount_sent_ne (Ne.symm hid)).trans htally.sent⟩
      rw [roundTexts_sent_ne (Ne.symm hid)]
      exact htally.text
  · rw [ClientState.history_observe]
    by_cases hid : x = id
    · subst hid
      have hmax := hlimit hw
      show ((sentCount x (.sent x :: s.history) : Nat) : Int) ≤ 1 + s.maxToolRounds
      rw [sentCount_sent_self, hcount]
      omega
    · rw [sentCount_sent_ne (Ne.symm hid)]
      exact hs.bounded hw (hp.imp fun _ hm => mem_old hm (by simp))

theorem TallyRely.send (s : B.State) (hid : (s.requests.lookup id).isSome) :
    TallyRely s (s.observe (.sent id)) := by
  refine .observe fun x hgone => roundTexts_sent_ne ?_
  rintro rfl
  rw [hgone.2] at hid
  cases hid

/-- A request is made, and its first HTTP request is about to be sent. -/
theorem tally_create (hs : Tallied W (fun _ => False) s) (hs' : s' = s ∨ s' = s.promised)
    (hfresh : s.Fresh id) (url : String) (payload : JsonObject) (mode : RequestMode) :
    (tallyContract B W).Moves s ((s'.createRequest id).sendingTo id url payload mode) := by
  have hhistory : s'.history = s.history := by rcases hs' with rfl | rfl <;> rfl
  have hrequests : s'.requests = s.requests := by rcases hs' with rfl | rfl <;> rfl
  have hlimit : s'.maxToolRounds = s.maxToolRounds := by rcases hs' with rfl | rfl <;> rfl
  have htools : s'.toolsManager = s.toolsManager := by rcases hs' with rfl | rfl <;> rfl
  have hunsent : sentCount id s.history = 0 := by
    by_contra hsent
    obtain ⟨p, hp⟩ := started_of_sent hs.allowed hsent
    exact hfresh p hp
  have hother : ∀ {x}, x ≠ id →
      (s'.createRequest id).requests.lookup x = s.requests.lookup x := by
    intro x hx
    show (s'.requests.insert id {}).lookup x = _
    rw [AList.lookup_insert_ne hx, hrequests]
  have hmade : (s'.createRequest id).history = .started id s'.pendingOneShot :: s.history := by
    show ClientObservation.started id s'.pendingOneShot :: s'.history = _
    rw [hhistory]
  have hcreated : Tallied W (· = id) (s'.createRequest id) := by
    refine ⟨?_, rfl, ?_, fun {x} hx => ?_, fun {x r} hx hl => ?_, fun {x} hw hp => ?_, ?_⟩
    · rw [hmade]
      exact ordered_cons.mpr ⟨hfresh, hs.allowed⟩
    · show 1 ≤ s'.maxToolRounds
      rw [hlimit]
      exact hs.limit
    · rw [hmade]
      by_cases hid : x = id
      · subst hid
        exact ⟨_, .head _⟩
      · rw [hother hid] at hx
        exact (hs.started hx).imp fun _ hm => .tail _ hm
    · rw [hother hx] at hl
      rw [hmade]
      exact ⟨(hs.tally not_false hl).text, (hs.tally not_false hl).sent⟩
    · show (sentCount x (s'.createRequest id).history : Int) ≤ 1 + s'.maxToolRounds
      rw [hmade] at hp ⊢
      rw [hlimit]
      show (sentCount x s.history : Int) ≤ 1 + s.maxToolRounds
      by_cases hid : x = id
      · have hmax := hs.limit
        rw [hid, hunsent]
        omega
      · refine hs.bounded hw (hp.imp fun _ hm => mem_old hm fun heq => hid ?_)
        cases heq
        rfl
    · rw [hmade]
      show (continuations s.history).Sublist (completions s'.toolsManager.history)
      rw [htools]
      exact hs.matched
  have hrely : TallyRely s (s'.createRequest id) := by
    refine ⟨fun o ho => ?_, fun x hgone => ?_⟩
    · rw [hmade]
      exact .tail _ ho
    · obtain ⟨⟨p, hp⟩, hnone⟩ := hgone
      have hx : x ≠ id := by
        rintro rfl
        exact hfresh p hp
      refine ⟨⟨⟨p, ?_⟩, (hother hx).trans hnone⟩, ?_⟩
      · rw [hmade]
        exact .tail _ hp
      · rw [hmade]
        rfl
  have hl : ((s'.createRequest id).update id fun r =>
      { r.storeContext url payload with mode }).requests.lookup id =
        some { ({} : ActiveRequest B.provider).storeContext url payload with mode } := by
    rw [ClientState.lookup_update,
      show (s'.createRequest id).requests.lookup id = _ from AList.lookup_insert ..]
    rfl
  have hmax := hs.limit
  refine ⟨(hcreated.update _).send ?_ hl ?_ ?_ fun _ => ?_,
    (hrely.trans (.update _ id _)).trans (.send _ (by rw [hl]; rfl))⟩
  · rw [ClientState.history_update, hmade]
    exact .inl ⟨_, _, rfl⟩
  · refine ⟨"", [], ?_, rfl, rfl⟩
    rw [ClientState.history_update, hmade]
    exact congrArg _ (roundTexts_of_unsent hunsent)
  · rw [ClientState.history_update, hmade]
    exact hunsent
  · rw [ClientState.maxToolRounds_update]
    show ((0 : Nat) : Int) ≤ s'.maxToolRounds
    rw [hlimit]
    omega

theorem tally_sends : B.Sends (tallyContract B W) ans where
  toPreorder := tally_preorder
  pending hs := hs.pending
  fail := tally_fail
  dropStream id hs := (SameTally.dropStream _ id).moves hs
  firstTurn url payload mode hs hs' hfresh := tally_create hs hs' hfresh url payload mode
  connect {s id} hs _ := by
    have hupdate := SameTally.update s id (f := fun r =>
      { r with stream := some s.nextStream, errorMode := false, errorBody := [] })
      fun r => ⟨rfl, rfl, rfl⟩
    have hconnect : SameTally s { s.update id fun r =>
        { r with stream := some s.nextStream, errorMode := false, errorBody := [] } with
      streams := s.streams.insert s.nextStream id
      nextStream := s.nextStream + 1 } :=
      hupdate.trans (.fields _ rfl rfl rfl rfl (.refl _))
    exact tally_note (o := .opened id s.nextStream) hconnect hs trivial trivial
  watchSend {s} id hs := by
    have hwatch : SameTally s { s with
        sends := s.sends.insert s.nextSend id
        nextSend := s.nextSend + 1 } := .fields s rfl rfl rfl rfl (.refl _)
    exact tally_note (o := .posted id s.nextSend) hwatch hs trivial trivial
  track {s} id conversation hs :=
    (SameTally.update s id (f := fun r => { r with conversation, tracksConversation := true })
      fun r => ⟨rfl, rfl, rfl⟩).moves hs

/-! ### The end of a round of tools -/

/-- A request is aborted whose books are open. -/
theorem tally_abortRequest (hs : Tallied W (· = id) s) (hid : (s.requests.lookup id).isSome)
    (hrely : TallyRely s₀ s) (error : String) :
    (tallyContract B W).KeepsFrom ans s₀ (B.abortRequest id error) s := by
  show (tallyContract B W).KeepsFrom ans s₀ (if (s.requests.lookup id).isSome then _ else _ :
    Proc B.Sig Unit) s
  rw [if_pos hid]
  have hdrop := SameTally.dropStream s id
  refine tally_failRequest (hs.same hdrop) ?_ (hrely.trans (.same hdrop)) error
  rw [(SameBooks.dropStream s id).requests]
  exact hid

/-- A continuation is built from the results of a round that was completed just now. -/
theorem Tallied.continued (hs : Tallied W (· = id) s) {toolResults : ToolResults}
    (hcompleted : ((id, toolResults) :: continuations s.history).Sublist
      (completions s.toolsManager.history)) (message : BaseMessage) :
    Tallied W (· = id) (s.observe (.continued id message toolResults)) where
  allowed := ordered_cons.mpr ⟨trivial, hs.allowed⟩
  pending := hs.pending
  limit := hs.limit
  started hx := (hs.started hx).imp fun _ hm => .tail _ hm
  tally hx hl := ⟨(hs.tally hx hl).text, (hs.tally hx hl).sent⟩
  bounded hw hp := hs.bounded hw (hp.imp fun _ hm => mem_old hm (by simp))
  matched := hcompleted

/-- The next round begins: what the request was sent for is counted. -/
theorem tally_continueRequest (hs : Tallied W (· = id) s) (hrely : TallyRely s₀ s)
    {message : BaseMessage} {toolResults : ToolResults} {h : List ClientObservation}
    (hjust : s.history = .continued id message toolResults :: h)
    {r : ActiveRequest B.provider} (hl : s.requests.lookup id = some r)
    (htext : KeepsText (roundTexts id s.history) r)
    (hcount : sentCount id s.history = r.toolRounds)
    (hlimit : (r.toolRounds : Int) ≤ s.maxToolRounds) (payload : JsonObject) :
    (tallyContract B W).KeepsFrom ans s₀ (B.continueRequest id payload) s := by
  have hid : (s.requests.lookup id).isSome := by rw [hl]; rfl
  refine Contract.KeepsFrom.read ?_
  rw [hl]
  show (tallyContract B W).KeepsFrom ans s₀ (if r.url.isEmpty then _ else _ : Proc B.Sig Unit) s
  by_cases hurl : r.url.isEmpty
  · rw [if_pos hurl]
    exact tally_failRequest hs hid hrely _
  · rw [if_neg hurl]
    let begun : ActiveRequest B.provider :=
      { r.beginNextTurn.storeContext r.url payload with mode := r.mode }
    have hnext : ((s.update id ActiveRequest.beginNextTurn).update id fun r' =>
        { r'.storeContext r.url payload with mode := r.mode }).requests.lookup id = some begun := by
      rw [ClientState.lookup_update, ClientState.lookup_update, hl]
      rfl
    have hupdated := (hs.update ActiveRequest.beginNextTurn).update fun r' =>
      { r'.storeContext r.url payload with mode := r.mode }
    have hrounds : begun.toolRounds = r.toolRounds := r.toolRounds_finalizeTurn
    have hsend := hupdated.send (r := begun) ?_ hnext ?_ ?_ ?_
    · refine tally_sends.startHttpRequest ⟨hsend, ?_⟩ (by rw [hnext]; rfl) r.url payload r.mode
      exact ((hrely.trans (.update s id _)).trans (.update _ id _)).trans
        (.send _ (by rw [hnext]; rfl))
    · rw [ClientState.history_update, ClientState.history_update]
      obtain ⟨p, hp⟩ := hs.started hid
      refine .inr ⟨message, toolResults, h, hjust, p, ?_⟩
      rw [hjust] at hp
      exact mem_old hp (by simp)
    · rw [ClientState.history_update, ClientState.history_update]
      exact htext.next r.responseContent_finalizeTurn rfl
    · rw [ClientState.history_update, ClientState.history_update, hrounds]
      exact hcount
    · intro _
      rw [ClientState.maxToolRounds_update, ClientState.maxToolRounds_update, hrounds]
      exact hlimit

/-- The continuation of a request whose rounds are counted. -/
theorem tally_replay (hs : Tallied W (· = id) s) (hrely : TallyRely s₀ s)
    {r : ActiveRequest B.provider} (hl : s.requests.lookup id = some r)
    (htext : KeepsText (roundTexts id s.history) r)
    (hcount : sentCount id s.history = r.toolRounds)
    (hlimit : (r.toolRounds : Int) ≤ s.maxToolRounds) {toolResults : ToolResults}
    (hcompleted : ((id, toolResults) :: continuations s.history).Sublist
      (completions s.toolsManager.history)) :
    (tallyContract B W).KeepsFrom ans s₀ (B.buildReplayContinuation id toolResults >>= fun payload =>
      if payload.isEmpty then B.abortRequest id "Missing data for tool continuation"
      else B.continueRequest id payload) s := by
  have hid : (s.requests.lookup id).isSome := by rw [hl]; rfl
  refine (wp_bind (B.buildReplayContinuation id toolResults) _ _ s).mpr ?_
  refine wp_of_read ?_
  rw [hl]
  dsimp only
  cases r.message with
  | none => exact tally_abortRequest hs hid hrely _
  | some m =>
      let build := fun r : ActiveRequest B.provider => (r.buildReplayContinuation toolResults).1
      have hbuilt : Tallied W (· = id) ((s.update id build).observe
          (.continued id (B.provider.base m) toolResults)) :=
        (hs.update build).continued (by simpa using hcompleted) _
      have hrely' : TallyRely s₀ ((s.update id build).observe
          (.continued id (B.provider.base m) toolResults)) :=
        (hrely.trans (.update s id build)).trans (.observe fun _ _ => rfl)
      have hl' : ((s.update id build).observe
          (.continued id (B.provider.base m) toolResults)).requests.lookup id =
            some (build r) := by
        rw [ClientState.requests_observe, s.lookup_update, hl]
        rfl
      obtain ⟨hcontent, hoffset, hrounds⟩ := r.text_buildReplayContinuation toolResults
      have htexts : roundTexts id ((s.update id build).observe
          (.continued id (B.provider.base m) toolResults)).history = roundTexts id s.history := by
        rw [ClientState.history_observe, s.history_update]
        rfl
      show (tallyContract B W).KeepsFrom ans s₀ (if _ then _ else _ : Proc B.Sig Unit) _
      split
      · exact tally_abortRequest hbuilt (by rw [hl']; rfl) hrely' _
      · refine tally_continueRequest hbuilt hrely' rfl hl' ?_ ?_ ?_ _
        · obtain ⟨current, earlier, heq, hwhole, hbegin⟩ := htext
          exact ⟨current, earlier, htexts.trans heq, hcontent.trans hwhole, hoffset.trans hbegin⟩
        · show sentCount id (s.update id build).history = _
          rw [s.history_update, hcount]
          exact hrounds.symm
        · show ((build r).toolRounds : Int) ≤ (s.update id build).maxToolRounds
          rw [s.maxToolRounds_update, show (build r).toolRounds = r.toolRounds from hrounds]
          exact hlimit

/-- A completed round continues its request, or ends it where the limit is reached. -/
theorem tally_handleToolsCompleted (hs : Tallied W (fun _ => False) s) (hrely : TallyRely s₀ s)
    {toolResults : ToolResults}
    (hcompleted : ((id, toolResults) :: continuations s.history).Sublist
      (completions s.toolsManager.history)) :
    (tallyContract B W).KeepsFrom ans s₀ (B.handleToolsCompleted id toolResults) s := by
  refine Contract.KeepsFrom.read ?_
  cases hl : s.requests.lookup id with
  | none => exact ⟨hs, hrely⟩
  | some r =>
      have htally := hs.tally not_false hl
      let count := fun r : ActiveRequest B.provider => { r with toolRounds := r.toolRounds + 1 }
      have hcounted : Tallied W (· = id) (s.update id count) := (hs.weaken id).update count
      have hrely' := hrely.trans (.update s id count)
      have hl' : (s.update id count).requests.lookup id = some (count r) := by
        rw [s.lookup_update, hl]
        rfl
      show (tallyContract B W).KeepsFrom ans s₀ (if s.maxToolRounds < r.toolRounds + 1 then _
        else _ : Proc B.Sig Unit) (s.update id count)
      by_cases hmax : s.maxToolRounds < r.toolRounds + 1
      · rw [if_pos hmax]
        exact tally_abortRequest hcounted (by rw [hl']; rfl) hrely' _
      · rw [if_neg hmax]
        refine tally_replay hcounted hrely' hl' ?_ ?_ ?_ ?_
        · rw [s.history_update]
          exact htally.text
        · rw [s.history_update, htally.sent, Nat.add_comm]
        · rw [s.maxToolRounds_update]
          exact not_lt.mp hmax
        · rw [s.history_update, s.toolsManager_update]
          exact hcompleted

/-! ### The client keeps the contract -/

/-- What the manager calls out for, from where its code has come to since the last point where
its surroundings acted. -/
theorem tally_hostedOut (hs : Tallied W (fun _ => False) s) {toolsManager : ToolsManager}
    (e : ToolsOut) (he : Announced e s.toolsManager toolsManager) :
    (tallyContract B W).KeepsFrom ans s (B.hostedTools.out e) { s with toolsManager } := by
  have hmove : Recorded s.toolsManager toolsManager →
      (tallyContract B W).Moves s { s with toolsManager } := fun h =>
    tally_fields hs rfl rfl rfl rfl h
  cases e with
  | emit signal =>
      refine Contract.KeepsFrom.bind (p := B.toolsSlot signal) ?_ fun _ s₁ h₁ =>
        tally_sends.query h₁ (.tools signal)
      cases signal with
      | toolExecutionComplete id toolResults =>
          -- the round was completed since, so it is counted by no continuation yet
          have hmoved := hmove ((List.sublist_cons_self _ _).trans he)
          exact tally_handleToolsCompleted hmoved.1 hmoved.2 ((hs.matched.cons_cons _).trans he)
      | toolExecutionStarted args => exact hmove he
      | toolExecutionResult requestId toolId toolName result => exact hmove he
      | toolsChanged => exact hmove he
  | gate args => exact tally_sends.query (hmove he) (.gate args)
  | executeAsync tool input => exact tally_sends.query (hmove he) (.executeAsync tool input)

theorem tally_hosted {α : Type} {p : Proc ToolsSig α} (hp : Announces p) :
    (tallyContract B W).Keeps ans (p.implement B.hostedTools) :=
  hp.keeps tally_preorder (I := B.hostedTools) Recorded.refl (fun _ => rfl) (fun _ _ _ => rfl)
    (fun _ _ hs h => tally_fields hs rfl rfl rfl rfl h)
    (fun e _ _ hs he => tally_hostedOut hs e he)
    (fun _ _ hs => ⟨hs, fun _ _ h => h⟩)

theorem tally_serves : B.Serves (tallyContract B W) ans where
  toSends := tally_sends
  chunk {s id r} chunk hs hl := by
    have hmoved : (tallyContract B W).Moves s (s.appendText id chunk) :=
      tally_wrote hs (by rw [hl]; rfl) (.append chunk) (fun h => h.append chunk) fun _ => rfl
    exact hmoved.trans tally_preorder (tally_observe hmoved.1 trivial ⟨_, rfl⟩)
  replaced {s id r} text hs hl :=
    tally_wrote hs (by rw [hl]; rfl) (.replace text) (fun h => h.replace text) fun _ => rfl
  thinking {s} id m base _ _ _ _ :=
    (SameTally.update s id (f := fun r => { r with message := some (B.provider.withBase m base) })
      fun r => ⟨rfl, rfl, rfl⟩).moves ‹_›
  signal {s id signal} hs _ hsig := by
    cases signal with
    | accumulatedReceived => exact tally_observe hs trivial trivial
    | thinkingBlockReceived => exact tally_observe hs trivial trivial
    | _ => exact hsig.elim
  begun hs _ _ := tally_observe hs trivial trivial

theorem tally_receives (id : String) (ref : Option StreamRef) :
    B.Receives (tallyContract B W) ans id ref fun _ => True where
  toServes := tally_serves
  guard _ _ := trivial
  beginRound req calls := tally_hosted (logs_announced.beginRound req calls)
  finish f hf := by
    refine .bind tally_preorder (.modify fun s hs => ?_) fun _ => tally_complete id
    have hstop : SameTally s (s.update id f) := .update s id fun r => by
      obtain ⟨stopReason, heq⟩ := hf r
      rw [heq]
      exact ⟨rfl, rfl, rfl⟩
    exact (hstop.trans (.cleanupFullRequest _ id)).moves hs
  stop := .bind tally_preorder
    (.modify fun s hs => (SameTally.cleanupFullRequest s id).moves hs) fun _ => tally_complete id
  applied {s source} message hs _ _ := by
    have hupdate := SameTally.update s id (f := fun r => { r with message := some message })
      fun r => ⟨rfl, rfl, rfl⟩
    exact tally_note (o := .applied id source) hupdate hs trivial trivial
  account {s source} delta hs _ _ := by
    unfold ClientState.account
    cases hl : s.requests.lookup id with
    | none => exact ⟨hs, .refl s⟩
    | some r =>
        have hupdate : SameTally s (s.update id fun r => r.applyUsage delta) :=
          .update s id fun r => by
            unfold ActiveRequest.applyUsage
            split <;> exact ⟨rfl, rfl, rfl⟩
        rw [ClientState.update, hl] at hupdate
        exact tally_note (o := .accounted id source delta) hupdate hs trivial trivial
  framer {s} framer hs _ :=
    (SameTally.update s id (f := fun r => { r with framer }) fun r => ⟨rfl, rfl, rfl⟩).moves hs
  derived _ hs _ := tally_fields hs rfl rfl rfl rfl (.refl _)

theorem tally_enters : B.Enters (tallyContract B W) ans where
  receives := tally_receives
  settings _ hs := tally_fields hs rfl rfl rfl rfl (.refl _)
  hosted call := tally_hosted (logs_announced.call call)
  transport {s} id f hf hs := by
    refine (SameTally.update s id fun r => ?_).moves hs
    obtain ⟨stream, errorMode, errorBody, heq⟩ := hf r
    rw [heq]
    exact ⟨rfl, rfl, rfl⟩
  tables _ _ _ hs := tally_fields hs rfl rfl rfl rfl (.refl _)
  received _ _ hs := tally_observe hs trivial trivial
  ended _ hs := tally_observe hs trivial trivial

/-- Ids are new, and the limit is not set once a request in `W` is made. -/
def ClientEvent.Settled (W : String → Prop) (s : B.State) (e : ClientEvent) : Prop :=
  e.FreshIn s ∧ ∀ limit, e = .setMaxToolContinuations limit → ∀ id, W id → s.Fresh id

theorem tally_limit (hs : Tallied W (fun _ => False) s) (limit : Int)
    (hfresh : ∀ id, W id → s.Fresh id) :
    (tallyContract B W).Moves s { s with maxToolRounds := if 0 < limit then limit else 1 } := by
  refine ⟨⟨hs.allowed, hs.pending, ?_, hs.started, hs.tally, fun hw hp => ?_, hs.matched⟩,
    fun _ ho => ho, fun _ hgone => ⟨hgone, rfl⟩⟩
  · show 1 ≤ if 0 < limit then limit else 1
    split <;> omega
  · obtain ⟨p, hp⟩ := hp
    exact absurd hp (hfresh _ hw p)

theorem tally_valid (B : BaseClient) (W : String → Prop) :
    (tallyContract B W).Valid (.only B.machine fun s e => ClientEvent.Settled W s e) :=
  .of_guarded tally_preorder
    (fun _ e hs he => tally_enters.entry hs e he.1 fun limit heq =>
      tally_limit hs limit (he.2 limit heq))
    fun f _ hs => tally_hosted (logs_announced.body f) _ hs

theorem tally_init (B : BaseClient) (W : String → Prop) :
    Tallied W (fun _ => False) ({} : B.State) where
  allowed := ordered_nil
  pending := rfl
  limit := (by decide : (1 : Int) ≤ 10)
  started hid := by simp at hid
  tally _ hl := by simp at hl
  bounded _ hp := by
    obtain ⟨p, hp⟩ := hp
    cases hp
  matched := List.Sublist.refl _

/-- In every run of a client, the text of a request is that of its rounds, one after the other,
and the current round begins where the earlier ones end; the texts of rounds that are over stay;
and what is reported when a request is complete is the text of all its rounds. -/
theorem text_of_rounds (B : BaseClient) {c : Config B.Sig}
    (hrun : Reaches (.only B.machine fun s e => ClientEvent.FreshIn s e) (.idle {}) c)
    (hw : c.Waiting) :
    (∀ id r, c.state.requests.lookup id = some r → ∃ current earlier,
      roundTexts id c.state.history = current :: earlier ∧
      r.responseContent = wholeText earlier ++ current ∧
      r.roundTextOffset = (wholeText earlier).length ∧ r.roundText = current) ∧
      (∀ id later h, c.state.history = later ++ h →
        (roundTexts id h).tail <:+ (roundTexts id c.state.history).tail) ∧
      Ordered RoundsAllowed c.state.history := by
  have hfree : Reaches (.only B.machine fun s e => ClientEvent.Settled (fun _ => False) s e)
      (.idle {}) c := by
    refine Reaches.mono (V := .only B.machine fun s e => ClientEvent.FreshIn s e)
      (W := .only B.machine fun s e => ClientEvent.Settled (fun _ => False) s e)
      (fun _ _ he => ?_) (fun _ _ _ he => ?_) (fun _ _ _ ha => ha) hrun
    · exact ⟨he, fun _ _ _ hw => hw.elim⟩
    · exact ⟨he, fun _ _ _ hw => hw.elim⟩
  have hinv := (tally_valid B fun _ => False).waiting (tally_init B _) hfree hw
  refine ⟨fun id r hl => ?_, fun id later h heq => ?_, hinv.allowed⟩
  · have htext := (hinv.tally not_false hl).text
    have hround := htext.roundText
    obtain ⟨current, earlier, htexts, hcontent, hoffset⟩ := htext
    refine ⟨current, earlier, htexts, hcontent, hoffset, ?_⟩
    rw [htexts] at hround
    exact (Option.some.inj hround).symm
  · rw [heq]
    exact tail_roundTexts_suffix id later h

/-! A request of two rounds, each with a piece of text and a call of the tool `now`. -/

/-- An event with the choice in which `delta` stands, besides what else it has. -/
def choiceEvent (delta : JsonObject) (rest : List (String × JsonValue)) : JsonObject :=
  .ofFields [("choices", .arr [.obj (JsonObject.ofFields (("delta", .obj delta) :: rest))])]

def contentEvent (content : String) : JsonObject :=
  choiceEvent (.ofFields [("content", .str content)]) []

def toolCallEvent : JsonObject :=
  choiceEvent (.ofFields [("tool_calls", .arr [.obj (JsonObject.ofFields
    [("id", .str "c"), ("function", .obj (JsonObject.ofFields [("name", .str "now")]))])])])
    [("finish_reason", .str "tool_calls")]

def contentA : Bytes := Bytes.ascii "\x7b\"choices\":[\x7b\"delta\":\x7b\"content\":\"a\"\x7d\x7d]\x7d"

def contentB : Bytes := Bytes.ascii "\x7b\"choices\":[\x7b\"delta\":\x7b\"content\":\"b\"\x7d\x7d]\x7d"

def toolCallText : Bytes :=
  Bytes.ascii ("\x7b\"choices\":[\x7b\"delta\":\x7b\"tool_calls\":[\x7b\"id\":\"c\",\"function\":" ++
    "\x7b\"name\":\"now\"\x7d\x7d]\x7d,\"finish_reason\":\"tool_calls\"\x7d]\x7d")

/-- The reader of these texts. -/
def roundsCodec : JsonCodec where
  fromJson text :=
    if text = contentA then .object (contentEvent "a")
    else if text = contentB then .object (contentEvent "b")
    else if text = toolCallText then .object toolCallEvent
    else .null
  toJson _ := "\x7b\x7d"

def roundsClient : BaseClient := ⟨openAIClient roundsCodec fun _ => [], roundsCodec⟩

/-- A text as an event of a stream. -/
def streamed (text : Bytes) : Bytes := Bytes.ascii "data:" ++ text ++ [Bytes.lf, Bytes.lf]

/-- The call-out in progress returns. -/
def goOn : Move roundsClient.machine := .respond (clientAnswers true)

/-- A client with the tool, which continues once, is asked. -/
def askMoves : List (Move roundsClient.machine) :=
  [.event (.configure { url := "http://localhost" }), .event (.setMaxToolContinuations 1),
    .event (.tools (.addTool { object := 0, id := "now" })), goOn,
    .event (.ask "r" {} [] .streaming), goOn]

/-- A piece of text arrives. -/
def textMoves (ref : StreamRef) (text : Bytes) : List (Move roundsClient.machine) :=
  [.event (.chunkReceived ref (streamed text)), goOn, goOn]

/-- The tool is called and finishes, and the results of its round are announced. -/
def toolMoves (ref : StreamRef) : List (Move roundsClient.machine) :=
  [.event (.chunkReceived ref (streamed toolCallText)), goOn, goOn,
    .event (.streamFinished ref 200),
    .event (.tools (.executionFinished ("r", "c") (.ok {}))), goOn, goOn, goOn]

/-- The request is asked for, and its first stream is open. -/
def asked : Config roundsClient.Sig := play roundsClient.machine 9 askMoves (.idle {})

/-- What arrives after a request is made. -/
def ClientEvent.Arrives : ClientEvent → Bool
  | .tools _ | .chunkReceived .. | .streamFinished .. => true
  | _ => false

/-- The surroundings from which nothing else comes. -/
def arrivals : Surroundings roundsClient.machine :=
  .only roundsClient.machine fun _ e => e.Arrives = true

instance : ∀ s e, Decidable (arrivals.event s e) := fun _ (e : ClientEvent) =>
  inferInstanceAs (Decidable (e.Arrives = true))

instance : ∀ s o e, Decidable (arrivals.nested s o e) := fun _ _ (e : ClientEvent) =>
  inferInstanceAs (Decidable (e.Arrives = true))

instance : ∀ s o a, Decidable (arrivals.answer s o a) := fun _ _ _ =>
  inferInstanceAs (Decidable True)

theorem settled_of_arrives {W : String → Prop} {s : roundsClient.State} {e : ClientEvent}
    (h : e.Arrives = true) : ClientEvent.Settled W s e := by
  cases e with
  | tools _ | chunkReceived _ _ | streamFinished _ _ => exact ⟨trivial, fun _ heq => by cases heq⟩
  | configure _ | setMaxToolContinuations _ | sendMessage _ _ _ _ | ask _ _ _ _
  | askOnce _ _ _ _ | cancelRequest _ | headersReceived _ _ | errorOccurred _ _
  | sendFinished _ _ | sendFailed _ => cases h

/-- The limit is set before the request is made, and the request is new. -/
theorem asked_reaches (W : String → Prop) : Reaches
    (.only roundsClient.machine fun s e => ClientEvent.Settled W s e) (.idle {}) asked := by
  have hplay : Playable (.only roundsClient.machine fun s e => ClientEvent.Settled W s e) 9
      askMoves (.idle {}) := by
    refine ⟨⟨trivial, fun _ heq => by cases heq⟩, ⟨trivial, fun _ _ _ _ => ?_⟩,
      ⟨trivial, fun _ heq => by cases heq⟩, ⟨_, rfl, trivial⟩, ⟨?_, fun _ heq => by cases heq⟩,
      ⟨_, rfl, trivial⟩, trivial⟩
    · exact fun _ hm => absurd hm List.not_mem_nil
    · exact fun _ hm => absurd hm List.not_mem_nil
  exact reaches_play hplay

theorem arrivals_reaches (W : String → Prop) {moves : List (Move roundsClient.machine)}
    (h : Playable arrivals 9 moves asked) : Reaches
    (.only roundsClient.machine fun s e => ClientEvent.Settled W s e) (.idle {})
    (play roundsClient.machine 9 moves asked) := by
  refine (asked_reaches W).trans (Reaches.mono (V := arrivals)
    (W := .only roundsClient.machine fun s e => ClientEvent.Settled W s e) (fun _ _ he => ?_)
    (fun _ _ _ he => ?_) (fun _ _ _ ha => ha) (reaches_play h))
  · exact settled_of_arrives he
  · exact settled_of_arrives he

/-- The text of the second round has arrived. -/
abbrev twoRounds : Config roundsClient.Sig :=
  play roundsClient.machine 9 (textMoves 0 contentA ++ toolMoves 0 ++ textMoves 1 contentB) asked

theorem text_of_rounds_two : ∃ r, twoRounds.state.requests.lookup "r" = some r ∧
    roundTexts "r" twoRounds.state.history = ["b", "a"] ∧ r.responseContent = "ab" ∧
      r.roundText = "b" := by
  have hplayed : Playable arrivals 9 (textMoves 0 contentA ++ toolMoves 0 ++ textMoves 1 contentB)
      asked ∧ twoRounds.Waiting ∧ (twoRounds.state.requests.lookup "r").isSome = true ∧
      roundTexts "r" twoRounds.state.history = ["b", "a"] := by
    decide +kernel
  obtain ⟨hplay, hw, hsome, htexts⟩ := hplayed
  have hrun : Reaches (.only roundsClient.machine fun s e => ClientEvent.FreshIn s e) (.idle {})
      twoRounds := Reaches.mono
    (V := .only roundsClient.machine fun s e => ClientEvent.Settled (fun _ => False) s e)
    (W := .only roundsClient.machine fun s e => ClientEvent.FreshIn s e)
    (fun _ _ he => he.1) (fun _ _ _ he => he.1) (fun _ _ _ ha => ha)
    (arrivals_reaches (fun _ => False) hplay)
  -- what was computed of the configuration is all that is needed of it
  generalize twoRounds = c at hw hsome htexts hrun ⊢
  obtain ⟨r, hl⟩ := Option.isSome_iff_exists.mp hsome
  obtain ⟨current, earlier, htext, hcontent, -, hround⟩ :=
    (text_of_rounds roundsClient hrun hw).1 "r" r hl
  obtain ⟨rfl, rfl⟩ := List.cons.inj (htexts.symm.trans htext)
  exact ⟨r, hl, htexts, hcontent, hround⟩

/-- The text with which a request fails whose rounds are used up. -/
def limitReached : String := "Tool continuation limit reached"

/-- A round that is one too many ends its request: it is failed as it is, and nothing is called
out for before. -/
theorem handleToolsCompleted_limit {r : ActiveRequest B.provider}
    (hl : s.requests.lookup id = some r) (hlimit : s.maxToolRounds < r.toolRounds + 1)
    (toolResults : ToolResults) :
    ∃ s₁ r₁, s₁.requests.lookup id = some r₁ ∧ r₁.conversation = r.conversation ∧
      s₁.history = s.history ∧
      (B.handleToolsCompleted id toolResults).advance s =
        (B.failRequest id limitReached).advance s₁ := by
  let count := fun r : ActiveRequest B.provider => { r with toolRounds := r.toolRounds + 1 }
  have hcounted : (s.update id count).requests.lookup id = some (count r) := by
    rw [s.lookup_update, hl]
    rfl
  have hdropped : ∃ r₁, ((s.update id count).dropStream id).requests.lookup id = some r₁ ∧
      r₁.conversation = r.conversation := by
    unfold ClientState.dropStream
    cases ((s.update id count).requests.lookup id).bind (·.stream) with
    | none => exact ⟨count r, hcounted, rfl⟩
    | some ref =>
        refine ⟨{ count r with stream := none }, ?_, rfl⟩
        rw [ClientState.lookup_update, hcounted]
        rfl
  obtain ⟨r₁, hl₁, hconversation⟩ := hdropped
  refine ⟨(s.update id count).dropStream id, r₁, hl₁, hconversation, ?_, ?_⟩
  · rw [(SameTally.dropStream _ id).history, s.history_update]
  · refine (Proc.advance_read_bind (S := B.Sig) _ s).trans ?_
    rw [hl]
    show (if s.maxToolRounds < r.toolRounds + 1 then _ else _ : Proc B.Sig Unit).advance
      (s.update id count) = _
    rw [if_pos hlimit]
    show (if ((s.update id count).requests.lookup id).isSome then _ else _ :
      Proc B.Sig Unit).advance (s.update id count) = _
    rw [if_pos (by rw [hcounted]; rfl)]
    rfl

/-- A request that fails is gone when the failure is signalled, and nothing was sent for it. -/
theorem failRequest_advance (hid : (s.requests.lookup id).isSome) (error : String) :
    ∃ s' k, (B.failRequest id error).advance s = (s', .out (.emit (.requestFailed id error)) k) ∧
      s'.requests.lookup id = none ∧
      s'.history = .emitted (.requestFailed id error) :: s.history := by
  have hadvance : (B.failRequest id error).advance s = (if (s.requests.lookup id).isSome then _
    else _ : Proc B.Sig Unit).advance s := rfl
  rw [if_pos hid] at hadvance
  refine ⟨_, _, hadvance, (s.cleanupFullRequest id).lookup_cleanupRequest id, ?_⟩
  have hsame := (SameTally.cleanupFullRequest s id).trans (.cleanupRequest _ id)
  exact congrArg _ hsame.history

/-- The HTTP requests of one request, in every run in which the limit is left as it was when the
request was made: there are at most as many as the limit, and one; each after the first is sent
for a continuation of its own, and each continuation is built from the results of a round of
tools of its own. A round that is one too many fails its request, with nothing sent or tracked. -/
theorem rounds_bounded (B : BaseClient) (id : String) {c : Config B.Sig}
    (hrun : Reaches (.only B.machine fun s e => ClientEvent.Settled (· = id) s e) (.idle {}) c)
    (hw : c.Waiting) :
    (sentCount id c.state.history : Int) ≤ 1 + c.state.maxToolRounds ∧
      Ordered RoundsAllowed c.state.history ∧
      (continuations c.state.history).Sublist (completions c.state.toolsManager.history) ∧
      sentCount id c.state.history ≤
        1 + (completions c.state.toolsManager.history).countP (·.1 = id) ∧
      (∀ r, c.state.requests.lookup id = some r →
        sentCount id c.state.history = 1 + r.toolRounds) ∧
      ∀ (s : B.State) r toolResults, s.requests.lookup id = some r →
        s.maxToolRounds < r.toolRounds + 1 →
        ∃ s₁ r₁, s₁.requests.lookup id = some r₁ ∧ r₁.conversation = r.conversation ∧
          (B.handleToolsCompleted id toolResults).advance s =
            (B.failRequest id limitReached).advance s₁ ∧
          ∃ s' k, (B.handleToolsCompleted id toolResults).advance s =
            (s', .out (.emit (.requestFailed id limitReached)) k) ∧
            s'.requests.lookup id = none ∧
            s'.history = .emitted (.requestFailed id limitReached) :: s.history := by
  have hinv := (tally_valid B (· = id)).waiting (tally_init B _) hrun hw
  refine ⟨?_, hinv.allowed, hinv.matched, ?_, fun r hl => (hinv.tally not_false hl).sent,
    fun s r toolResults hl hlimit => ?_⟩
  · by_cases hsent : sentCount id c.state.history = 0
    · have hmax := hinv.limit
      rw [hsent]
      omega
    · exact hinv.bounded rfl (started_of_sent hinv.allowed hsent)
  · exact (sentCount_le hinv.allowed).trans (Nat.add_le_add_left hinv.matched.countP_le 1)
  · obtain ⟨s₁, r₁, hl₁, hconversation, hhistory, hadvance⟩ :=
      handleToolsCompleted_limit (B := B) hl hlimit toolResults
    obtain ⟨s', k, hfail, hgone, hreported⟩ :=
      failRequest_advance (B := B) (s := s₁) (by rw [hl₁]; rfl) limitReached
    refine ⟨s₁, r₁, hl₁, hconversation, hadvance, s', k, hadvance.trans hfail, hgone, ?_⟩
    rw [hreported, hhistory]

/-- The second round of tools is one too many. -/
abbrev limitedRounds : Config roundsClient.Sig :=
  play roundsClient.machine 9
    (textMoves 0 contentA ++ toolMoves 0 ++ textMoves 1 contentB ++ toolMoves 1) asked

theorem rounds_bounded_limit :
    limitedRounds.state.maxToolRounds = 1 ∧ sentCount "r" limitedRounds.state.history = 2 ∧
      (sentCount "r" limitedRounds.state.history : Int) ≤ 1 + limitedRounds.state.maxToolRounds ∧
      (completions limitedRounds.state.toolsManager.history).length = 2 ∧
      (continuations limitedRounds.state.history).length = 1 ∧
      limitedRounds.state.requests.lookup "r" = none := by
  have hplayed : Playable arrivals 9
      (textMoves 0 contentA ++ toolMoves 0 ++ textMoves 1 contentB ++ toolMoves 1) asked ∧
      limitedRounds.Waiting ∧ limitedRounds.state.maxToolRounds = 1 ∧
      sentCount "r" limitedRounds.state.history = 2 ∧
      (completions limitedRounds.state.toolsManager.history).length = 2 ∧
      (continuations limitedRounds.state.history).length = 1 ∧
      (limitedRounds.state.requests.lookup "r").isNone = true := by
    decide +kernel
  obtain ⟨hplay, hw, hmax, hsent, hcompleted, hcontinued, hgone⟩ := hplayed
  have hrun : Reaches (.only roundsClient.machine fun s e => ClientEvent.Settled (· = "r") s e)
      (.idle {}) limitedRounds := arrivals_reaches (· = "r") hplay
  generalize limitedRounds = c at hw hmax hsent hcompleted hcontinued hgone hrun ⊢
  have hbounded := (rounds_bounded roundsClient "r" hrun hw).1
  exact ⟨hmax, hsent, hbounded, hcompleted, hcontinued, Option.isNone_iff_eq_none.mp hgone⟩

end LLMQore
