import LLMQore.Tools.Driving
import LLMQore.Tools.ExecutionGate

/-!
# LLMQore.Tools.RoundCancel

No call of a request starts after the request was cleaned up.

`cleanupRequest` abandons the open round of the request, so the loop that dispatches calls
finds none left. Two ways to an execution do not look at the round again: the continuation
of the gate's approval, and the code that has announced the start of a call and executes it
when the slots return. The condition on a run excludes both: no call is approved too late,
and no request is cleaned up while the start of one of its calls is announced.
-/

namespace LLMQore.Tools

open Reentrant

/-! ### What holds of a history -/

/-- The request was cleaned up when the round was there already. -/
def Late (h : List ToolObservation) (req : String) (ref : RoundRef) : Prop :=
  ∃ bound, .cleaned req bound ∈ h ∧ ref < bound

/-- May `o` come after `earlier`, as far as the end of its request is concerned? -/
def CancelFollows (earlier : List ToolObservation) : ToolObservation → Prop
  | .executed tag args =>
      ∃ d, .dispatched tag d ∈ earlier ∧ d.args = args ∧ ¬Late earlier args.requestId d.round
  | _ => True

/-- No call is executed after its request was cleaned up. -/
def NoLateStart (history : List ToolObservation) : Prop := Ordered CancelFollows history

/-- The start of the call is announced, and the call is not executed yet. -/
def Starting (h : List ToolObservation) (tag : CallTag) : Prop :=
  (∃ args, .announced tag args ∈ h) ∧ ∀ args, .executed tag args ∉ h

/-! ### The invariant -/

/-- A call nobody has started. -/
structure Unstarted (h : List ToolObservation) (tag : CallTag) : Prop where
  unannounced : ∀ args, .announced tag args ∉ h
  unexecuted : ∀ args, .executed tag args ∉ h

structure CancelBook (s : ToolsManager) : Prop where
  history : NoLateStart s.history
  dispatched : ∀ tag d, .dispatched tag d ∈ s.history → tag < s.nextTag ∧
    d.round < s.nextRound ∧ (s.rounds d.round).requestId = d.args.requestId
  unique : ∀ tag d d', .dispatched tag d ∈ s.history → .dispatched tag d' ∈ s.history → d = d'
  announced : ∀ tag args, .announced tag args ∈ s.history → tag < s.nextTag
  executed : ∀ tag args, .executed tag args ∈ s.history → tag < s.nextTag
  watched : ∀ tag w, s.gates.lookup tag = some w → Unstarted s.history tag ∧
    ∃ d, .dispatched tag d ∈ s.history ∧ d.args = w.args ∧ d.round = w.round
  starting : ∀ tag d, Starting s.history tag → .dispatched tag d ∈ s.history →
    ¬Late s.history d.args.requestId d.round
  bound : ∀ req bound, .cleaned req bound ∈ s.history → bound ≤ s.nextRound
  closed : ∀ ref < s.nextRound, Late s.history (s.rounds ref).requestId ref →
    (s.rounds ref).closed = true
  /-- A round that is closed while it is driven was abandoned. -/
  emptied : ∀ ref < s.nextRound, (s.rounds ref).advancing = true → (s.rounds ref).closed = true →
    (s.rounds ref).pending = []

structure CancelInv (s : ToolsManager) : Prop where
  rounds : RoundsInv s
  book : CancelBook s

/-- The history grows, nobody touches a dispatched call that some code holds, and a round
that is driven stays so. -/
structure Undisturbed (s s' : ToolsManager) : Prop where
  history : ∀ o ∈ s.history, o ∈ s'.history
  nextTag : s.nextTag ≤ s'.nextTag
  held : ∀ tag < s.nextTag, s.gates.lookup tag = none → s'.gates.lookup tag = none ∧
    (∀ args, .announced tag args ∈ s'.history → .announced tag args ∈ s.history) ∧
    ∀ args, .executed tag args ∈ s'.history → .executed tag args ∈ s.history
  advancing : ∀ ref < s.nextRound, (s.rounds ref).advancing = true →
    (s'.rounds ref).advancing = true

theorem Undisturbed.refl (s : ToolsManager) : Undisturbed s s :=
  ⟨fun _ h => h, Nat.le_refl _, fun _ _ h => ⟨h, fun _ h => h, fun _ h => h⟩, fun _ _ h => h⟩

def cancelContract : Contract ToolsSig where
  inv := CancelInv
  rely s s' := Evolves nobody s s' ∧ Undisturbed s s'
  pre
    | .driveRound _, s => CancelInv s
    | .advanceLoop ref, s => CancelInv s ∧ ref < s.nextRound ∧ (s.rounds ref).advancing = true
  post _ s _ s' := CancelInv s' ∧ Evolves nobody s s' ∧ Undisturbed s s'

theorem cancelContract_preorder : cancelContract.Preorder where
  refl s := ⟨.refl _ s, .refl s⟩
  trans {s₁ s₂ s₃} h₁ h₂ := by
    obtain ⟨he₁, hu₁⟩ := h₁
    obtain ⟨he₂, hu₂⟩ := h₂
    refine ⟨he₁.trans he₂, fun o h => hu₂.history o (hu₁.history o h),
      Nat.le_trans hu₁.nextTag hu₂.nextTag, fun tag ht hg => ?_, fun ref href h => ?_⟩
    · obtain ⟨hg₂, ha₂, hx₂⟩ := hu₁.held tag ht hg
      obtain ⟨hg₃, ha₃, hx₃⟩ := hu₂.held tag (Nat.lt_of_lt_of_le ht hu₁.nextTag) hg₂
      exact ⟨hg₃, fun args h => ha₂ args (ha₃ args h), fun args h => hx₂ args (hx₃ args h)⟩
    · exact hu₂.advancing ref (Nat.lt_of_lt_of_le href he₁.nextRound) (hu₁.advancing ref href h)

abbrev CancelMoves (s s' : ToolsManager) : Prop := cancelContract.Moves s s'

variable {s s' s₀ : ToolsManager} {ref : RoundRef}

theorem CancelMoves.trans {s₁ s₂ s₃ : ToolsManager} (h₁ : CancelMoves s₁ s₂)
    (h₂ : CancelMoves s₂ s₃) : CancelMoves s₁ s₃ :=
  Contract.Moves.trans cancelContract_preorder h₁ h₂

theorem CancelInv.refl (hs : CancelInv s) : CancelMoves s s :=
  ⟨hs, cancelContract_preorder.refl s⟩

/-! ### Updates -/

/-- Observations that say nothing of a start or of a cleanup. -/
def ToolObservation.Plain : ToolObservation → Prop
  | .called .. | .completed .. | .abandoned _ | .asked .. | .settled .. | .yielded .. => True
  | .dispatched .. | .cleaned .. | .announced .. | .executed .. => False

/-- What an update must do with the rounds: it reopens none, and one it closes while it is
driven is emptied. -/
structure Shuts (s s' : ToolsManager) : Prop where
  closed : ∀ ref < s.nextRound, (s.rounds ref).closed = true → (s'.rounds ref).closed = true
  emptied : ∀ ref < s'.nextRound, (s'.rounds ref).advancing = true →
    (s'.rounds ref).closed = true → (s'.rounds ref).pending = []

theorem CancelBook.shuts (hb : CancelBook s) (h : s'.rounds = s.rounds)
    (hnext : s'.nextRound = s.nextRound) : Shuts s s' := by
  refine ⟨fun ref _ hc => by rw [h]; exact hc, fun ref href => ?_⟩
  rw [hnext] at href
  rw [h]
  exact hb.emptied ref href

/-- An update of one round. -/
theorem CancelBook.shuts_setRound (hb : CancelBook s) {r : ToolRound}
    (hrounds : s'.rounds = Function.update s.rounds ref r) (hnext : s'.nextRound = s.nextRound)
    (hclosed : (s.rounds ref).closed = true → r.closed = true)
    (hemptied : r.advancing = true → r.closed = true → r.pending = []) : Shuts s s' := by
  constructor
  · intro ref' _ hc
    rw [hrounds]
    by_cases he : ref' = ref
    · subst he
      rw [Function.update_self]
      exact hclosed hc
    · rw [Function.update_of_ne he]
      exact hc
  · intro ref' href
    rw [hnext] at href
    rw [hrounds]
    by_cases he : ref' = ref
    · subst he
      rw [Function.update_self]
      exact hemptied
    · rw [Function.update_of_ne he]
      exact hb.emptied ref' href

/-- Late is what was late, where no cleanup is observed. -/
theorem late_plain {h : List ToolObservation} {o : ToolObservation} {req : String}
    (ho : ∀ bound, o ≠ .cleaned req bound) (hl : Late (o :: h) req ref) : Late h req ref := by
  obtain ⟨bound, hc, hlt⟩ := hl
  exact ⟨bound, mem_old hc fun he => ho bound he.symm, hlt⟩

/-- An update that leaves the tags alone. -/
theorem CancelBook.plain (hb : CancelBook s) (hev : Evolves nobody s s')
    (hgates : s'.gates = s.gates) (htag : s'.nextTag = s.nextTag)
    (hist : s'.history = s.history ∨ ∃ o, o.Plain ∧ s'.history = o :: s.history)
    (hshut : Shuts s s') : CancelBook s' := by
  have hsub : ∀ o ∈ s.history, o ∈ s'.history := by
    rcases hist with h | ⟨o, _, h⟩
    · rw [h]; exact fun _ h => h
    · rw [h]; exact fun _ h => List.mem_cons_of_mem _ h
  have hold : ∀ o, ¬o.Plain → o ∈ s'.history → o ∈ s.history := by
    intro o hn ho
    rcases hist with h | ⟨o', hn', h⟩
    · rw [h] at ho; exact ho
    · rw [h] at ho
      exact mem_old ho fun he => hn (he ▸ hn')
  have hlate : ∀ {req ref}, Late s'.history req ref → Late s.history req ref :=
    fun ⟨bound, hc, hlt⟩ => ⟨bound, hold _ id hc, hlt⟩
  have hordered : NoLateStart s'.history := by
    rcases hist with h | ⟨o, hn, h⟩
    · rw [h]; exact hb.history
    · rw [h]
      refine ordered_cons.mpr ⟨?_, hb.history⟩
      cases o with
      | called | completed | abandoned | asked | settled | yielded => trivial
      | dispatched | cleaned | announced | executed => exact hn.elim
  refine ⟨hordered, fun tag d h => ?_,
    fun tag d d' h h' => hb.unique tag d d' (hold _ id h) (hold _ id h'), fun tag args h => ?_,
    fun tag args h => ?_, fun tag w h => ?_, fun tag d hs hd hl => ?_, fun req bound h => ?_,
    fun ref href hl => ?_, hshut.emptied⟩
  · obtain ⟨ht, hr, hreq⟩ := hb.dispatched tag d (hold _ id h)
    exact ⟨htag ▸ ht, Nat.lt_of_lt_of_le hr hev.nextRound, (hev.requestId _ hr).trans hreq⟩
  · rw [htag]
    exact hb.announced tag args (hold _ id h)
  · rw [htag]
    exact hb.executed tag args (hold _ id h)
  · rw [hgates] at h
    obtain ⟨hun, d, hd, hargs, hround⟩ := hb.watched tag w h
    exact ⟨⟨fun args h => hun.unannounced args (hold _ id h),
      fun args h => hun.unexecuted args (hold _ id h)⟩, d, hsub _ hd, hargs, hround⟩
  · obtain ⟨⟨args, ha⟩, hx⟩ := hs
    exact hb.starting tag d ⟨⟨args, hold _ id ha⟩, fun args h => hx args (hsub _ h)⟩
      (hold _ id hd) (hlate hl)
  · exact Nat.le_trans (hb.bound req bound (hold _ id h)) hev.nextRound
  · obtain ⟨bound, hc, hlt⟩ := hlate hl
    -- only rounds that were there can be late
    have hold := Nat.lt_of_lt_of_le hlt (hb.bound _ _ hc)
    rw [hev.requestId ref hold] at hc
    exact hshut.closed ref hold (hb.closed ref hold ⟨bound, hc, hlt⟩)

theorem CancelInv.plain (hs : CancelInv s) (hm : Moves nobody s s')
    (hgates : s'.gates = s.gates) (htag : s'.nextTag = s.nextTag)
    (hist : s'.history = s.history ∨ ∃ o, o.Plain ∧ s'.history = o :: s.history)
    (hshut : Shuts s s')
    (hadv : ∀ ref < s.nextRound, (s.rounds ref).advancing = true →
      (s'.rounds ref).advancing = true) : CancelMoves s s' := by
  have hb := hs.book.plain hm.2 hgates htag hist hshut
  have hold : ∀ o, ¬o.Plain → o ∈ s'.history → o ∈ s.history := by
    intro o hn ho
    rcases hist with h | ⟨o', hn', h⟩
    · rw [h] at ho; exact ho
    · rw [h] at ho
      exact mem_old ho fun he => hn (he ▸ hn')
  refine ⟨⟨hm.1, hb⟩, hm.2, fun o ho => ?_, htag ▸ Nat.le_refl _, fun tag _ hg => ⟨hgates ▸ hg,
    fun args h => hold _ id h, fun args h => hold _ id h⟩, hadv⟩
  rcases hist with h | ⟨o', _, h⟩
  · rw [h]; exact ho
  · rw [h]; exact List.mem_cons_of_mem _ ho

/-- An observation about no round that says nothing of a start. -/
theorem CancelInv.note (hs : CancelInv s) {o : ToolObservation} (hround : o.round = none)
    (hf : Follows s.history o) (hp : o.Plain) : CancelMoves s (s.observe o) :=
  hs.plain (hs.rounds.neutral rfl rfl rfl (.inr ⟨o, hround, hf, rfl⟩)) rfl rfl
    (.inr ⟨o, hp, rfl⟩) (hs.book.shuts rfl rfl) fun _ _ h => h

/-- An update of one round that keeps it driven. -/
theorem CancelInv.setRound (hs : CancelInv s) {r : ToolRound}
    (hrounds : s'.rounds = Function.update s.rounds ref r) (hm : Moves nobody s s')
    (hnext : s'.nextRound = s.nextRound) (hgates : s'.gates = s.gates)
    (htag : s'.nextTag = s.nextTag)
    (hist : s'.history = s.history ∨ ∃ o, o.Plain ∧ s'.history = o :: s.history)
    (hclosed : (s.rounds ref).closed = true → r.closed = true)
    (hemptied : r.advancing = true → r.closed = true → r.pending = [])
    (hadv : (s.rounds ref).advancing = true → r.advancing = true) : CancelMoves s s' := by
  refine hs.plain hm hgates htag hist (hs.book.shuts_setRound hrounds hnext hclosed hemptied)
    fun ref' _ h => ?_
  rw [hrounds]
  by_cases he : ref' = ref
  · subst he
    rw [Function.update_self]
    exact hadv h
  · rw [Function.update_of_ne he]
    exact h

theorem CancelInv.setAdvancing (hs : CancelInv s) (href : ref < s.nextRound)
    (hopen : (s.rounds ref).closed = false) : CancelMoves s (s.setAdvancing ref true) := by
  refine hs.setRound (r := { s.rounds ref with advancing := true }) rfl
    (hs.rounds.setAdvancing href (fun h => h) true) rfl rfl rfl (.inl rfl) (fun h => h)
    (fun _ hc => ?_) fun _ => rfl
  have hclosed : (s.rounds ref).closed = true := hc
  rw [hopen] at hclosed
  cases hclosed

/-- The loop that drives a round ends where it began. -/
theorem CancelMoves.stop (h : CancelMoves s₀ s) (href : ref < s₀.nextRound)
    (hstill : (s₀.rounds ref).advancing = false) :
    CancelMoves s₀ (s.setAdvancing ref false) := by
  obtain ⟨hs, hev, hun⟩ := h
  have hm : Moves nobody s (s.setAdvancing ref false) :=
    hs.rounds.setAdvancing (Nat.lt_of_lt_of_le href hev.nextRound) (fun h => h) false
  have hb : CancelBook (s.setAdvancing ref false) :=
    hs.book.plain hm.2 rfl rfl (.inl rfl)
      (hs.book.shuts_setRound rfl rfl (fun h => h) fun h => by cases h)
  refine ⟨⟨hm.1, hb⟩, hev.trans hm.2, hun.history, hun.nextTag, hun.held,
    fun ref' href' hadv => ?_⟩
  have hne : ref' ≠ ref := fun he => by rw [he, hstill] at hadv; cases hadv
  have hother : (s.setAdvancing ref false).rounds ref' = s.rounds ref' :=
    Function.update_of_ne hne ..
  rw [hother]
  exact hun.advancing ref' href' hadv

theorem CancelInv.closeRound (hs : CancelInv s) (href : ref < s.nextRound)
    (hopen : (s.rounds ref).closed = false) (hstill : (s.rounds ref).advancing = false)
    (hsettled : (s.rounds ref).isSettled = true) :
    CancelMoves s (s.closeRound ref (s.rounds ref).requestId) := by
  refine hs.setRound (r := { s.rounds ref with closed := true }) rfl
    (hs.rounds.closeRound href (fun h => h) hopen hsettled) rfl rfl rfl
    (.inr ⟨.completed ref _ _, trivial, rfl⟩) (fun _ => rfl) (fun hadv _ => ?_) fun h => h
  have hadv : (s.rounds ref).advancing = true := hadv
  rw [hstill] at hadv
  cases hadv

theorem CancelInv.settleCall (hs : CancelInv s) {req id : String}
    (hl : s.toolRounds.lookup req = some ref) {rich : ToolResult} {success : Bool}
    {settled : ToolRound} (hsettle : (s.rounds ref).settle id rich success = some settled) :
    CancelMoves s (s.settleCall ref id rich settled) := by
  have href := (hs.rounds.owned req ref hl).1
  obtain ⟨before, p, after, hp, -, -, hp', -, -, hadvancing, hclosed⟩ :=
    ToolRound.settle_cases hsettle
  refine hs.setRound (r := settled) rfl (hs.rounds.settleCall href (fun h => h) hsettle) rfl rfl
    rfl (.inr ⟨.settled ref id rich, trivial, rfl⟩) (fun h => hclosed.trans h) (fun ha hc => ?_)
    fun h => hadvancing.trans h
  have hnil := hs.book.emptied ref href (hadvancing ▸ ha) (hclosed ▸ hc)
  rw [hp] at hnil
  exact absurd hnil (by simp)

theorem CancelInv.openRound (hs : CancelInv s) {req : String}
    (hm : Moves nobody s (s.openRound req)) : CancelMoves s (s.openRound req) := by
  have hother : ∀ ref < s.nextRound, (s.openRound req).rounds ref = s.rounds ref :=
    fun ref href => Function.update_of_ne (Nat.ne_of_lt href) ..
  refine hs.plain hm rfl rfl (.inl rfl) ⟨fun ref href h => ?_, fun ref href hadv hc => ?_⟩
    fun ref href h => ?_
  · rw [hother ref href]
    exact h
  · rcases Nat.lt_succ_iff_lt_or_eq.mp href with hlt | rfl
    · rw [hother ref hlt] at hadv hc ⊢
      exact hs.book.emptied ref hlt hadv hc
    · have hself : (s.openRound req).rounds s.nextRound = { requestId := req } :=
        Function.update_self ..
      rw [hself]
  · rw [hother ref href]
    exact h

theorem CancelInv.addCall (hs : CancelInv s) (href : ref < s.nextRound)
    (hopen : (s.rounds ref).closed = false) (call : ToolRound.Call) :
    CancelMoves s (s.addCall ref call) := by
  have hm : Moves nobody s (s.addCall ref call) :=
    hs.rounds.addCall href (fun h => h) hopen call
  unfold ToolsManager.addCall at hm ⊢
  split at hm
  · rename_i hin
    rw [if_pos hin]
    exact hs.refl
  · rename_i hnew
    rw [if_neg hnew]
    have hfresh : call.id ∉ (s.rounds ref).ids := fun h => hnew (ToolRound.contains_index.mpr h)
    obtain ⟨-, -, -, hadvancing, hclosed⟩ := ToolRound.addCall_of_notMem hfresh
    refine hs.setRound (r := (s.rounds ref).addCall call) rfl hm rfl rfl rfl
      (.inr ⟨.called ref call.id, trivial, rfl⟩) (fun h => hclosed.trans h) (fun _ hc => ?_)
      fun h => hadvancing.trans h
    rw [hclosed, hopen] at hc
    cases hc

theorem CancelMoves.addCalls (h : CancelMoves s₀ s) (href : ref < s.nextRound)
    (hopen : (s.rounds ref).closed = false) (calls : List ToolRound.Call) :
    CancelMoves s₀ (s.addCalls ref calls) := by
  induction calls generalizing s with
  | nil => exact h
  | cons call calls ih =>
      have h₁ := h.1.addCall href hopen call
      exact ih (h.trans h₁) (Nat.lt_of_lt_of_le href h₁.2.1.nextRound) (closed_addCall hopen call)

theorem CancelInv.extendRound (hs : CancelInv s) (req : String) (calls : List ToolRound.Call) :
    CancelMoves s (s.extendRound req calls) := by
  obtain ⟨hm, href, -, hopen⟩ := hs.rounds.currentRound (show ¬nobody req from fun h => h)
  have hcurrent : CancelMoves s (s.currentRound req).2 := by
    unfold ToolsManager.currentRound at hm ⊢
    split at hm
    · exact hs.openRound hm
    · split at hm
      · rename_i hc
        rw [if_pos hc]
        exact hs.openRound hm
      · rename_i hc
        rw [if_neg hc]
        exact hs.refl
  exact hcurrent.addCalls href hopen calls

/-! ### Cleaning up -/

theorem CancelInv.dropRound (hs : CancelInv s) (req : String) :
    CancelMoves s (s.dropRound req) := by
  have hm : Moves nobody s (s.dropRound req) := hs.rounds.dropRound fun h => h
  unfold ToolsManager.dropRound at hm ⊢
  cases hl : s.toolRounds.lookup req with
  | none => exact hs.refl
  | some ref =>
      rw [hl] at hm
      exact hs.setRound (r := (s.rounds ref).abandon) rfl hm rfl rfl rfl
        (.inr ⟨.abandoned ref, trivial, rfl⟩) (fun _ => rfl) (fun _ _ => rfl) fun h => h

/-- A request that was cleaned up has no round. -/
theorem lookup_dropRound (s : ToolsManager) (req : String) :
    (s.dropRound req).toolRounds.lookup req = none := by
  unfold ToolsManager.dropRound
  cases hl : s.toolRounds.lookup req with
  | none => exact hl
  | some ref => exact AList.lookup_erase ..

/-- No call of the request is about to be executed. -/
def NoneStarting (s : ToolsManager) (req : String) : Prop :=
  ∀ tag d, Starting s.history tag → .dispatched tag d ∈ s.history → d.args.requestId ≠ req

theorem nextRound_dropRound (s : ToolsManager) (req : String) :
    (s.dropRound req).nextRound = s.nextRound := by
  unfold ToolsManager.dropRound
  split <;> rfl

theorem CancelInv.cleanupRequest (hs : CancelInv s) {req : String} (hc : NoneStarting s req) :
    CancelMoves s (s.cleanupRequest req) := by
  have h₁ := hs.dropRound req
  have hhist : ∀ o, o ∈ (s.dropRound req).history → (∀ ref, o ≠ .abandoned ref) →
      o ∈ s.history := by
    intro o ho hne
    unfold ToolsManager.dropRound at ho
    split at ho
    · exact ho
    · exact mem_old ho (hne _)
  have hm : Moves nobody (s.dropRound req) (s.cleanupRequest req) :=
    h₁.1.rounds.neutral rfl rfl rfl (.inr ⟨.cleaned req _, rfl, trivial, rfl⟩)
  have hb := h₁.1.book
  have hlate : ∀ {req' ref}, Late (s.cleanupRequest req).history req' ref →
      req' = req ∨ Late (s.dropRound req).history req' ref := by
    rintro req' ref ⟨bound, hmem, hlt⟩
    rcases List.mem_cons.mp hmem with he | hmem
    · cases he
      exact .inl rfl
    · exact .inr ⟨bound, hmem, hlt⟩
  refine h₁.trans ⟨⟨hm.1, ordered_cons.mpr ⟨trivial, hb.history⟩,
    fun tag d h => hb.dispatched tag d (mem_old h nofun),
    fun tag d d' h h' => hb.unique tag d d' (mem_old h nofun) (mem_old h' nofun),
    fun tag args h => hb.announced tag args (mem_old h nofun),
    fun tag args h => hb.executed tag args (mem_old h nofun), fun tag w h => ?_,
    fun tag d hstart hd hl => ?_, fun req' bound h => ?_, fun ref href hl => ?_, hb.emptied⟩, hm.2,
    fun o ho => List.mem_cons_of_mem _ ho, Nat.le_refl _, fun tag _ hg => ⟨hg,
      fun args h => mem_old h nofun, fun args h => mem_old h nofun⟩, fun _ _ h => h⟩
  · obtain ⟨hun, d, hd, hargs, hround⟩ := hb.watched tag w h
    exact ⟨⟨fun args h => hun.unannounced args (mem_old h nofun),
      fun args h => hun.unexecuted args (mem_old h nofun)⟩, d, List.mem_cons_of_mem _ hd, hargs,
      hround⟩
  · obtain ⟨⟨args, ha⟩, hx⟩ := hstart
    have ha : .announced tag args ∈ (s.dropRound req).history := mem_old ha nofun
    have hx : ∀ args, .executed tag args ∉ (s.dropRound req).history :=
      fun args h => hx args (List.mem_cons_of_mem _ h)
    have hd : .dispatched tag d ∈ (s.dropRound req).history := mem_old hd nofun
    rcases hlate hl with hreq | hold
    · refine hc tag d ⟨⟨args, hhist _ ha nofun⟩, fun args h => ?_⟩ (hhist _ hd nofun) hreq
      exact hx args (h₁.2.2.history _ h)
    · exact hb.starting tag d ⟨⟨args, ha⟩, hx⟩ hd hold
  · rcases List.mem_cons.mp h with he | h
    · cases he
      exact Nat.le_of_eq (nextRound_dropRound s req).symm
    · exact hb.bound req' bound h
  · rcases hlate hl with hreq | hold
    · -- an open round would be the one that was dropped
      by_contra hopen
      have hopen : ((s.dropRound req).rounds ref).closed ≠ true := hopen
      have hcurrent := h₁.1.rounds.current ref href (by simpa using hopen)
      have hreq : ((s.dropRound req).rounds ref).requestId = req := hreq
      rw [hreq, lookup_dropRound] at hcurrent
      cases hcurrent
    · exact hb.closed ref href hold

/-! ### Starting a call -/

/-- From state `s` on some code holds the call `tag`, which nobody has started; the visit
began in `s₀`, where the call was not held. -/
structure Poised (s₀ s : ToolsManager) (tag : CallTag) (d : Dispatch) : Prop where
  moves : CancelMoves s₀ s
  free : tag < s₀.nextTag → s₀.gates.lookup tag ≠ none
  dispatched : .dispatched tag d ∈ s.history
  unwatched : s.gates.lookup tag = none
  unstarted : Unstarted s.history tag

namespace Poised

variable {tag : CallTag} {d : Dispatch}

theorem known (h : Poised s₀ s tag d) : tag < s.nextTag :=
  (h.moves.1.book.dispatched tag d h.dispatched).1

theorem next (h : Poised s₀ s tag d) (hm : CancelMoves s s') : Poised s₀ s' tag d := by
  obtain ⟨hg, ha, hx⟩ := hm.2.2.held tag h.known h.unwatched
  exact ⟨h.moves.trans hm, h.free, hm.2.2.history _ h.dispatched, hg,
    fun args he => h.unstarted.unannounced args (ha args he),
    fun args he => h.unstarted.unexecuted args (hx args he)⟩

/-- The start of the call is announced. -/
theorem announce (h : Poised s₀ s tag d) (hin : ¬Late s.history d.args.requestId d.round) :
    CancelMoves s₀ (s.observe (.announced tag d.args)) := by
  obtain ⟨hs, hev, hun⟩ := h.moves
  have hb := hs.book
  have hm : Moves nobody s (s.observe (.announced tag d.args)) :=
    hs.rounds.neutral rfl rfl rfl (.inr ⟨.announced tag d.args, rfl, trivial, rfl⟩)
  have hlate : ∀ {req ref}, Late (s.observe (.announced tag d.args)).history req ref →
      Late s.history req ref := late_plain nofun
  refine ⟨⟨hm.1, ordered_cons.mpr ⟨trivial, hb.history⟩,
    fun tag' d' h => hb.dispatched tag' d' (mem_old h nofun),
    fun tag' d₁ d₂ h h' => hb.unique tag' d₁ d₂ (mem_old h nofun) (mem_old h' nofun),
    fun tag' args he => ?_, fun tag' args h => hb.executed tag' args (mem_old h nofun),
    fun tag' w hw => ?_, fun tag' d' hstart hd hl => ?_,
    fun req bound h => hb.bound req bound (mem_old h nofun),
    fun ref href hl => hb.closed ref href (hlate hl), hb.emptied⟩, hev.trans hm.2,
    fun o ho => List.mem_cons_of_mem _ (hun.history o ho), hun.nextTag, fun tag' ht hg => ?_,
    hun.advancing⟩
  · rcases List.mem_cons.mp he with he | he
    · cases he
      exact h.known
    · exact hb.announced tag' args he
  · obtain ⟨hunst, d', hd, hargs, hround⟩ := hb.watched tag' w hw
    refine ⟨⟨fun args he => ?_, fun args he => hunst.unexecuted args (mem_old he nofun)⟩, d',
      List.mem_cons_of_mem _ hd, hargs, hround⟩
    rcases List.mem_cons.mp he with he | he
    · cases he
      have hnone : s.gates.lookup tag = some w := hw
      rw [h.unwatched] at hnone
      cases hnone
    · exact hunst.unannounced args he
  · obtain ⟨⟨args, ha⟩, hx⟩ := hstart
    have hd : .dispatched tag' d' ∈ s.history := mem_old hd nofun
    rcases List.mem_cons.mp ha with he | ha
    · cases he
      rw [hb.unique tag d' d hd h.dispatched] at hl
      exact hin (hlate hl)
    · exact hb.starting tag' d' ⟨⟨args, ha⟩, fun args h => hx args (List.mem_cons_of_mem _ h)⟩ hd
        (hlate hl)
  · obtain ⟨hg', ha, hx⟩ := hun.held tag' ht hg
    refine ⟨hg', fun args he => ?_, fun args he => hx args (mem_old he nofun)⟩
    rcases List.mem_cons.mp he with he | he
    · cases he
      exact absurd hg (h.free ht)
    · exact ha args he

/-- A call whose start was announced is executed. -/
theorem startRecord (h : CancelMoves s₀ s) (hfree : tag < s₀.nextTag → s₀.gates.lookup tag ≠ none)
    (hd : .dispatched tag d ∈ s.history) (hg : s.gates.lookup tag = none)
    (hstart : Starting s.history tag) : CancelMoves s₀ (s.startRecord tag d.args) := by
  obtain ⟨hs, hev, hun⟩ := h
  have hb := hs.book
  have hm : Moves nobody s (s.startRecord tag d.args) :=
    hs.rounds.neutral rfl rfl rfl (.inr ⟨.executed tag d.args, rfl, trivial, rfl⟩)
  have hlate : ∀ {req ref}, Late (s.startRecord tag d.args).history req ref →
      Late s.history req ref := late_plain nofun
  have hin := hb.starting tag d hstart hd
  refine ⟨⟨hm.1, ordered_cons.mpr ⟨⟨d, hd, rfl, hin⟩, hb.history⟩,
    fun tag' d' h => hb.dispatched tag' d' (mem_old h nofun),
    fun tag' d₁ d₂ h h' => hb.unique tag' d₁ d₂ (mem_old h nofun) (mem_old h' nofun),
    fun tag' args h => hb.announced tag' args (mem_old h nofun), fun tag' args he => ?_,
    fun tag' w hw => ?_, fun tag' d' hstart' hd' hl => ?_,
    fun req bound h => hb.bound req bound (mem_old h nofun),
    fun ref href hl => hb.closed ref href (hlate hl), hb.emptied⟩, hev.trans hm.2,
    fun o ho => List.mem_cons_of_mem _ (hun.history o ho), hun.nextTag, fun tag' ht hg' => ?_,
    hun.advancing⟩
  · rcases List.mem_cons.mp he with he | he
    · cases he
      exact (hb.dispatched tag d hd).1
    · exact hb.executed tag' args he
  · obtain ⟨hunst, d', hd', hargs, hround⟩ := hb.watched tag' w hw
    refine ⟨⟨fun args he => hunst.unannounced args (mem_old he nofun), fun args he => ?_⟩, d',
      List.mem_cons_of_mem _ hd', hargs, hround⟩
    rcases List.mem_cons.mp he with he | he
    · cases he
      have hsome : s.gates.lookup tag = some w := hw
      rw [hg] at hsome
      cases hsome
    · exact hunst.unexecuted args he
  · obtain ⟨⟨args, ha⟩, hx⟩ := hstart'
    exact hb.starting tag' d' ⟨⟨args, mem_old ha nofun⟩,
      fun args h => hx args (List.mem_cons_of_mem _ h)⟩ (mem_old hd' nofun) (hlate hl)
  · obtain ⟨hg₁, ha, hx⟩ := hun.held tag' ht hg'
    refine ⟨hg₁, fun args he => ha args (mem_old he nofun), fun args he => ?_⟩
    rcases List.mem_cons.mp he with he | he
    · cases he
      exact absurd hg' (hfree ht)
    · exact hx args he

/-- The future of the gate is watched. -/
theorem watchGate (h : Poised s₀ s tag d) :
    CancelMoves s₀ (s.watchGate tag ⟨d.args, d.round⟩) := by
  obtain ⟨hs, hev, hun⟩ := h.moves
  have hb := hs.book
  have hm : Moves nobody s (s.watchGate tag ⟨d.args, d.round⟩) :=
    hs.rounds.neutral rfl rfl rfl (.inl rfl)
  refine ⟨⟨hm.1, hb.history, hb.dispatched, hb.unique, hb.announced, hb.executed,
    fun tag' w hw => ?_, hb.starting, hb.bound, hb.closed, hb.emptied⟩, hev.trans hm.2,
    hun.history, hun.nextTag, fun tag' ht hg => ?_, hun.advancing⟩
  · have hw : (s.gates.insert tag ⟨d.args, d.round⟩).lookup tag' = some w := hw
    by_cases he : tag' = tag
    · subst he
      rw [AList.lookup_insert] at hw
      obtain rfl := Option.some.inj hw
      exact ⟨h.unstarted, d, h.dispatched, rfl, rfl⟩
    · rw [AList.lookup_insert_ne he] at hw
      exact hb.watched tag' w hw
  · obtain ⟨hg₁, ha, hx⟩ := hun.held tag' ht hg
    refine ⟨?_, ha, hx⟩
    have hne : tag' ≠ tag := fun he => by
      subst he
      exact h.free ht hg
    exact (AList.lookup_insert_ne hne).trans hg₁

end Poised

/-! ### The code -/

/-- The code `p` ends in a state `s₀` may become. -/
abbrev WpCancel {α : Type} (s₀ : ToolsManager) (p : Proc ToolsSig α) (s : ToolsManager) : Prop :=
  cancelContract.KeepsFrom (fun _ _ _ => True) s₀ p s

theorem wpCancel_finalizePendingTool (h : CancelMoves s₀ s) (req id : String)
    (rich : ToolResult) (success : Bool) :
    WpCancel s₀ (toolsHost.finalizePendingTool req id rich success).run s := by
  refine Contract.KeepsFrom.run_read ?_
  cases hl : s.toolRounds.lookup req with
  | none => exact h
  | some ref =>
      dsimp only
      cases hsettle : (s.rounds ref).settle id rich success with
      | none => exact h
      | some settled =>
          have h₁ := h.trans (h.1.settleCall hl hsettle)
          refine Contract.KeepsFrom.run_modify ?_
          cases settled.find id with
          | none => exact h₁
          | some pending =>
              refine .run_bind (.lift (.query cancelContract_preorder h₁ _)) fun _ s₂ h₂ => ?_
              exact ⟨h₂.1, fun _ _ h₃ => CancelMoves.trans h₂ h₃⟩

theorem wpCancel_startExecution {tag : CallTag} {d : Dispatch} (h : Poised s₀ s tag d)
    (hin : d.args.toolName ∈ s.tools → ¬Late s.history d.args.requestId d.round) :
    WpCancel s₀ (toolsHost.startExecution tag d.args).run s := by
  refine Contract.KeepsFrom.run_read ?_
  cases htool : s.tools.lookup d.args.toolName with
  | none => exact wpCancel_finalizePendingTool h.moves _ _ _ _
  | some tool =>
      have hmem : d.args.toolName ∈ s.tools :=
        AList.lookup_isSome.mp (by rw [htool]; rfl)
      have h₁ := h.announce (hin hmem)
      show WpCancel s₀ ((liftM (toolsHost.emit (.toolExecutionStarted d.args)) :
        Throws ToolsSig Unit) >>= fun _ => toolsHost.executeToolAsync tag d.args tool).run
          (s.observe (.announced tag d.args))
      -- the slots cannot end the request, and nobody else executes the call
      refine (wp_run_bind (liftM (toolsHost.emit (.toolExecutionStarted d.args)) :
        Throws ToolsSig Unit) _ _ (s.observe (.announced tag d.args))).mpr
          ⟨h₁.1, fun s₁ hr hi _ _ => ?_⟩
      have hknown : tag < (s.observe (.announced tag d.args)).nextTag := h.known
      obtain ⟨hg, ha, hx⟩ := hr.2.held tag hknown h.unwatched
      have hstart : Starting s₁.history tag :=
        ⟨⟨d.args, hr.2.history _ List.mem_cons_self⟩, fun args he =>
          h.unstarted.unexecuted args (mem_old (hx args he) (by simp))⟩
      have hd : .dispatched tag d ∈ s₁.history :=
        hr.2.history _ (List.mem_cons_of_mem _ h.dispatched)
      have h₂ := Poised.startRecord (h₁.trans ⟨hi, hr⟩) h.free hd hg hstart
      show WpCancel s₀ (Proc.query (S := ToolsSig) _) (s₁.startRecord tag d.args)
      exact .query cancelContract_preorder h₂ _

theorem wpCancel_askGate {tag : CallTag} {d : Dispatch} (h : Poised s₀ s tag d) :
    WpCancel s₀ (toolsHost.askGate tag d.round d.args).run s := by
  have h₁ := h.next (h.moves.1.note (o := .asked tag d.args) rfl trivial trivial)
  show WpCancel s₀ ((ExceptT.mk (toolsHost.gate d.args) : Throws ToolsSig Unit) >>= fun _ =>
    liftM (toolsHost.modify fun s => s.watchGate tag ⟨d.args, d.round⟩)).run
      (s.observe (.asked tag d.args))
  refine (wp_run_bind (ExceptT.mk (toolsHost.gate d.args) : Throws ToolsSig Unit) _ _
    (s.observe (.asked tag d.args))).mpr ⟨h₁.moves.1, fun s₂ hr hi r _ => ?_⟩
  have h₂ := h₁.next ⟨hi, hr⟩
  cases r with
  | error e => exact h₂.moves
  | ok _ => exact h₂.watchGate

/-- A call that is dispatched is held by the code that dispatches it. -/
theorem CancelInv.dispatch (hs : CancelInv s) {d : Dispatch}
    (hm : Moves nobody s ((s.takeNext ref).markDispatched d)) (href : ref < s.nextRound)
    (hround : d.round = ref) (hreq : (s.rounds ref).requestId = d.args.requestId) :
    Poised s ((s.takeNext ref).markDispatched d) s.nextTag d := by
  have hb := hs.book
  have hrounds : Shuts s ((s.takeNext ref).markDispatched d) :=
    hb.shuts_setRound (r := { s.rounds ref with next := (s.rounds ref).next + 1 }) rfl rfl
      (fun h => h) fun hadv hc => hb.emptied ref href hadv hc
  have hlate : ∀ {req ref'}, Late ((s.takeNext ref).markDispatched d).history req ref' →
      Late s.history req ref' := late_plain nofun
  have hold : ∀ {tag' d'}, .dispatched tag' d' ∈ ((s.takeNext ref).markDispatched d).history →
      (tag' = s.nextTag ∧ d' = d) ∨ .dispatched tag' d' ∈ s.history := by
    intro tag' d' h
    rcases List.mem_cons.mp h with he | h
    · cases he
      exact .inl ⟨rfl, rfl⟩
    · exact .inr h
  have hfresh : ∀ d', .dispatched s.nextTag d' ∉ s.history := fun d' h =>
    absurd (hb.dispatched _ d' h).1 (Nat.lt_irrefl _)
  have hnone : s.gates.lookup s.nextTag = none :=
    Option.eq_none_iff_forall_ne_some.mpr fun w hw => by
      obtain ⟨-, d', hd', -⟩ := hb.watched _ w hw
      exact hfresh d' hd'
  have hself : ((s.takeNext ref).markDispatched d).rounds ref =
      { s.rounds ref with next := (s.rounds ref).next + 1 } := Function.update_self ..
  refine ⟨⟨⟨hm.1, ordered_cons.mpr ⟨trivial, hb.history⟩, fun tag' d' h => ?_,
    fun tag' d₁ d₂ h₁ h₂ => ?_,
    fun tag' args h => Nat.lt_succ_of_lt (hb.announced tag' args (mem_old h nofun)),
    fun tag' args h => Nat.lt_succ_of_lt (hb.executed tag' args (mem_old h nofun)),
    fun tag' w hw => ?_, fun tag' d' hstart hd hl => ?_,
    fun req bound h => hb.bound req bound (mem_old h nofun), fun ref' href' hl => ?_,
    hrounds.emptied⟩, hm.2, fun o ho => List.mem_cons_of_mem _ ho, Nat.le_succ _,
    fun tag' _ hg => ⟨hg, fun args h => mem_old h nofun, fun args h => mem_old h nofun⟩,
    fun ref' _ hadv => ?_⟩, fun h => absurd h (Nat.lt_irrefl _), List.mem_cons_self, hnone,
    fun args h => absurd (hb.announced _ args (mem_old h nofun)) (Nat.lt_irrefl _),
    fun args h => absurd (hb.executed _ args (mem_old h nofun)) (Nat.lt_irrefl _)⟩
  · rcases hold h with ⟨rfl, rfl⟩ | h
    · refine ⟨Nat.lt_succ_self _, by rw [hround]; exact href, ?_⟩
      rw [hround, ← hreq]
      exact hm.2.requestId ref href
    · obtain ⟨ht, hr, hreq'⟩ := hb.dispatched tag' d' h
      exact ⟨Nat.lt_succ_of_lt ht, hr, (hm.2.requestId _ hr).trans hreq'⟩
  · rcases hold h₁ with ⟨rfl, he₁⟩ | hold₁
    · rcases hold h₂ with ⟨-, he₂⟩ | hold₂
      · rw [he₁, he₂]
      · exact absurd hold₂ (hfresh _)
    · rcases hold h₂ with ⟨rfl, -⟩ | hold₂
      · exact absurd hold₁ (hfresh _)
      · exact hb.unique tag' d₁ d₂ hold₁ hold₂
  · obtain ⟨hun, d', hd', hargs, hround'⟩ := hb.watched tag' w hw
    exact ⟨⟨fun args h => hun.unannounced args (mem_old h nofun),
      fun args h => hun.unexecuted args (mem_old h nofun)⟩, d', List.mem_cons_of_mem _ hd', hargs,
      hround'⟩
  · obtain ⟨⟨args, ha⟩, hx⟩ := hstart
    have ha : .announced tag' args ∈ s.history := mem_old ha nofun
    rcases hold hd with ⟨rfl, -⟩ | hd
    · exact absurd (hb.announced _ args ha) (Nat.lt_irrefl _)
    · exact hb.starting tag' d' ⟨⟨args, ha⟩, fun args h => hx args (List.mem_cons_of_mem _ h)⟩ hd
        (hlate hl)
  · have href' : ref' < s.nextRound := href'
    rw [hm.2.requestId ref' href'] at hl
    exact hrounds.closed ref' href' (hb.closed ref' href' (hlate hl))
  · by_cases he : ref' = ref
    · subst he
      rw [hself]
      exact hadv
    · have hother : ((s.takeNext ref).markDispatched d).rounds ref' = s.rounds ref' :=
        Function.update_of_ne he ..
      rw [hother]
      exact hadv

/-- Dispatching the call that was just taken from a round that is driven. -/
theorem wpCancel_dispatchCall (hs : CancelInv s) (href : ref < s.nextRound)
    (hadv : (s.rounds ref).advancing = true) {call : PendingTool}
    (hcall : (s.rounds ref).pending[(s.rounds ref).next]? = some call) {args : CallArgs}
    (hid : args.toolId = call.id) (hreq : (s.rounds ref).requestId = args.requestId) :
    WpCancel s (toolsHost.dispatchCall ref args).run (s.takeNext ref) := by
  have hpoised : ∀ safety, Poised s
      ((s.takeNext ref).markDispatched ⟨ref, args, safety, s.executionGate⟩) s.nextTag
      ⟨ref, args, safety, s.executionGate⟩ :=
    fun safety => hs.dispatch (hs.rounds.dispatchNext href (fun h => h) hcall _ rfl hid) href rfl
      hreq
  -- a round that was cleaned up has no call left
  have hin : ¬Late s.history args.requestId ref := by
    intro hl
    have hnil := hs.book.emptied ref href hadv (hs.book.closed ref href (hreq ▸ hl))
    rw [hnil] at hcall
    cases hcall
  refine Contract.KeepsFrom.run_read ?_
  cases (s.takeNext ref).tools.lookup args.toolName with
  | none =>
      show WpCancel s ((toolsHost.finalizePendingTool args.requestId args.toolId _ false >>=
        fun _ => pure false : Throws ToolsSig Bool)).run
        ((s.takeNext ref).markDispatched ⟨ref, args, none, s.executionGate⟩)
      exact .run_bind (wpCancel_finalizePendingTool (hpoised none).moves _ _ _ _)
        fun _ _ h => .ret h _
  | some tool =>
      have h₁ := hpoised (some tool.safety)
      show WpCancel s (if s.executionGate && tool.safety == .mutating then _ else _ :
        Throws ToolsSig Bool).run
        ((s.takeNext ref).markDispatched ⟨ref, args, some tool.safety, s.executionGate⟩)
      by_cases hgate : (s.executionGate && tool.safety == .mutating) = true
      · rw [if_pos hgate]
        exact .run_bind (wpCancel_askGate h₁) fun _ _ h => .ret h _
      · rw [if_neg hgate]
        refine .run_bind (wpCancel_startExecution h₁ fun _ hl => ?_) fun _ _ h => .ret h _
        obtain ⟨bound, hc, hlt⟩ := hl
        exact hin ⟨bound, mem_old hc (by simp), hlt⟩

theorem cancel_drives : Drives cancelContract fun _ _ _ => True where
  toPreorder := cancelContract_preorder
  rounds h := h.rounds
  evolves h := h.1
  drive h := h
  drive_post h := h
  loop h := ⟨h.1, h.2.1⟩
  loop_again h hm := ⟨hm.1, Nat.lt_of_lt_of_le h.2.1 hm.2.1.nextRound,
    hm.2.2.advancing _ h.2.1 h.2.2⟩
  loop_post h := h
  update {s s'} hs h₁ h₂ h₃ h₄ h₅ h₆ _ :=
    hs.plain (hs.rounds.neutral h₁ h₂ h₃ (.inl h₆)) h₄ h₅ (.inl h₆) (hs.book.shuts h₁ h₂)
      fun ref _ h => by rw [h₁]; exact h
  extend req calls hs := hs.extendRound req calls
  start {s ref} hs href hopen := by
    have h₁ := hs.setAdvancing href hopen
    have hself : (s.setAdvancing ref true).rounds ref = { s.rounds ref with advancing := true } :=
      Function.update_self ..
    exact ⟨h₁, h₁.1, href, by rw [hself]⟩
  stop h href hstill := CancelMoves.stop h href hstill
  close hs href hopen hstill hsettled := hs.closeRound href hopen hstill hsettled
  dispatch h hcall hid hreq := wpCancel_dispatchCall h.1 h.2.1 h.2.2 hcall hid hreq

/-! ### The condition on a run -/

/-- No call is approved too late while its tool is there, and no request is cleaned up while
one of its calls is about to be executed. -/
def Timely (s : ToolsManager) : ToolsCall → Prop
  | .gateFinished tag (.ok true) => ∀ w, s.gates.lookup tag = some w →
      w.args.toolName ∈ s.tools → ¬Late s.history w.args.requestId w.round
  | .cleanupRequest req => NoneStarting s req
  | _ => True

/-- The future of the gate is no longer watched. -/
theorem CancelInv.unwatch (hs : CancelInv s) {tag : CallTag} {w : GateWatcher}
    (hw : s.gates.lookup tag = some w) :
    ∃ d, d.args = w.args ∧ d.round = w.round ∧
      Poised s { s with gates := s.gates.erase tag } tag d := by
  have hb := hs.book
  obtain ⟨hun, d, hd, hargs, hround⟩ := hb.watched tag w hw
  have hm : Moves nobody s { s with gates := s.gates.erase tag } :=
    hs.rounds.neutral rfl rfl rfl (.inl rfl)
  refine ⟨d, hargs, hround, ⟨⟨hm.1, hb.history, hb.dispatched, hb.unique, hb.announced,
    hb.executed, fun tag' w' hw' => ?_, hb.starting, hb.bound, hb.closed, hb.emptied⟩, hm.2,
    fun _ h => h, Nat.le_refl _, fun tag' _ hg => ⟨?_, fun _ h => h, fun _ h => h⟩, fun _ _ h => h⟩,
    fun _ hnone => ?_, hd, AList.lookup_erase .., hun⟩
  · have hw' : (s.gates.erase tag).lookup tag' = some w' := hw'
    by_cases ht : tag' = tag
    · subst ht
      rw [AList.lookup_erase] at hw'
      cases hw'
    · rw [AList.lookup_erase_ne ht] at hw'
      exact hb.watched tag' w' hw'
  · have hne : tag' ≠ tag := fun he => by
      rw [he, hw] at hg
      cases hg
    exact (AList.lookup_erase_ne hne).trans hg
  · rw [hw] at hnone
    cases hnone

theorem wpCancel_gateFinished (hs : CancelInv s) {tag : CallTag} {outcome : Except Unit Bool}
    (hc : Timely s (.gateFinished tag outcome)) :
    WpCancel s (toolsHost.gateFinished tag outcome) s := by
  refine Contract.KeepsFrom.read ?_
  cases hw : s.gates.lookup tag with
  | none => exact hs.refl
  | some w =>
      obtain ⟨d, hargs, hround, hpoised⟩ := hs.unwatch hw
      cases outcome with
      | error _ => exact hpoised.moves
      | ok allowed =>
          have h₁ := hpoised.next (hpoised.moves.1.note
            (o := .yielded tag allowed !(s.rounds w.round).closed) rfl trivial trivial)
          cases allowed with
          | false => exact .discard (wpCancel_finalizePendingTool h₁.moves _ _ _ _)
          | true =>
              have hstart := wpCancel_startExecution h₁ fun hmem hl => ?_
              · rw [hargs] at hstart
                exact .discard hstart
              · obtain ⟨bound, hcleaned, hlt⟩ := hl
                rw [hargs] at hmem hcleaned
                exact hc w hw hmem ⟨bound, mem_old hcleaned (by simp), hround ▸ hlt⟩

theorem wpCancel_onToolExecutionFinished (hs : CancelInv s) (key : ExecutionKey)
    (outcome : Except ToolExn ToolResult) :
    WpCancel s (toolsHost.onToolExecutionFinished key outcome) s := by
  show WpCancel s (if key ∈ s.activeExecutions then _ else _ : Proc ToolsSig Unit) s
  by_cases hk : key ∈ s.activeExecutions
  · rw [if_pos hk]
    let s₁ : ToolsManager := { s with activeExecutions := s.activeExecutions.erase key }
    have h₁ : CancelMoves s s₁ := hs.plain (hs.rounds.neutral rfl rfl rfl (.inl rfl)) rfl rfl
      (.inl rfl) (hs.book.shuts rfl rfl) fun _ _ h => h
    have hreport : WpCancel s (toolsHost.reportResult key outcome).run s₁ := by
      cases outcome with
      | error e => exact h₁
      | ok result =>
          show WpCancel s (if result.isError then _ else _ : Throws ToolsSig Unit).run s₁
          by_cases herr : result.isError = true
          · rw [if_pos herr]
            exact wpCancel_finalizePendingTool h₁ _ _ _ _
          · rw [if_neg herr]
            exact wpCancel_finalizePendingTool h₁ _ _ _ _
    refine (wp_bind (toolsHost.reportResult key outcome).run _ _ s₁).mpr ?_
    refine wp_mono hreport fun r s₂ h₂ => ?_
    cases r with
    | ok _ => exact h₂
    | error e => exact Contract.KeepsFrom.discard (wpCancel_finalizePendingTool h₂ _ _ _ _)
  · rw [if_neg hk]
    exact hs.refl

/-! ### Runs -/

/-- Surroundings that approve no call too late and clean no request up while one of its
calls is about to be executed. -/
abbrev timely : Surroundings toolsMachine := .only toolsMachine Timely

theorem cancel_valid : cancelContract.Valid timely :=
  Contract.Valid.of_guarded cancelContract_preorder
    (fun _ c hs hc => cancel_drives.call hs c
      (fun _ he => hs.cleanupRequest (by rw [he] at hc; exact hc))
      (fun _ _ he => wpCancel_gateFinished hs (by rw [he] at hc; exact hc))
      fun key outcome _ => wpCancel_onToolExecutionFinished hs key outcome)
    fun f _ h => match f with
      | .driveRound req => cancel_drives.driveBody h req
      | .advanceLoop _ => cancel_drives.advanceBody h

theorem cancelInv_init : CancelInv {} where
  rounds := roundsInv_init
  book := {
    history := ordered_nil
    dispatched := fun _ _ h => absurd h List.not_mem_nil
    unique := fun _ _ _ h => absurd h List.not_mem_nil
    announced := fun _ _ h => absurd h List.not_mem_nil
    executed := fun _ _ h => absurd h List.not_mem_nil
    watched := fun _ _ h => absurd h (by simp)
    starting := fun _ _ _ h => absurd h List.not_mem_nil
    bound := fun _ _ h => absurd h List.not_mem_nil
    closed := fun _ h => absurd h (Nat.not_lt_zero _)
    emptied := fun _ h => absurd h (Nat.not_lt_zero _) }

/-- In every run in which no call is approved too late and no request is cleaned up while one
of its calls is about to be executed, no call of a request is handed to `executeToolAsync`
after the request was cleaned up. -/
theorem no_start_after_cleanup {c : Config ToolsSig} (hrun : Reaches timely (.idle {}) c)
    (hw : c.Waiting) : NoLateStart c.state.history :=
  (cancel_valid.waiting cancelInv_init hrun hw).book.history

/-- The calls that were dispatched, with their tags. -/
def dispatches (h : List ToolObservation) : List (CallTag × Dispatch) :=
  h.filterMap fun
    | .dispatched tag d => some (tag, d)
    | _ => none

theorem mem_dispatches {h : List ToolObservation} {tag : CallTag} {d : Dispatch}
    (hd : .dispatched tag d ∈ h) : (tag, d) ∈ dispatches h :=
  List.mem_filterMap.mpr ⟨_, hd, rfl⟩

/-- A call is approved and executed, and then its request is cleaned up. -/
theorem no_start_after_cleanup_approved :
    ∃ c : Config ToolsSig, c.Waiting ∧ NoLateStart c.state.history ∧
      .executed 0 ⟨"r", "t1", "writer", []⟩ ∈ c.state.history ∧
      .cleaned "r" 1 ∈ c.state.history := by
  let asked := gatedMoves ++ askMoves writeCalls
  let started := asked ++ approveMoves.take 3
  have happroved : Timely (play toolsMachine 6 asked (.idle {})).state
      (.gateFinished 0 (.ok true)) := by
    rintro w - - ⟨bound, hc, -⟩
    exact nomatch hc
  have hcleaned : Timely (play toolsMachine 6 started (.idle {})).state (.cleanupRequest "r") := by
    rintro tag d ⟨-, hx⟩ hd -
    obtain heq := List.mem_singleton.mp (mem_dispatches hd)
    cases heq
    exact hx ⟨"r", "t1", "writer", []⟩ (.head _)
  have hplay : Playable timely 6 (started ++ [.event (.cleanupRequest "r")]) (.idle {}) :=
    ⟨trivial, trivial, trivial, trivial, trivial, happroved, trivial, trivial, hcleaned, trivial⟩
  have hw : (play toolsMachine 6 (started ++ [.event (.cleanupRequest "r")])
      (.idle {})).Waiting := Or.inl rfl
  exact ⟨_, hw, no_start_after_cleanup (reaches_play hplay) hw, .tail _ (.tail _ (.head _)),
    .head _⟩

/-- The request of a call is cleaned up, and then the gate approves the call; or it is
cleaned up by a slot of the signal that announces the start of the call. The call is
executed all the same. -/
theorem no_start_after_cleanup_fails :
    (∃ c : Config ToolsSig, Reaches (Surroundings.any toolsMachine) (.idle {}) c ∧ c.Waiting ∧
      ¬NoLateStart c.state.history) ∧
    ∃ c : Config ToolsSig, Reaches (Surroundings.any toolsMachine) (.idle {}) c ∧ c.Waiting ∧
      ¬NoLateStart c.state.history := by
  constructor
  · let moves := gatedMoves ++ askMoves writeCalls ++
      [.event (.cleanupRequest "r"), .event (.gateFinished 0 (.ok true)),
        .answer ToolsOut.returns]
    have hplay : Playable (Surroundings.any toolsMachine) 6 moves (.idle {}) :=
      ⟨trivial, trivial, trivial, trivial, trivial, trivial, trivial, trivial, trivial⟩
    refine ⟨_, reaches_play hplay, Or.inr ⟨_, _, rfl⟩, fun hn => ?_⟩
    obtain ⟨d, hd, -, hin⟩ := hn [] _ _ rfl
    have heq := List.mem_singleton.mp (mem_dispatches hd)
    cases heq
    exact hin ⟨1, .tail _ (.tail _ (.head _)), Nat.one_pos⟩
  · let moves := gatedMoves ++ askMoves writeCalls ++
      [.event (.gateFinished 0 (.ok true)), .event (.cleanupRequest "r"),
        .answer ToolsOut.returns]
    have hplay : Playable (Surroundings.any toolsMachine) 6 moves (.idle {}) :=
      ⟨trivial, trivial, trivial, trivial, trivial, trivial, trivial, trivial, trivial⟩
    refine ⟨_, reaches_play hplay, Or.inr ⟨_, _, rfl⟩, fun hn => ?_⟩
    obtain ⟨d, hd, -, hin⟩ := hn [] _ _ rfl
    have heq := List.mem_singleton.mp (mem_dispatches hd)
    cases heq
    exact hin ⟨1, .head _, Nat.one_pos⟩

end LLMQore.Tools
