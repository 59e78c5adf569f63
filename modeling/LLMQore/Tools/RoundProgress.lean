import LLMQore.Tools.ExecutionGate

/-!
# LLMQore.Tools.RoundProgress

An open round does not wait for a call nobody works on.

A call that was dispatched and is not settled is worked on by the future of the gate or by
an execution. Between these, and before the first of them, it is **adrift**: only the code
that runs at the moment will see to it. A complete visit of the manager leaves no call
adrift that was not adrift before (`LiveMoves`), so an idle manager has none.

The code leaves a call adrift for good in one way: the future of the gate ends without a
value (its exception is not handled), or the gate or the tool's body throws. The condition
on a run excludes these.
-/

namespace LLMQore.Tools

open Reentrant

/-! ### What holds of a state -/

/-- The call of a dispatch waits to be settled, in an open round. -/
structure Unsettled (s : ToolsManager) (d : Dispatch) : Prop where
  isOpen : (s.rounds d.round).closed = false
  waits : ∃ p ∈ (s.rounds d.round).pending, p.id = d.args.toolId ∧ p.complete = false

/-- The call waits to be settled and neither the gate nor an execution works on it. -/
def Adrift (s : ToolsManager) (tag : CallTag) : Prop :=
  ∃ d, .dispatched tag d ∈ s.history ∧ Unsettled s d ∧ s.gates.lookup tag = none ∧
    ∀ args, .executed tag args ∉ s.history

/-! ### The invariant -/

/-- What the tags stand for. An executed call that waits to be settled has a running
execution, but for those under the key `lost`. -/
structure TagBook (lost : Option ExecutionKey) (s : ToolsManager) : Prop where
  dispatched : ∀ tag d, .dispatched tag d ∈ s.history → tag < s.nextTag ∧
    d.round < s.nextRound ∧ (s.rounds d.round).requestId = d.args.requestId
  unique : ∀ tag d d', .dispatched tag d ∈ s.history → .dispatched tag d' ∈ s.history → d = d'
  executed : ∀ tag args, .executed tag args ∈ s.history → tag < s.nextTag
  watched : ∀ tag w, s.gates.lookup tag = some w →
    ∃ d, .dispatched tag d ∈ s.history ∧ d.args = w.args
  running : ∀ tag d args, .dispatched tag d ∈ s.history → .executed tag args ∈ s.history →
    Unsettled s d → lost = some d.args.key ∨ d.args.key ∈ s.activeExecutions

structure LiveInv (s : ToolsManager) : Prop where
  rounds : RoundsInv s
  book : TagBook none s

/-- The history grows, and no call is adrift that was not adrift before. -/
structure NoneLost (s s' : ToolsManager) : Prop where
  history : ∀ o ∈ s.history, o ∈ s'.history
  adrift : ∀ tag, Adrift s' tag → Adrift s tag

def liveContract : Contract ToolsSig where
  inv := LiveInv
  rely s s' := Evolves nobody s s' ∧ NoneLost s s'
  pre
    | .driveRound _, s => LiveInv s
    | .advanceLoop ref, s => LiveInv s ∧ ref < s.nextRound
  post _ s _ s' := LiveInv s' ∧ Evolves nobody s s' ∧ NoneLost s s'

theorem liveContract_preorder : liveContract.Preorder where
  refl s := ⟨.refl _ s, fun _ h => h, fun _ h => h⟩
  trans h₁ h₂ := ⟨h₁.1.trans h₂.1, fun o h => h₂.2.history o (h₁.2.history o h),
    fun tag h => h₁.2.adrift tag (h₂.2.adrift tag h)⟩

abbrev LiveMoves (s s' : ToolsManager) : Prop := liveContract.Moves s s'

variable {s s' s₀ : ToolsManager} {ref : RoundRef}

theorem LiveMoves.trans {s₁ s₂ s₃ : ToolsManager} (h₁ : LiveMoves s₁ s₂) (h₂ : LiveMoves s₂ s₃) :
    LiveMoves s₁ s₃ :=
  Contract.Moves.trans liveContract_preorder h₁ h₂

theorem LiveInv.refl (hs : LiveInv s) : LiveMoves s s := ⟨hs, liveContract_preorder.refl s⟩

/-! ### Updates -/

/-- No dispatched call waits in `s'` that did not wait in `s`. -/
def WaitsBefore (s s' : ToolsManager) : Prop :=
  ∀ tag d, .dispatched tag d ∈ s.history → Unsettled s' d → Unsettled s d

/-- An update of one round that adds no call that waits. -/
theorem unsettled_setRound {d : Dispatch} {r : ToolRound}
    (hrounds : s'.rounds = Function.update s.rounds ref r)
    (hclosed : r.closed = false → (s.rounds ref).closed = false)
    (hpending : r.closed = false → ∀ p ∈ r.pending, p.complete = false →
      ∃ q ∈ (s.rounds ref).pending, q.id = p.id ∧ q.complete = false)
    (hun : Unsettled s' d) : Unsettled s d := by
  obtain ⟨hopen, p, hp, hid, hc⟩ := hun
  rw [hrounds] at hopen hp
  by_cases he : d.round = ref
  · subst he
    rw [Function.update_self] at hopen hp
    obtain ⟨q, hq, hqid, hqc⟩ := hpending hopen p hp hc
    exact ⟨hclosed hopen, q, hq, hqid.trans hid, hqc⟩
  · rw [Function.update_of_ne he] at hopen hp
    exact ⟨hopen, p, hp, hid, hc⟩

theorem waitsBefore_setRound {r : ToolRound} (hrounds : s'.rounds = Function.update s.rounds ref r)
    (hclosed : r.closed = false → (s.rounds ref).closed = false)
    (hpending : r.closed = false → ∀ p ∈ r.pending, p.complete = false →
      ∃ q ∈ (s.rounds ref).pending, q.id = p.id ∧ q.complete = false) : WaitsBefore s s' :=
  fun _ _ _ hun => unsettled_setRound hrounds hclosed hpending hun

/-- Observations that say nothing of a tag. -/
def ToolObservation.Untagged : ToolObservation → Prop
  | .called .. | .completed .. | .abandoned _ | .cleaned .. | .asked .. | .settled .. | .yielded ..
  | .announced .. => True
  | .dispatched .. | .executed .. => False

/-- An update that leaves the tags alone and adds no call that waits. -/
theorem TagBook.untagged {lost : Option ExecutionKey} (hb : TagBook lost s)
    (hev : Evolves nobody s s') (hgates : s'.gates = s.gates)
    (htag : s'.nextTag = s.nextTag)
    (hist : s'.history = s.history ∨ ∃ o, o.Untagged ∧ s'.history = o :: s.history)
    (hwaits : WaitsBefore s s')
    (hactive : ∀ tag d, .dispatched tag d ∈ s.history → Unsettled s' d →
      d.args.key ∈ s.activeExecutions → d.args.key ∈ s'.activeExecutions) :
    TagBook lost s' ∧ NoneLost s s' := by
  have hsub : ∀ o ∈ s.history, o ∈ s'.history := by
    rcases hist with h | ⟨o, _, h⟩
    · rw [h]; exact fun _ h => h
    · rw [h]; exact fun _ h => List.mem_cons_of_mem _ h
  have hold : ∀ o, ¬o.Untagged → o ∈ s'.history → o ∈ s.history := by
    intro o hn ho
    rcases hist with h | ⟨o', hn', h⟩
    · rw [h] at ho; exact ho
    · rw [h] at ho
      exact mem_old ho fun he => hn (he ▸ hn')
  refine ⟨⟨fun tag d h => ?_, fun tag d d' h h' => hb.unique tag d d' (hold _ id h) (hold _ id h'),
    fun tag args h => ?_, fun tag w h => ?_, fun tag d args h he hun => ?_⟩,
    hsub, fun tag ⟨d, hd, hun, hg, he⟩ => ?_⟩
  · obtain ⟨ht, hr, hreq⟩ := hb.dispatched tag d (hold _ id h)
    exact ⟨htag ▸ ht, Nat.lt_of_lt_of_le hr hev.nextRound, (hev.requestId _ hr).trans hreq⟩
  · rw [htag]
    exact hb.executed tag args (hold _ id h)
  · rw [hgates] at h
    obtain ⟨d, hd, hargs⟩ := hb.watched tag w h
    exact ⟨d, hsub _ hd, hargs⟩
  · have hd := hold _ id h
    rcases hb.running tag d args hd (hold _ id he) (hwaits tag d hd hun) with hlost | hrun
    · exact .inl hlost
    · exact .inr (hactive tag d hd hun hrun)
  · have hd := hold _ id hd
    exact ⟨d, hd, hwaits tag d hd hun, hgates ▸ hg, fun args h => he args (hsub _ h)⟩

theorem LiveInv.untagged (hs : LiveInv s) (hm : Moves nobody s s')
    (hgates : s'.gates = s.gates) (htag : s'.nextTag = s.nextTag)
    (hist : s'.history = s.history ∨ ∃ o, o.Untagged ∧ s'.history = o :: s.history)
    (hwaits : WaitsBefore s s')
    (hactive : ∀ tag d, .dispatched tag d ∈ s.history → Unsettled s' d →
      d.args.key ∈ s.activeExecutions → d.args.key ∈ s'.activeExecutions) : LiveMoves s s' := by
  obtain ⟨hb, hl⟩ := hs.book.untagged hm.2 hgates htag hist hwaits hactive
  exact ⟨⟨hm.1, hb⟩, hm.2, hl⟩

theorem waitsBefore_of_rounds (h : s'.rounds = s.rounds) : WaitsBefore s s' :=
  fun _ d _ ⟨ho, hw⟩ => ⟨by rwa [h] at ho, by rwa [h] at hw⟩

theorem LiveInv.setAdvancing (hs : LiveInv s) (href : ref < s.nextRound) (advancing : Bool) :
    LiveMoves s (s.setAdvancing ref advancing) :=
  hs.untagged (hs.rounds.setAdvancing href (fun h => h) advancing) rfl rfl (.inl rfl)
    (waitsBefore_setRound rfl (fun h => h) fun _ p hp hc => ⟨p, hp, rfl, hc⟩) fun _ _ _ _ h => h

theorem LiveInv.closeRound (hs : LiveInv s) (href : ref < s.nextRound)
    (hopen : (s.rounds ref).closed = false) (hsettled : (s.rounds ref).isSettled = true) :
    LiveMoves s (s.closeRound ref (s.rounds ref).requestId) :=
  hs.untagged (hs.rounds.closeRound href (fun h => h) hopen hsettled) rfl rfl
    (.inr ⟨.completed ref _ _, trivial, rfl⟩)
    (waitsBefore_setRound rfl (fun h => by cases h) fun h => by cases h) fun _ _ _ _ h => h

/-- An observation about no round and no tag. -/
theorem LiveInv.note (hs : LiveInv s) {o : ToolObservation} (hround : o.round = none)
    (hf : Follows s.history o) (hun : o.Untagged) : LiveMoves s (s.observe o) :=
  hs.untagged (hs.rounds.neutral rfl rfl rfl (.inr ⟨o, hround, hf, rfl⟩)) rfl rfl
    (.inr ⟨o, hun, rfl⟩) (waitsBefore_of_rounds rfl) fun _ _ _ _ h => h

theorem LiveInv.dropRound (hs : LiveInv s) (req : String) : LiveMoves s (s.dropRound req) := by
  have hm : Moves nobody s (s.dropRound req) := hs.rounds.dropRound fun h => h
  unfold ToolsManager.dropRound at hm ⊢
  cases hl : s.toolRounds.lookup req with
  | none => exact hs.refl
  | some ref =>
      rw [hl] at hm
      refine hs.untagged hm rfl rfl (.inr ⟨.abandoned ref, trivial, rfl⟩)
        (waitsBefore_setRound rfl (fun h => by cases h) fun h => by cases h)
        fun tag d hd hun hkey => ?_
      -- the dropped executions are those of the request, which has no open round left
      refine Finset.mem_filter.mpr ⟨hkey, fun hreq => ?_⟩
      obtain ⟨-, href, hid⟩ := hs.book.dispatched tag d hd
      have hcurrent := hm.1.current d.round href hun.isOpen
      rw [hm.2.requestId d.round href, hid] at hcurrent
      have hreq : d.args.requestId = req := hreq.trans (hs.rounds.owned req ref hl).2
      rw [hreq] at hcurrent
      have herased : (s.toolRounds.erase req).lookup req = some d.round := hcurrent
      rw [AList.lookup_erase] at herased
      cases herased

theorem LiveInv.cleanupRequest (hs : LiveInv s) (req : String) :
    LiveMoves s (s.cleanupRequest req) := by
  have h₁ := hs.dropRound req
  exact h₁.trans (h₁.1.note (o := .cleaned req _) rfl trivial trivial)

theorem LiveInv.openRound (hs : LiveInv s) {req : String}
    (hm : Moves nobody s (s.openRound req)) : LiveMoves s (s.openRound req) := by
  refine hs.untagged hm rfl rfl (.inl rfl) (fun tag d hd hun => ?_) fun _ _ _ _ h => h
  have href := (hs.book.dispatched tag d hd).2.1
  have hsame : (s.openRound req).rounds d.round = s.rounds d.round :=
    Function.update_of_ne (Nat.ne_of_lt href) ..
  exact ⟨hsame ▸ hun.isOpen, hsame ▸ hun.waits⟩

/-- A call that is added has not been dispatched. -/
theorem LiveInv.addCall (hs : LiveInv s) (href : ref < s.nextRound)
    (hopen : (s.rounds ref).closed = false) (call : ToolRound.Call) :
    LiveMoves s (s.addCall ref call) := by
  have hm : Moves nobody s (s.addCall ref call) :=
    hs.rounds.addCall href (fun h => h) hopen call
  unfold ToolsManager.addCall at hm ⊢
  split at hm
  · rename_i hin
    rw [if_pos hin]
    exact hs.refl
  · rename_i hnew
    rw [if_neg hnew]
    have hfresh : call.id ∉ (s.rounds ref).ids := fun h => hnew (ToolRound.contains_index.mpr h)
    obtain ⟨hpending, -, -, -, hclosed⟩ := ToolRound.addCall_of_notMem hfresh
    refine hs.untagged hm rfl rfl (.inr ⟨.called ref call.id, trivial, rfl⟩)
      (fun tag d hd hun => ?_) fun _ _ _ _ h => h
    obtain ⟨ho, p, hp, hid, hc⟩ := hun
    by_cases he : d.round = ref
    · subst he
      have hself : ((s.setRound d.round ((s.rounds d.round).addCall call)).observe
          (.called d.round call.id)).rounds d.round = (s.rounds d.round).addCall call :=
        Function.update_self ..
      rw [hself, hpending] at hp
      rcases List.mem_append.mp hp with hp | hp
      · exact ⟨hopen, p, hp, hid, hc⟩
      · obtain rfl := List.mem_singleton.mp hp
        have hold := (hs.rounds.book d.round href).dispatched
          (hs.rounds.not_abandoned href hopen) tag d hd rfl
        rw [← hid] at hold
        exact absurd (List.take_subset _ _ hold) hfresh
    · have hother : ((s.setRound ref ((s.rounds ref).addCall call)).observe
          (.called ref call.id)).rounds d.round = s.rounds d.round := Function.update_of_ne he ..
      exact ⟨hother ▸ ho, p, hother ▸ hp, hid, hc⟩

theorem LiveMoves.addCalls (h : LiveMoves s₀ s) (href : ref < s.nextRound)
    (hopen : (s.rounds ref).closed = false) (calls : List ToolRound.Call) :
    LiveMoves s₀ (s.addCalls ref calls) := by
  induction calls generalizing s with
  | nil => exact h
  | cons call calls ih =>
      have h₁ := h.1.addCall href hopen call
      exact ih (h.trans h₁) (Nat.lt_of_lt_of_le href h₁.2.1.nextRound) (closed_addCall hopen call)

theorem LiveInv.extendRound (hs : LiveInv s) (req : String) (calls : List ToolRound.Call) :
    LiveMoves s (s.extendRound req calls) := by
  obtain ⟨hm, href, -, hopen⟩ := hs.rounds.currentRound (show ¬nobody req from fun h => h)
  have hcurrent : LiveMoves s (s.currentRound req).2 := by
    unfold ToolsManager.currentRound at hm ⊢
    split at hm
    · exact hs.openRound hm
    · split at hm
      · rename_i hc
        rw [if_pos hc]
        exact hs.openRound hm
      · rename_i hc
        rw [if_neg hc]
        exact hs.refl
  exact hcurrent.addCalls href hopen calls

/-! ### Settling -/

/-- The state `s` on the way from `s₀`, but that calls under the key `key` may be adrift or
without their execution: the code is about to settle them. -/
structure Almost (s₀ s : ToolsManager) (key : ExecutionKey) : Prop where
  moves : Moves nobody s₀ s
  book : TagBook (some key) s
  history : ∀ o ∈ s₀.history, o ∈ s.history
  adrift : ∀ tag d, .dispatched tag d ∈ s.history → Adrift s tag →
    Adrift s₀ tag ∨ d.args.key = key

/-- Where no call under the key waits, nothing is missing. -/
theorem Almost.done {key : ExecutionKey} (h : Almost s₀ s key)
    (hnone : ∀ tag d, .dispatched tag d ∈ s.history → d.args.key = key → ¬Unsettled s d) :
    LiveMoves s₀ s := by
  have hb := h.book
  refine ⟨⟨h.moves.1, hb.dispatched, hb.unique, hb.executed, hb.watched,
    fun tag d args hd he hun => ?_⟩, h.moves.2, h.history, fun tag hadrift => ?_⟩
  · rcases hb.running tag d args hd he hun with hlost | hrun
    · exact absurd hun (hnone tag d hd (Option.some.inj hlost).symm)
    · exact .inr hrun
  · have ⟨d, hd, hun, _⟩ := hadrift
    rcases h.adrift tag d hd hadrift with hold | hkey
    · exact hold
    · exact absurd hun (hnone tag d hd hkey)

/-- A call that waits is in the round that is looked up, which settles it. -/
theorem Unsettled.settles (hr : RoundsInv s) {lost : Option ExecutionKey} (hb : TagBook lost s)
    {tag : CallTag} {d : Dispatch} (hd : .dispatched tag d ∈ s.history) (hun : Unsettled s d)
    (result : ToolResult) (success : Bool) :
    s.toolRounds.lookup d.args.requestId = some d.round ∧
      ∃ settled, (s.rounds d.round).settle d.args.toolId result success = some settled := by
  obtain ⟨-, href, hreq⟩ := hb.dispatched tag d hd
  obtain ⟨p, hp, hid, hc⟩ := hun.waits
  exact ⟨hreq ▸ hr.current d.round href hun.isOpen,
    ToolRound.settle_isSome result success hp hid hc⟩

/-- A settled call waits no more. -/
theorem settled_waits {r r' : ToolRound} {id : String} {result : ToolResult} {success : Bool}
    (h : r.settle id result success = some r') {p : PendingTool} (hp : p ∈ r'.pending)
    (hc : p.complete = false) : p ∈ r.pending ∧ p.id ≠ id := by
  rcases (ToolRound.mem_settle h p).mp hp with ⟨q, -, -, rfl⟩ | hold
  · cases hc
  · exact hold

/-- `settleCall` takes care of what was missing. -/
theorem Almost.settleCall {req id : String} (h : Almost s₀ s (req, id))
    (hl : s.toolRounds.lookup req = some ref) {rich : ToolResult} {success : Bool}
    {settled : ToolRound} (hs : (s.rounds ref).settle id rich success = some settled) :
    LiveMoves s₀ (s.settleCall ref id rich settled) := by
  have href := (h.moves.1.owned req ref hl).1
  have hm : Moves nobody s (s.settleCall ref id rich settled) :=
    h.moves.1.settleCall href (fun h => h) hs
  have hwaits : WaitsBefore s (s.settleCall ref id rich settled) := by
    obtain ⟨before, p, after, hp, hid, hc, hp', -, -, -, hclosed⟩ := ToolRound.settle_cases hs
    exact waitsBefore_setRound rfl (fun h => hclosed ▸ h)
      fun _ q hq hqc => ⟨q, (settled_waits hs hq hqc).1, rfl, hqc⟩
  obtain ⟨hb, hl'⟩ := h.book.untagged hm.2 rfl rfl
    (.inr ⟨.settled ref id rich, trivial, rfl⟩) hwaits fun _ _ _ _ h => h
  have hnext : Almost s₀ (s.settleCall ref id rich settled) (req, id) :=
    ⟨h.moves.trans hm, hb, fun o ho => hl'.history o (h.history o ho), fun tag d hd hadrift =>
      h.adrift tag d (mem_old hd nofun) (hl'.adrift tag hadrift)⟩
  refine hnext.done fun tag d hd hkey hun => ?_
  -- the call is in the round that was looked up
  obtain ⟨hopen, p, hp, hid, hc⟩ := hun
  have hd' : .dispatched tag d ∈ s.history := mem_old hd nofun
  obtain ⟨hlookup, -⟩ := (hwaits tag d hd' ⟨hopen, p, hp, hid, hc⟩).settles h.moves.1 h.book hd'
    rich success
  have hreq : d.args.requestId = req := congrArg Prod.fst hkey
  rw [hreq, hl] at hlookup
  obtain rfl := Option.some.inj hlookup
  have hself : (s.settleCall d.round id rich settled).rounds d.round = settled :=
    Function.update_self ..
  rw [hself] at hp
  exact (settled_waits hs hp hc).2 (hid.trans (congrArg Prod.snd hkey))

/-! ### The code -/

/-- The answers the condition on a run allows: neither the gate nor a tool's body throws. -/
def Returns (_ : ToolsManager) : (e : ToolsOut) → e.Ans → Prop
  | .emit _, _ => True
  | .gate _, a | .executeAsync .., a => a = .ok ()

/-- The code `p` ends in a state `s₀` may become. -/
abbrev WpLive {α : Type} (s₀ : ToolsManager) (p : Proc ToolsSig α) (s : ToolsManager) : Prop :=
  wp Returns liveContract p (fun _ s' => LiveMoves s₀ s') s

variable {α β : Type}

theorem WpLive.ret (h : LiveMoves s₀ s) (a : α) : WpLive s₀ (pure a) s := h

theorem WpLive.run_bind {p : Throws ToolsSig α} {g : α → Throws ToolsSig β}
    (hp : WpLive s₀ p.run s) (hg : ∀ a s', LiveMoves s₀ s' → WpLive s₀ (g a).run s') :
    WpLive s₀ (p >>= g).run s := by
  refine (wp_run_bind p g _ s).mpr (wp_mono hp fun r s' h => ?_)
  cases r with
  | ok a => exact hg a s' h
  | error e => exact h

theorem WpLive.lift {p : Proc ToolsSig α} (hp : WpLive s₀ p s) :
    WpLive s₀ (liftM p : Throws ToolsSig α).run s :=
  (wp_run_lift p _ s).mpr hp

/-- Code that reads the manager first. -/
theorem WpLive.read {g : ToolsManager → Proc ToolsSig α} (h : WpLive s₀ (g s) s) :
    WpLive s₀ (Proc.read (S := ToolsSig) >>= g) s := h

theorem WpLive.run_read {g : ToolsManager → Throws ToolsSig α} (h : WpLive s₀ (g s).run s) :
    WpLive s₀ (liftM (Proc.read (S := ToolsSig)) >>= g : Throws ToolsSig α).run s := h

theorem WpLive.run_modify {f : ToolsManager → ToolsManager} {g : Unit → Throws ToolsSig α}
    (h : WpLive s₀ (g ()).run (f s)) :
    WpLive s₀ (liftM (Proc.modify (S := ToolsSig) f) >>= g : Throws ToolsSig α).run s := h

theorem WpLive.query (h : LiveMoves s₀ s) (e : ToolsOut) :
    WpLive s₀ (Proc.query (S := ToolsSig) e) s :=
  Contract.KeepsAt.after liveContract_preorder h (Contract.KeepsAt.query (C := liveContract) h.1 e)

theorem WpLive.driveRound (h : LiveMoves s₀ s) (req : String) :
    WpLive s₀ (toolsHost.driveRound req) s :=
  ⟨h.1, fun _ _ h' => h.trans h'⟩

theorem WpLive.discard {p : Throws ToolsSig Unit} (h : WpLive s₀ p.run s) :
    WpLive s₀ (Functor.discard p.run) s :=
  (wp_bind p.run _ _ s).mpr (wp_mono h fun _ _ h' => h')

/-- `finalizePendingTool` takes care of the calls under its key. -/
theorem Almost.finalizePendingTool {req id : String} (h : Almost s₀ s (req, id))
    (rich : ToolResult) (success : Bool) :
    WpLive s₀ (toolsHost.finalizePendingTool req id rich success).run s := by
  have hnone : (∀ ref, s.toolRounds.lookup req = some ref →
      (s.rounds ref).settle id rich success = none) → LiveMoves s₀ s := by
    refine fun hno => h.done fun tag d hd hkey hun => ?_
    obtain ⟨hl, settled, hs⟩ := hun.settles h.moves.1 h.book hd rich success
    have hreq : d.args.requestId = req := congrArg Prod.fst hkey
    have hid : d.args.toolId = id := congrArg Prod.snd hkey
    rw [hreq] at hl
    rw [hid, hno d.round hl] at hs
    cases hs
  refine WpLive.run_read ?_
  cases hl : s.toolRounds.lookup req with
  | none => exact hnone fun ref h => by rw [hl] at h; cases h
  | some ref =>
      dsimp only
      cases hsettle : (s.rounds ref).settle id rich success with
      | none =>
          refine hnone fun ref' h => ?_
          obtain rfl := Option.some.inj (hl.symm.trans h)
          exact hsettle
      | some settled =>
          have h₁ := h.settleCall hl hsettle
          refine WpLive.run_modify ?_
          cases settled.find id with
          | none => exact h₁
          | some pending =>
              exact .run_bind (.lift (.query h₁ _)) fun _ s₂ h₂ => .driveRound h₂ _

/-- Where nothing is missing, nothing is missing under any key. -/
theorem LiveMoves.almost (h : LiveMoves s₀ s) (key : ExecutionKey) : Almost s₀ s key where
  moves := ⟨h.1.rounds, h.2.1⟩
  book :=
    { h.1.book with
      running := fun tag d args hd he hun =>
        .inr ((h.1.book.running tag d args hd he hun).resolve_left nofun) }
  history := h.2.2.history
  adrift tag _ _ hadrift := .inl (h.2.2.adrift tag hadrift)

/-- The state `s` on the way from `s₀`, but that the call `tag` may be adrift: the code is
about to hand it to the gate or to execute it. -/
structure Floating (s₀ s : ToolsManager) (tag : CallTag) (d : Dispatch) : Prop where
  live : LiveInv s
  evolves : Evolves nobody s₀ s
  history : ∀ o ∈ s₀.history, o ∈ s.history
  dispatched : .dispatched tag d ∈ s.history
  adrift : ∀ tag', Adrift s tag' → Adrift s₀ tag' ∨ tag' = tag

namespace Floating

variable {tag : CallTag} {d : Dispatch}

theorem moves (h : Floating s₀ s tag d) (hm : LiveMoves s s') : Floating s₀ s' tag d where
  live := hm.1
  evolves := h.evolves.trans hm.2.1
  history o ho := hm.2.2.history o (h.history o ho)
  dispatched := hm.2.2.history _ h.dispatched
  adrift tag' ha := h.adrift tag' (hm.2.2.adrift tag' ha)

theorem almost (h : Floating s₀ s tag d) : Almost s₀ s d.args.key where
  moves := ⟨h.live.rounds, h.evolves⟩
  book := (h.live.refl.almost d.args.key).book
  history := h.history
  adrift tag' d' hd' ha := by
    rcases h.adrift tag' ha with hold | rfl
    · exact .inl hold
    · rw [h.live.book.unique tag' d' d hd' h.dispatched]
      exact .inr rfl

/-- Nobody needs to work on a call that does not wait. -/
theorem done (h : Floating s₀ s tag d) (hun : ¬Unsettled s d) : LiveMoves s₀ s := by
  refine ⟨h.live, h.evolves, h.history, fun tag' ha =>
    (h.adrift tag' ha).resolve_right fun ht => ?_⟩
  obtain ⟨d', hd', hun', -⟩ := ha
  subst ht
  exact hun (h.live.book.unique tag' d' d hd' h.dispatched ▸ hun')

/-- An execution of the call is put on record. -/
theorem startRecord (h : Floating s₀ s tag d) : LiveMoves s₀ (s.startRecord tag d.args) := by
  have hb := h.live.book
  have hm : Moves nobody s (s.startRecord tag d.args) :=
    h.live.rounds.neutral rfl rfl rfl (.inr ⟨.executed tag d.args, rfl, trivial, rfl⟩)
  have hwaits : WaitsBefore s (s.startRecord tag d.args) := waitsBefore_of_rounds rfl
  refine ⟨⟨hm.1, fun tag' d' hd => hb.dispatched tag' d' (mem_old hd nofun),
    fun tag' d₁ d₂ h₁ h₂ => hb.unique tag' d₁ d₂ (mem_old h₁ nofun) (mem_old h₂ nofun),
    fun tag' args he => ?_, fun tag' w hw => ?_, fun tag' d' args hd he hun => .inr ?_⟩,
    h.evolves.trans hm.2, fun o ho => List.mem_cons_of_mem _ (h.history o ho),
    fun tag' ⟨d', hd, hun, hg, he⟩ => ?_⟩
  · rcases List.mem_cons.mp he with heq | he
    · cases heq
      exact (hb.dispatched tag d h.dispatched).1
    · exact hb.executed tag' args he
  · obtain ⟨d', hd, hargs⟩ := hb.watched tag' w hw
    exact ⟨d', List.mem_cons_of_mem _ hd, hargs⟩
  · have hd : .dispatched tag' d' ∈ s.history := mem_old hd nofun
    rcases List.mem_cons.mp he with heq | he
    · cases heq
      rw [hb.unique tag d' d hd h.dispatched]
      exact Finset.mem_insert_self ..
    · exact Finset.mem_insert_of_mem
        ((hb.running tag' d' args hd he (hwaits tag' d' hd hun)).resolve_left nofun)
  · have hd : .dispatched tag' d' ∈ s.history := mem_old hd nofun
    rcases h.adrift tag' ⟨d', hd, hwaits tag' d' hd hun, hg,
      fun args ha => he args (List.mem_cons_of_mem _ ha)⟩ with hold | rfl
    · exact hold
    · exact absurd List.mem_cons_self (he d.args)

/-- The future of the gate is watched. -/
theorem watchGate (h : Floating s₀ s tag d) (round : RoundRef) :
    LiveMoves s₀ (s.watchGate tag ⟨d.args, round⟩) := by
  have hb := h.live.book
  have hm : Moves nobody s (s.watchGate tag ⟨d.args, round⟩) :=
    h.live.rounds.neutral rfl rfl rfl (.inl rfl)
  have hwaits : WaitsBefore s (s.watchGate tag ⟨d.args, round⟩) := waitsBefore_of_rounds rfl
  refine ⟨⟨hm.1, hb.dispatched, hb.unique, hb.executed, fun tag' w hw => ?_,
    fun tag' d' args hd he hun => hb.running tag' d' args hd he (hwaits tag' d' hd hun)⟩,
    h.evolves.trans hm.2, h.history, fun tag' ⟨d', hd, hun, hg, he⟩ => ?_⟩
  · by_cases ht : tag' = tag
    · subst ht
      have hw : (s.gates.insert tag' ⟨d.args, round⟩).lookup tag' = some w := hw
      rw [AList.lookup_insert] at hw
      exact ⟨d, h.dispatched, congrArg GateWatcher.args (Option.some.inj hw)⟩
    · have hw : (s.gates.insert tag ⟨d.args, round⟩).lookup tag' = some w := hw
      rw [AList.lookup_insert_ne ht] at hw
      exact hb.watched tag' w hw
  · have hg : (s.gates.insert tag ⟨d.args, round⟩).lookup tag' = none := hg
    have ht : tag' ≠ tag := by
      intro ht
      subst ht
      rw [AList.lookup_insert] at hg
      cases hg
    rw [AList.lookup_insert_ne ht] at hg
    exact (h.adrift tag' ⟨d', hd, hwaits tag' d' hd hun, hg, he⟩).resolve_right ht

end Floating

theorem wpLive_startExecution {tag : CallTag} {d : Dispatch} (h : Floating s₀ s tag d) :
    WpLive s₀ (toolsHost.startExecution tag d.args).run s := by
  refine WpLive.run_read ?_
  cases s.tools.lookup d.args.toolName with
  | none => exact h.almost.finalizePendingTool _ _
  | some tool =>
      have h₁ := h.moves (h.live.note (o := .announced tag d.args) rfl trivial trivial)
      show WpLive s₀ ((liftM (toolsHost.emit (.toolExecutionStarted d.args)) : Throws ToolsSig Unit)
        >>= fun _ => toolsHost.executeToolAsync tag d.args tool).run
          (s.observe (.announced tag d.args))
      -- the call stays adrift while its start is announced, and nobody else minds it
      refine (wp_run_bind (liftM (toolsHost.emit (.toolExecutionStarted d.args)) :
        Throws ToolsSig Unit) _ _ (s.observe (.announced tag d.args))).mpr
          ⟨h₁.live, fun s₁ hr hi _ _ => ?_⟩
      exact WpLive.query (h₁.moves ⟨hi, hr⟩).startRecord _

theorem wpLive_askGate {tag : CallTag} {d : Dispatch} (h : Floating s₀ s tag d) :
    WpLive s₀ (toolsHost.askGate tag ref d.args).run s := by
  have h₁ := h.moves (h.live.note (o := .asked tag d.args) rfl trivial trivial)
  show WpLive s₀ ((ExceptT.mk (toolsHost.gate d.args) : Throws ToolsSig Unit) >>= fun _ =>
    liftM (toolsHost.modify fun s => s.watchGate tag ⟨d.args, ref⟩)).run
      (s.observe (.asked tag d.args))
  refine (wp_run_bind (ExceptT.mk (toolsHost.gate d.args) : Throws ToolsSig Unit) _ _
    (s.observe (.asked tag d.args))).mpr ⟨h₁.live, fun s₂ hr hi r hok => ?_⟩
  obtain rfl : r = .ok () := hok
  exact (h₁.moves ⟨hi, hr⟩).watchGate ref

/-- A call that is dispatched is adrift at first. -/
theorem LiveInv.dispatch (hs : LiveInv s) {d : Dispatch}
    (hm : Moves nobody s ((s.takeNext ref).markDispatched d)) (href : ref < s.nextRound)
    (hround : d.round = ref) (hreq : (s.rounds ref).requestId = d.args.requestId) :
    Floating s ((s.takeNext ref).markDispatched d) s.nextTag d := by
  have hb := hs.book
  have hwaits : ∀ d', Unsettled ((s.takeNext ref).markDispatched d) d' → Unsettled s d' :=
    fun d' => unsettled_setRound rfl (fun h => h) fun _ p hp hc => ⟨p, hp, rfl, hc⟩
  have hfresh : ∀ d', .dispatched s.nextTag d' ∉ s.history := fun d' h =>
    absurd (hb.dispatched _ d' h).1 (Nat.lt_irrefl _)
  have hold : ∀ {tag' d'}, .dispatched tag' d' ∈ ((s.takeNext ref).markDispatched d).history →
      (tag' = s.nextTag ∧ d' = d) ∨ .dispatched tag' d' ∈ s.history := by
    intro tag' d' h
    rcases List.mem_cons.mp h with he | h
    · cases he
      exact .inl ⟨rfl, rfl⟩
    · exact .inr h
  refine ⟨⟨hm.1, fun tag' d' h => ?_, fun tag' d₁ d₂ h₁ h₂ => ?_,
    fun tag' args h => Nat.lt_succ_of_lt (hb.executed tag' args (mem_old h nofun)),
    fun tag' w hw => ?_, fun tag' d' args hd he hun => .inr ?_⟩, hm.2,
    fun o ho => List.mem_cons_of_mem _ ho, List.mem_cons_self,
    fun tag' ⟨d', hd, hun, hg, he⟩ => ?_⟩
  · rcases hold h with ⟨rfl, rfl⟩ | h
    · refine ⟨Nat.lt_succ_self _, by rw [hround]; exact href, ?_⟩
      rw [hround, ← hreq]
      exact hm.2.requestId ref href
    · obtain ⟨ht, hr, hreq'⟩ := hb.dispatched tag' d' h
      exact ⟨Nat.lt_succ_of_lt ht, hr, (hm.2.requestId _ hr).trans hreq'⟩
  · rcases hold h₁ with ⟨rfl, he₁⟩ | hold₁
    · rcases hold h₂ with ⟨-, he₂⟩ | hold₂
      · rw [he₁, he₂]
      · exact absurd hold₂ (hfresh _)
    · rcases hold h₂ with ⟨rfl, -⟩ | hold₂
      · exact absurd hold₁ (hfresh _)
      · exact hb.unique tag' d₁ d₂ hold₁ hold₂
  · obtain ⟨d', hd, hargs⟩ := hb.watched tag' w hw
    exact ⟨d', List.mem_cons_of_mem _ hd, hargs⟩
  · have hexec : .executed tag' args ∈ s.history := mem_old he nofun
    rcases hold hd with ⟨rfl, -⟩ | hd
    · exact absurd (hb.executed _ args hexec) (Nat.lt_irrefl _)
    · exact (hb.running tag' d' args hd hexec (hwaits d' hun)).resolve_left nofun
  · rcases hold hd with ⟨rfl, -⟩ | hd
    · exact .inr rfl
    · exact .inl ⟨d', hd, hwaits d' hun, hg, fun args ha => he args (List.mem_cons_of_mem _ ha)⟩

/-- Dispatching the call that was just taken. -/
theorem wpLive_dispatchCall (hs : LiveInv s) (href : ref < s.nextRound) {call : PendingTool}
    (hcall : (s.rounds ref).pending[(s.rounds ref).next]? = some call) {args : CallArgs}
    (hid : args.toolId = call.id) (hreq : (s.rounds ref).requestId = args.requestId) :
    WpLive s (toolsHost.dispatchCall ref args).run (s.takeNext ref) := by
  have hfloat : ∀ safety, Floating s
      ((s.takeNext ref).markDispatched ⟨ref, args, safety, s.executionGate⟩) s.nextTag
      ⟨ref, args, safety, s.executionGate⟩ :=
    fun safety => hs.dispatch (hs.rounds.dispatchNext href (fun h => h) hcall _ rfl hid) href rfl
      hreq
  refine WpLive.run_read ?_
  cases (s.takeNext ref).tools.lookup args.toolName with
  | none =>
      show WpLive s ((toolsHost.finalizePendingTool args.requestId args.toolId _ false >>=
        fun _ => pure false : Throws ToolsSig Bool)).run
        ((s.takeNext ref).markDispatched ⟨ref, args, none, s.executionGate⟩)
      exact .run_bind ((hfloat none).almost.finalizePendingTool _ _) fun _ _ h => .ret h _
  | some tool =>
      have h₁ := hfloat (some tool.safety)
      show WpLive s (if s.executionGate && tool.safety == .mutating then _ else _ :
        Throws ToolsSig Bool).run
        ((s.takeNext ref).markDispatched ⟨ref, args, some tool.safety, s.executionGate⟩)
      by_cases hgate : (s.executionGate && tool.safety == .mutating) = true
      · rw [if_pos hgate]
        exact .run_bind (wpLive_askGate h₁) fun _ _ h => .ret h _
      · rw [if_neg hgate]
        exact .run_bind (wpLive_startExecution h₁) fun _ _ h => .ret h _

theorem wpLive_dispatch (hs : LiveInv s) (href : ref < s.nextRound)
    (hnext : (s.rounds ref).next < (s.rounds ref).pending.length) :
    WpLive s (toolsHost.dispatch ref (s.rounds ref).next).run (s.takeNext ref) := by
  obtain ⟨call, hcall⟩ : ∃ call, (s.rounds ref).pending[(s.rounds ref).next]? = some call :=
    ⟨_, List.getElem?_eq_getElem hnext⟩
  have hself : (s.takeNext ref).rounds ref =
      { s.rounds ref with next := (s.rounds ref).next + 1 } := Function.update_self ..
  have hcall' : ((s.takeNext ref).rounds ref).pending[(s.rounds ref).next]? = some call := by
    rw [hself]
    exact hcall
  refine WpLive.run_read ?_
  rw [hcall']
  refine wpLive_dispatchCall hs href hcall rfl ?_
  show (s.rounds ref).requestId = ((s.takeNext ref).rounds ref).requestId
  rw [hself]

theorem wpLive_advanceBody (hs : LiveInv s) (href : ref < s.nextRound) :
    WpLive s (toolsHost.advanceBody ref).run s := by
  show WpLive s (if (s.rounds ref).next < (s.rounds ref).pending.length then _ else _ :
    Throws ToolsSig Unit).run s
  by_cases hnext : (s.rounds ref).next < (s.rounds ref).pending.length
  · rw [if_pos hnext]
    refine (wp_run_bind (toolsHost.dispatch ref (s.rounds ref).next) _ _ (s.takeNext ref)).mpr ?_
    refine wp_mono (wpLive_dispatch hs href hnext) fun r s₁ h₁ => ?_
    cases r with
    | error e => exact h₁
    | ok dispatched =>
        cases dispatched with
        | true => exact h₁
        | false =>
            exact ⟨⟨h₁.1, Nat.lt_of_lt_of_le href h₁.2.1.nextRound⟩, fun _ _ h => h₁.trans h⟩
  · rw [if_neg hnext]
    exact hs.refl

theorem wpLive_advance (hs : LiveInv s) (href : ref < s.nextRound) :
    WpLive s (toolsHost.advance ref).run s := by
  have h₁ := hs.setAdvancing href true
  show WpLive s ((ExceptT.mk (toolsHost.advanceLoop ref) : Throws ToolsSig Unit) >>= fun _ =>
    liftM (toolsHost.modify fun s => s.setAdvancing ref false)).run (s.setAdvancing ref true)
  refine (wp_run_bind (ExceptT.mk (toolsHost.advanceLoop ref) : Throws ToolsSig Unit) _ _
    (s.setAdvancing ref true)).mpr ⟨⟨h₁.1, href⟩, fun r s₂ h₂ => ?_⟩
  have h₃ : LiveMoves s s₂ := h₁.trans h₂
  cases r with
  | error e => exact h₃
  | ok _ => exact h₃.trans (h₃.1.setAdvancing (Nat.lt_of_lt_of_le href h₃.2.1.nextRound) false)

theorem wpLive_announce (h : LiveMoves s₀ s) (href : ref < s.nextRound) {req : String}
    (hreq : (s.rounds ref).requestId = req) : WpLive s₀ (toolsHost.announce req ref) s := by
  show WpLive s₀ (if (s.rounds ref).closed || !(s.rounds ref).isSettled then _ else _ :
    Proc ToolsSig Unit) s
  by_cases hdone : ((s.rounds ref).closed || !(s.rounds ref).isSettled) = true
  · rw [if_pos hdone]
    exact h
  · rw [if_neg hdone]
    simp only [Bool.or_eq_true, Bool.not_eq_true', not_or, Bool.not_eq_true,
      Bool.not_eq_false] at hdone
    subst hreq
    exact WpLive.query (h.trans (h.1.closeRound href hdone.1 hdone.2)) _

theorem wpLive_driveBody (hs : LiveInv s) (req : String) :
    WpLive s (toolsHost.driveBody req).run s := by
  refine WpLive.run_read ?_
  cases hl : s.toolRounds.lookup req with
  | none => exact hs.refl
  | some ref =>
      obtain ⟨href, hreq⟩ := hs.rounds.owned req ref hl
      show WpLive s (if (s.rounds ref).closed || (s.rounds ref).advancing then _ else _ :
        Throws ToolsSig Unit).run s
      by_cases hidle : ((s.rounds ref).closed || (s.rounds ref).advancing) = true
      · rw [if_pos hidle]
        exact hs.refl
      · rw [if_neg hidle]
        refine .run_bind (wpLive_advance hs href) fun _ s₁ h₁ => ?_
        refine .lift (wpLive_announce h₁ (Nat.lt_of_lt_of_le href h₁.2.1.nextRound) ?_)
        rw [h₁.2.1.requestId ref href]
        exact hreq

theorem wpLive_beginRound (hs : LiveInv s) (req : String) (calls : List ToolRound.Call) :
    WpLive s (toolsHost.beginRound req calls).run s := by
  unfold ToolsHost.beginRound
  by_cases hc : calls.isEmpty = true
  · rw [if_pos hc]
    exact hs.refl
  · rw [if_neg hc]
    exact WpLive.driveRound (hs.extendRound req calls) req

/-! ### The condition on a run -/

/-- The future of the gate ends with an answer, if the call it was asked about waits. -/
def Answered (s : ToolsManager) : ToolsCall → Prop
  | .gateFinished tag (.error _) => ∀ d, .dispatched tag d ∈ s.history → ¬Unsettled s d
  | _ => True

/-- The future of the gate is no longer watched. -/
theorem LiveInv.unwatch (hs : LiveInv s) {tag : CallTag} {w : GateWatcher}
    (hw : s.gates.lookup tag = some w) :
    ∃ d, d.args = w.args ∧ Floating s { s with gates := s.gates.erase tag } tag d := by
  have hb := hs.book
  obtain ⟨d, hd, hargs⟩ := hb.watched tag w hw
  have hm : Moves nobody s { s with gates := s.gates.erase tag } :=
    hs.rounds.neutral rfl rfl rfl (.inl rfl)
  have hwaits : WaitsBefore s { s with gates := s.gates.erase tag } := waitsBefore_of_rounds rfl
  refine ⟨d, hargs, ⟨hm.1, hb.dispatched, hb.unique, hb.executed, fun tag' w' hw' => ?_,
    fun tag' d' args hd he hun => hb.running tag' d' args hd he (hwaits tag' d' hd hun)⟩, hm.2,
    fun _ h => h, hd, fun tag' ⟨d', hd', hun, hg, he⟩ => ?_⟩
  · have hw' : (s.gates.erase tag).lookup tag' = some w' := hw'
    by_cases ht : tag' = tag
    · subst ht
      rw [AList.lookup_erase] at hw'
      cases hw'
    · rw [AList.lookup_erase_ne ht] at hw'
      exact hb.watched tag' w' hw'
  · have hg : (s.gates.erase tag).lookup tag' = none := hg
    by_cases ht : tag' = tag
    · exact .inr ht
    · rw [AList.lookup_erase_ne ht] at hg
      exact .inl ⟨d', hd', hwaits tag' d' hd' hun, hg, he⟩

theorem wpLive_gateFinished (hs : LiveInv s) {tag : CallTag} {outcome : Except Unit Bool}
    (hc : Answered s (.gateFinished tag outcome)) :
    WpLive s (toolsHost.gateFinished tag outcome) s := by
  refine WpLive.read ?_
  cases hw : s.gates.lookup tag with
  | none => exact hs.refl
  | some w =>
      obtain ⟨d, hargs, hfloat⟩ := hs.unwatch hw
      cases outcome with
      | error _ =>
          have hwaits : WaitsBefore s { s with gates := s.gates.erase tag } :=
            waitsBefore_of_rounds rfl
          exact hfloat.done fun hun =>
            hc d hfloat.dispatched (hwaits tag d hfloat.dispatched hun)
      | ok allowed =>
          have h₁ := hfloat.moves
            (hfloat.live.note (o := .yielded tag allowed !(s.rounds w.round).closed) rfl trivial
              trivial)
          cases allowed with
          | false =>
              have h₂ := h₁.almost
              rw [hargs] at h₂
              exact WpLive.discard (h₂.finalizePendingTool _ _)
          | true =>
              have h₂ := wpLive_startExecution h₁
              rw [hargs] at h₂
              exact WpLive.discard h₂

/-- The execution under a key has ended. -/
theorem LiveInv.ended (hs : LiveInv s) (key : ExecutionKey) :
    Almost s { s with activeExecutions := s.activeExecutions.erase key } key := by
  have hb := hs.book
  have hwaits : WaitsBefore s { s with activeExecutions := s.activeExecutions.erase key } :=
    waitsBefore_of_rounds rfl
  refine ⟨hs.rounds.neutral rfl rfl rfl (.inl rfl), ⟨hb.dispatched, hb.unique, hb.executed,
    hb.watched, fun tag d args hd he hun => ?_⟩, fun _ h => h,
    fun tag d hd ⟨d', hd', hun, hg, he⟩ => .inl ⟨d', hd', hwaits tag d' hd' hun, hg, he⟩⟩
  by_cases hkey : d.args.key = key
  · exact .inl (congrArg some hkey.symm)
  · exact .inr (Finset.mem_erase.mpr
      ⟨hkey, (hb.running tag d args hd he (hwaits tag d hd hun)).resolve_left nofun⟩)

theorem wpLive_onToolExecutionFinished (hs : LiveInv s) (key : ExecutionKey)
    (outcome : Except ToolExn ToolResult) :
    WpLive s (toolsHost.onToolExecutionFinished key outcome) s := by
  show WpLive s (if key ∈ s.activeExecutions then _ else _ : Proc ToolsSig Unit) s
  by_cases hk : key ∈ s.activeExecutions
  · rw [if_pos hk]
    have h₁ := hs.ended key
    let s₁ : ToolsManager := { s with activeExecutions := s.activeExecutions.erase key }
    refine (wp_bind (toolsHost.reportResult key outcome).run _ _ s₁).mpr ?_
    cases outcome with
    | error e => exact WpLive.discard (h₁.finalizePendingTool _ _)
    | ok result =>
        have hreport : WpLive s (toolsHost.reportResult key (.ok result)).run s₁ := by
          show WpLive s (if result.isError then toolsHost.onToolErrored key _
            else toolsHost.onToolCompleted key result : Throws ToolsSig Unit).run s₁
          by_cases herr : result.isError = true
          · rw [if_pos herr]
            exact h₁.finalizePendingTool _ _
          · rw [if_neg herr]
            exact h₁.finalizePendingTool _ _
        refine wp_mono hreport fun r s₂ h₂ => ?_
        cases r with
        | ok _ => exact h₂
        | error e => exact WpLive.discard ((h₂.almost key).finalizePendingTool _ _)
  · rw [if_neg hk]
    exact hs.refl

/-! ### Runs -/

/-- Updates that are announced to the slots. -/
theorem WpLive.modify_emit {f : ToolsManager → ToolsManager} (h : LiveMoves s₀ (f s))
    (signal : ToolsSignal) :
    WpLive s₀ (toolsHost.modify f >>= fun _ => toolsHost.emit signal) s :=
  (wp_bind (toolsHost.modify f) _ _ s).mpr (WpLive.query h (.emit signal))

theorem wpLive_call (hs : LiveInv s) {c : ToolsCall} (hc : Answered s c) :
    WpLive s (toolsHost.call c) s := by
  have hupdate : ∀ {s'}, s'.rounds = s.rounds → s'.nextRound = s.nextRound →
      s'.toolRounds = s.toolRounds → s'.gates = s.gates → s'.nextTag = s.nextTag →
      s'.history = s.history → s'.activeExecutions = s.activeExecutions → LiveMoves s s' :=
    fun h₁ h₂ h₃ h₄ h₅ h₆ h₇ => hs.untagged (hs.rounds.neutral h₁ h₂ h₃ (.inl h₆)) h₄ h₅
      (.inl h₆) (waitsBefore_of_rounds h₁) fun _ _ _ _ h => h₇ ▸ h
  cases c with
  | addTool tool => exact WpLive.modify_emit (hupdate rfl rfl rfl rfl rfl rfl rfl) _
  | removeTool name =>
      show WpLive s (if name ∈ s.tools then _ else _ : Proc ToolsSig Unit) s
      by_cases hname : name ∈ s.tools
      · rw [if_pos hname]
        exact WpLive.modify_emit (hupdate rfl rfl rfl rfl rfl rfl rfl) _
      · rw [if_neg hname]
        exact hs.refl
  | removeAllTools =>
      show WpLive s (if s.tools.keys.isEmpty then _ else _ : Proc ToolsSig Unit) s
      by_cases hempty : s.tools.keys.isEmpty = true
      · rw [if_pos hempty]
        exact hs.refl
      · rw [if_neg hempty]
        exact WpLive.modify_emit (hupdate rfl rfl rfl rfl rfl rfl rfl) _
  | setExecutionGate installed => exact hupdate rfl rfl rfl rfl rfl rfl rfl
  | beginRound req calls => exact WpLive.discard (wpLive_beginRound hs req calls)
  | executeToolCall args => exact WpLive.discard (wpLive_beginRound hs _ _)
  | cleanupRequest req => exact hs.cleanupRequest req
  | gateFinished tag outcome => exact wpLive_gateFinished hs hc
  | executionFinished key outcome => exact wpLive_onToolExecutionFinished hs key outcome

/-- Surroundings whose gate answers and in which neither the gate nor a tool's body throws. -/
abbrev answering : Surroundings toolsMachine := .guarded toolsMachine Answered Returns

theorem live_valid : liveContract.Valid answering :=
  Contract.Valid.of_guarded liveContract_preorder (fun _ _ hs hc => wpLive_call hs hc)
    fun f _ h => match f with
      | .driveRound req => wpLive_driveBody h req
      | .advanceLoop _ => wpLive_advanceBody h.1 h.2

end LLMQore.Tools
