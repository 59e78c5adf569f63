import LLMQore.Reentrant.History
import LLMQore.Tools.ToolsManager

/-!
# LLMQore.Tools.RoundLifecycle

The lifecycle of a round of tool calls.

`Follows` says what may come after a history: a call is dispatched once and
settled once, and a round is announced once, when all its calls are settled and
it was not abandoned, with exactly their results. `RoundBook` relates a round to
what the history says of it, and carries the result: a call is settled in the
history when it is complete in the round, and was dispatched only if it stands
before `m_next`.

The contract has a parameter, the request ids whose rounds nobody may touch. With
none it gives the lifecycle in every run; with one it says that visits for other
request ids leave its rounds as they are.
-/

namespace LLMQore.Tools

open Reentrant

/-! ### What holds of a history -/

/-- May `o` come after `earlier`? -/
def Follows (earlier : List ToolObservation) : ToolObservation → Prop
  | .called round id =>
      .called round id ∉ earlier ∧ ∀ req results, .completed round req results ∉ earlier
  | .dispatched _ d =>
      .called d.round d.args.toolId ∈ earlier ∧
        ∀ tag' d', .dispatched tag' d' ∈ earlier → d'.round = d.round →
          d'.args.toolId ≠ d.args.toolId
  | .settled round id _ =>
      .called round id ∈ earlier ∧ ∀ result, .settled round id result ∉ earlier
  | .completed round _ results =>
      .abandoned round ∉ earlier ∧ (∀ req results', .completed round req results' ∉ earlier) ∧
        (∀ id, id ∈ results ↔ .called round id ∈ earlier) ∧
        ∀ id result, results.lookup id = some result → .settled round id result ∈ earlier
  | .abandoned _ | .cleaned .. | .asked .. | .yielded .. | .announced .. | .executed .. => True

/-- Every observation may come after those before it. -/
def Lifecycle (history : List ToolObservation) : Prop := Ordered Follows history

/-- The round an observation is about. -/
def ToolObservation.round : ToolObservation → Option RoundRef
  | .called round _ => some round
  | .dispatched _ d => some d.round
  | .settled round _ _ => some round
  | .completed round _ _ => some round
  | .abandoned round => some round
  | .cleaned .. | .asked .. | .yielded .. | .announced .. | .executed .. => none

/-! ### The invariant -/

/-- What the history says of a round is what the round says of itself. -/
structure RoundBook (h : List ToolObservation) (ref : RoundRef) (r : ToolRound) : Prop where
  abandoned : .abandoned ref ∈ h → r.closed = true ∧ r.pending = []
  completed : ∀ req results, .completed ref req results ∈ h →
    r.closed = true ∧ req = r.requestId
  called : .abandoned ref ∉ h → ∀ id, .called ref id ∈ h ↔ id ∈ r.ids
  settled : .abandoned ref ∉ h → ∀ id result, .settled ref id result ∈ h ↔
    ∃ p ∈ r.pending, p.id = id ∧ p.complete = true ∧ p.result = result
  dispatched : .abandoned ref ∉ h → ∀ tag d, .dispatched tag d ∈ h → d.round = ref →
    d.args.toolId ∈ r.ids.take r.next

structure RoundsInv (s : ToolsManager) : Prop where
  lifecycle : Lifecycle s.history
  fresh : ∀ o ∈ s.history, ∀ ref, o.round = some ref → ref < s.nextRound
  owned : ∀ req ref, s.toolRounds.lookup req = some ref →
    ref < s.nextRound ∧ (s.rounds ref).requestId = req
  current : ∀ ref < s.nextRound, (s.rounds ref).closed = false →
    s.toolRounds.lookup (s.rounds ref).requestId = some ref
  book : ∀ ref < s.nextRound, RoundBook s.history ref (s.rounds ref)

/-- Rounds stay what they are for, and those of the request ids `P` stay as they
are. -/
structure Evolves (P : String → Prop) (s s' : ToolsManager) : Prop where
  nextRound : s.nextRound ≤ s'.nextRound
  requestId : ∀ ref < s.nextRound, (s'.rounds ref).requestId = (s.rounds ref).requestId
  lookup : ∀ req, P req → s'.toolRounds.lookup req = s.toolRounds.lookup req
  same : ∀ ref < s.nextRound, P (s.rounds ref).requestId → s'.rounds ref = s.rounds ref
  new : ∀ ref < s'.nextRound, s.nextRound ≤ ref → ¬P (s'.rounds ref).requestId

variable {P : String → Prop} {s s' : ToolsManager}

theorem Evolves.refl (P : String → Prop) (s : ToolsManager) : Evolves P s s where
  nextRound := Nat.le_refl _
  requestId _ _ := rfl
  lookup _ _ := rfl
  same _ _ _ := rfl
  new _ h₁ h₂ := absurd h₁ (Nat.not_lt.mpr h₂)

theorem Evolves.trans {s₁ s₂ s₃ : ToolsManager} (h₁ : Evolves P s₁ s₂) (h₂ : Evolves P s₂ s₃) :
    Evolves P s₁ s₃ where
  nextRound := Nat.le_trans h₁.nextRound h₂.nextRound
  requestId ref hr :=
    (h₂.requestId ref (Nat.lt_of_lt_of_le hr h₁.nextRound)).trans (h₁.requestId ref hr)
  lookup req hp := (h₂.lookup req hp).trans (h₁.lookup req hp)
  same ref hr hp := by
    have hsame := h₁.same ref hr hp
    rw [← hsame] at hp ⊢
    exact h₂.same ref (Nat.lt_of_lt_of_le hr h₁.nextRound) hp
  new ref hr hge := by
    rcases Nat.lt_or_ge ref s₂.nextRound with hlt | hge'
    · rw [h₂.requestId ref hlt]
      exact h₁.new ref hlt hge
    · exact h₂.new ref hr hge'

/-- The manager keeps its invariant and the rounds of `P`. -/
def Moves (P : String → Prop) (s s' : ToolsManager) : Prop := RoundsInv s' ∧ Evolves P s s'

theorem Moves.trans {s₁ s₂ s₃ : ToolsManager} (h₁ : Moves P s₁ s₂) (h₂ : Moves P s₂ s₃) :
    Moves P s₁ s₃ :=
  ⟨h₂.1, h₁.2.trans h₂.2⟩

/-- No request id is protected. -/
abbrev nobody : String → Prop := fun _ => False

/-! ### Updates -/

/-- An observation about another round says nothing of this one. -/
theorem RoundBook.cons {h : List ToolObservation} {ref : RoundRef} {r : ToolRound}
    (hb : RoundBook h ref r) {o : ToolObservation} (ho : o.round ≠ some ref) :
    RoundBook (o :: h) ref r := by
  have hmem : ∀ {o' : ToolObservation}, o'.round = some ref → (o' ∈ o :: h ↔ o' ∈ h) := by
    intro o' ho'
    refine ⟨fun hm => ?_, List.mem_cons_of_mem _⟩
    rcases List.mem_cons.mp hm with rfl | hm
    · exact absurd ho' ho
    · exact hm
  refine ⟨?_, ?_, ?_, ?_, ?_⟩
  · rw [hmem rfl]; exact hb.abandoned
  · intro req results; rw [hmem rfl]; exact hb.completed req results
  · rw [hmem rfl]; intro ha id; rw [hmem rfl]; exact hb.called ha id
  · rw [hmem rfl]; intro ha id result; rw [hmem rfl]; exact hb.settled ha id result
  · rw [hmem rfl]
    intro ha tag d hd hround
    have ho' : (ToolObservation.dispatched tag d).round = some ref := congrArg some hround
    exact hb.dispatched ha tag d ((hmem ho').mp hd) hround

/-- An update that leaves the rounds alone, with an observation about none. -/
theorem RoundsInv.neutral (hs : RoundsInv s) (hrounds : s'.rounds = s.rounds)
    (hnext : s'.nextRound = s.nextRound) (htool : s'.toolRounds = s.toolRounds)
    (hist : s'.history = s.history ∨ ∃ o, o.round = none ∧ Follows s.history o ∧
      s'.history = o :: s.history) : Moves P s s' := by
  have hev : Evolves P s s' := by
    refine ⟨by rw [hnext], fun ref _ => by rw [hrounds], fun req _ => by rw [htool],
      fun ref _ _ => by rw [hrounds], fun ref h₁ h₂ => ?_⟩
    rw [hnext] at h₁
    exact absurd h₁ (Nat.not_lt.mpr h₂)
  refine ⟨?_, hev⟩
  have howned : ∀ req ref, s'.toolRounds.lookup req = some ref →
      ref < s'.nextRound ∧ (s'.rounds ref).requestId = req := by
    rw [hnext, htool, hrounds]; exact hs.owned
  have hcurrent : ∀ ref < s'.nextRound, (s'.rounds ref).closed = false →
      s'.toolRounds.lookup (s'.rounds ref).requestId = some ref := by
    rw [hnext, htool, hrounds]; exact hs.current
  rcases hist with hh | ⟨o, ho, hf, hh⟩
  · refine ⟨by rw [hh]; exact hs.lifecycle, by rw [hh, hnext]; exact hs.fresh, howned, hcurrent, ?_⟩
    rw [hh, hnext, hrounds]; exact hs.book
  · refine ⟨by rw [hh]; exact ordered_cons.mpr ⟨hf, hs.lifecycle⟩, ?_, howned, hcurrent, ?_⟩
    · rw [hh, hnext]
      intro o' ho' ref hr
      rcases List.mem_cons.mp ho' with rfl | ho'
      · rw [ho] at hr; cases hr
      · exact hs.fresh o' ho' ref hr
    · rw [hh, hnext, hrounds]
      exact fun ref hr => (hs.book ref hr).cons (by rw [ho]; exact nofun)

/-- An update of one round, with an observation about it. -/
theorem RoundsInv.setRound (hs : RoundsInv s) {ref : RoundRef} {r : ToolRound}
    {h : List ToolObservation} (href : ref < s.nextRound)
    (hP : ¬P (s.rounds ref).requestId) (hreq : r.requestId = (s.rounds ref).requestId)
    (hclosed : r.closed = false → (s.rounds ref).closed = false)
    (hist : h = s.history ∨ ∃ o, o.round = some ref ∧ Follows s.history o ∧ h = o :: s.history)
    (hbook : RoundBook h ref r) : Moves P s { s.setRound ref r with history := h } := by
  have hself : Function.update s.rounds ref r ref = r := Function.update_self ..
  have hother : ∀ ref', ref' ≠ ref → Function.update s.rounds ref r ref' = s.rounds ref' :=
    fun ref' hne => Function.update_of_ne hne ..
  have hid : ∀ ref', (Function.update s.rounds ref r ref').requestId
      = (s.rounds ref').requestId := by
    intro ref'
    by_cases he : ref' = ref
    · subst he; rw [hself, hreq]
    · rw [hother ref' he]
  have hkeep : ∀ ref' < s.nextRound, ref' ≠ ref → RoundBook h ref' (s.rounds ref') := by
    intro ref' hlt hne
    rcases hist with rfl | ⟨o, ho, _, rfl⟩
    · exact hs.book ref' hlt
    · exact (hs.book ref' hlt).cons (by rw [ho]; exact fun he => hne (Option.some.inj he).symm)
  constructor
  · refine ⟨?_, ?_, ?_, ?_, ?_⟩
    · rcases hist with rfl | ⟨o, _, hf, rfl⟩
      · exact hs.lifecycle
      · exact ordered_cons.mpr ⟨hf, hs.lifecycle⟩
    · intro o' ho' ref' hr
      rcases hist with rfl | ⟨o, ho, _, rfl⟩
      · exact hs.fresh o' ho' ref' hr
      · rcases List.mem_cons.mp ho' with rfl | ho'
        · rw [ho] at hr
          cases hr
          exact href
        · exact hs.fresh o' ho' ref' hr
    · intro req ref' hl
      obtain ⟨hlt, hreq'⟩ := hs.owned req ref' hl
      exact ⟨hlt, (hid ref').trans hreq'⟩
    · intro ref' hlt hc
      show s.toolRounds.lookup (Function.update s.rounds ref r ref').requestId = some ref'
      rw [hid]
      refine hs.current ref' hlt ?_
      by_cases he : ref' = ref
      · subst he
        exact hclosed ((congrArg ToolRound.closed hself).symm.trans hc)
      · exact (congrArg ToolRound.closed (hother ref' he)).symm.trans hc
    · intro ref' hlt
      show RoundBook h ref' (Function.update s.rounds ref r ref')
      by_cases he : ref' = ref
      · subst he; rw [hself]; exact hbook
      · rw [hother ref' he]; exact hkeep ref' hlt he
  · refine ⟨Nat.le_refl _, fun ref' _ => hid ref', fun _ _ => rfl, fun ref' _ hp => ?_,
      fun ref' h₁ h₂ => absurd h₁ (Nat.not_lt.mpr h₂)⟩
    refine hother ref' fun he => ?_
    subst he
    exact hP hp

/-- An update of one round with an observation about it. -/
theorem RoundsInv.record (hs : RoundsInv s) (o : ToolObservation) {ref : RoundRef}
    {r : ToolRound} (href : ref < s.nextRound) (hP : ¬P (s.rounds ref).requestId)
    (hreq : r.requestId = (s.rounds ref).requestId)
    (hclosed : r.closed = false → (s.rounds ref).closed = false) (ho : o.round = some ref)
    (hf : Follows s.history o) (hbook : RoundBook (o :: s.history) ref r) :
    Moves P s ((s.setRound ref r).observe o) :=
  hs.setRound href hP hreq hclosed (.inr ⟨o, ho, hf, rfl⟩) hbook

section Operations

variable {ref : RoundRef}

theorem RoundsInv.not_abandoned (hs : RoundsInv s) (href : ref < s.nextRound)
    (hopen : (s.rounds ref).closed = false) : .abandoned ref ∉ s.history := fun h => by
  rw [((hs.book ref href).abandoned h).1] at hopen
  cases hopen

theorem RoundsInv.not_completed (hs : RoundsInv s) (href : ref < s.nextRound)
    (hopen : (s.rounds ref).closed = false) (req : String)
    (results : AList fun _ : String => ToolResult) :
    .completed ref req results ∉ s.history := fun h => by
  rw [((hs.book ref href).completed req results h).1] at hopen
  cases hopen

theorem RoundsInv.openRound (hs : RoundsInv s) {req : String} (hP : ¬P req)
    (hclosed : ∀ ref, s.toolRounds.lookup req = some ref → (s.rounds ref).closed = true) :
    Moves P s (s.openRound req) := by
  have hother : ∀ ref < s.nextRound, (s.openRound req).rounds ref = s.rounds ref :=
    fun ref hlt => Function.update_of_ne (Nat.ne_of_lt hlt) ..
  have hself : (s.openRound req).rounds s.nextRound = { requestId := req } :=
    Function.update_self ..
  have hnew : ∀ o ∈ s.history, o.round ≠ some s.nextRound := fun o ho he =>
    absurd (hs.fresh o ho _ he) (Nat.lt_irrefl _)
  have hcases : ∀ ref < s.nextRound + 1, ref < s.nextRound ∨ ref = s.nextRound :=
    fun _ => Nat.lt_succ_iff_lt_or_eq.mp
  constructor
  · refine ⟨hs.lifecycle, fun o ho ref hr => Nat.lt_succ_of_lt (hs.fresh o ho ref hr), ?_, ?_, ?_⟩
    · intro req' ref hl
      by_cases he : req' = req
      · subst he
        obtain rfl := Option.some.inj ((AList.lookup_insert s.toolRounds).symm.trans hl)
        exact ⟨Nat.lt_succ_self _, by rw [hself]⟩
      · have hl' := (AList.lookup_insert_ne he).symm.trans hl
        obtain ⟨hlt, hreq⟩ := hs.owned req' ref hl'
        exact ⟨Nat.lt_succ_of_lt hlt, by rw [hother ref hlt]; exact hreq⟩
    · intro ref hlt hc
      rcases hcases ref hlt with hlt | rfl
      · rw [hother ref hlt] at hc ⊢
        have hl := hs.current ref hlt hc
        have hne : (s.rounds ref).requestId ≠ req := by
          intro he
          rw [he] at hl
          rw [hclosed ref hl] at hc
          cases hc
        exact (AList.lookup_insert_ne hne).trans hl
      · rw [hself]
        exact AList.lookup_insert _
    · intro ref hlt
      rcases hcases ref hlt with hlt | rfl
      · rw [hother ref hlt]
        exact hs.book ref hlt
      · rw [hself]
        refine ⟨fun h => absurd rfl (hnew _ h), fun _ _ h => absurd rfl (hnew _ h),
          fun _ id => ⟨fun h => absurd rfl (hnew _ h), fun h => absurd h List.not_mem_nil⟩,
          fun _ id result => ⟨fun h => absurd rfl (hnew _ h), ?_⟩,
          fun _ tag d h hr => absurd (congrArg some hr) (hnew _ h)⟩
        rintro ⟨p, hp, -⟩
        exact absurd hp List.not_mem_nil
  · refine ⟨Nat.le_succ _, fun ref hlt => by rw [hother ref hlt], fun req' hp => ?_,
      fun ref hlt _ => hother ref hlt, fun ref hlt hge => ?_⟩
    · exact AList.lookup_insert_ne fun he => hP (he ▸ hp)
    · rcases hcases ref hlt with hlt | rfl
      · exact absurd hlt (Nat.not_lt.mpr hge)
      · rw [hself]
        exact hP

theorem RoundsInv.addCall (hs : RoundsInv s) (href : ref < s.nextRound)
    (hP : ¬P (s.rounds ref).requestId) (hopen : (s.rounds ref).closed = false)
    (call : ToolRound.Call) : Moves P s (s.addCall ref call) := by
  unfold ToolsManager.addCall
  by_cases hin : call.id ∈ (s.rounds ref).indexById
  · rw [if_pos hin]
    exact ⟨hs, .refl P s⟩
  · rw [if_neg hin]
    have hid : call.id ∉ (s.rounds ref).ids := fun h => hin (ToolRound.contains_index.mpr h)
    obtain ⟨hpending, hreq, hnext, -, hclosed⟩ := ToolRound.addCall_of_notMem hid
    have hb := hs.book ref href
    have ha := hs.not_abandoned href hopen
    have hcalled : .called ref call.id ∉ s.history := fun h => hid ((hb.called ha _).mp h)
    refine hs.record (.called ref call.id) href hP hreq (fun h => hclosed.symm.trans h) rfl
      ⟨hcalled, hs.not_completed href hopen⟩ ⟨?_, ?_, ?_, ?_, ?_⟩
    · exact fun h => absurd (mem_old h (by simp)) ha
    · exact fun req results h => absurd (mem_old h (by simp)) (hs.not_completed href hopen req results)
    · intro _ id
      rw [ToolRound.ids, hpending, List.map_append, List.mem_append, ← ToolRound.ids,
        ← hb.called ha id, List.mem_cons]
      simp [or_comm]
    · intro _ id result
      rw [hpending]
      refine ⟨fun h => ?_, ?_⟩
      · obtain ⟨p, hp, hrest⟩ := (hb.settled ha id result).mp (mem_old h (by simp))
        exact ⟨p, List.mem_append_left _ hp, hrest⟩
      · rintro ⟨p, hp, hid', hc, hres⟩
        rcases List.mem_append.mp hp with hp | hp
        · exact List.mem_cons_of_mem _ ((hb.settled ha id result).mpr ⟨p, hp, hid', hc, hres⟩)
        · rw [List.mem_singleton.mp hp] at hc
          cases hc
    · intro _ tag d h hround
      have hmem := hb.dispatched ha tag d (mem_old h (by simp)) hround
      rw [ToolRound.ids, hpending, hnext, List.map_append, List.take_append]
      exact List.mem_append_left _ hmem

/-- Updates of fields the book does not look at. -/
theorem RoundsInv.setFields (hs : RoundsInv s) (href : ref < s.nextRound)
    (hP : ¬P (s.rounds ref).requestId) {r : ToolRound}
    (hreq : r.requestId = (s.rounds ref).requestId) (hclosed : r.closed = (s.rounds ref).closed)
    (hpending : r.pending = (s.rounds ref).pending) (hnext : (s.rounds ref).next ≤ r.next) :
    Moves P s (s.setRound ref r) := by
  have hb := hs.book ref href
  refine hs.setRound (h := s.history) href hP hreq (fun h => hclosed.symm.trans h) (.inl rfl)
    ⟨?_, ?_, ?_, ?_, ?_⟩
  · rw [hclosed, hpending]; exact hb.abandoned
  · rw [hclosed, hreq]; exact hb.completed
  · rw [ToolRound.ids, hpending]; exact hb.called
  · rw [hpending]; exact hb.settled
  · intro ha tag d h hround
    rw [ToolRound.ids, hpending]
    exact (List.take_sublist_take_left hnext).subset (hb.dispatched ha tag d h hround)

theorem RoundsInv.setAdvancing (hs : RoundsInv s) (href : ref < s.nextRound)
    (hP : ¬P (s.rounds ref).requestId) (b : Bool) : Moves P s (s.setAdvancing ref b) :=
  hs.setFields href hP rfl rfl rfl (Nat.le_refl _)

/-- The next call is taken and dispatched. -/
theorem RoundsInv.dispatchNext (hs : RoundsInv s) (href : ref < s.nextRound)
    (hP : ¬P (s.rounds ref).requestId) {call : PendingTool}
    (hcall : (s.rounds ref).pending[(s.rounds ref).next]? = some call) (d : Dispatch)
    (hround : d.round = ref) (hid : d.args.toolId = call.id) :
    Moves P s ((s.takeNext ref).markDispatched d) := by
  have hb := hs.book ref href
  obtain ⟨hlt, hget⟩ := List.getElem?_eq_some_iff.mp hcall
  have hmem : call ∈ (s.rounds ref).pending := List.mem_of_getElem? hcall
  have ha : .abandoned ref ∉ s.history := fun h => by
    rw [(hb.abandoned h).2] at hmem
    exact absurd hmem List.not_mem_nil
  have hids : (s.rounds ref).ids[(s.rounds ref).next]? = some call.id := by
    rw [ToolRound.ids, List.getElem?_map, hcall]
    rfl
  -- the ids before `m_next` do not contain the one at `m_next`
  have hnotin : call.id ∉ (s.rounds ref).ids.take (s.rounds ref).next := by
    intro hin
    obtain ⟨i, hi⟩ := List.mem_iff_getElem?.mp hin
    rw [List.getElem?_take] at hi
    split at hi
    · rename_i hilt
      have hne := List.nodup_iff_getElem?_ne_getElem?.mp (s.rounds ref).ids_nodup i _ hilt
        (by rw [ToolRound.ids, List.length_map]; exact hlt)
      exact hne (hi.trans hids.symm)
    · cases hi
  have hfollows : Follows s.history (.dispatched s.nextTag d) := by
    refine ⟨?_, fun tag' d' h' hround' heq => ?_⟩
    · rw [hround, hid]
      exact (hb.called ha _).mpr (List.mem_map_of_mem hmem)
    · refine hnotin ?_
      rw [← hid, ← heq]
      exact hb.dispatched ha tag' d' h' (hround'.trans hround)
  have hset := hs.record (P := P) (.dispatched s.nextTag d)
    (r := { s.rounds ref with next := (s.rounds ref).next + 1 }) href hP rfl (fun h => h)
    (congrArg some hround) hfollows ⟨fun h => hb.abandoned (mem_old h (by simp)),
      fun req results h => hb.completed req results (mem_old h (by simp)), fun _ id => ?_,
      fun _ id result => ?_, fun _ tag d' h hround' => ?_⟩
  · refine ⟨⟨hset.1.lifecycle, hset.1.fresh, hset.1.owned, hset.1.current, hset.1.book⟩,
      ⟨hset.2.nextRound, hset.2.requestId, hset.2.lookup, hset.2.same, hset.2.new⟩⟩
  · exact ⟨fun h => (hb.called ha id).mp (mem_old h (by simp)),
      fun h => List.mem_cons_of_mem _ ((hb.called ha id).mpr h)⟩
  · exact ⟨fun h => (hb.settled ha id result).mp (mem_old h (by simp)),
      fun h => List.mem_cons_of_mem _ ((hb.settled ha id result).mpr h)⟩
  · have htake : call.id ∈ (s.rounds ref).ids.take ((s.rounds ref).next + 1) := by
      refine List.mem_iff_getElem?.mpr ⟨(s.rounds ref).next, ?_⟩
      rw [List.getElem?_take, if_pos (Nat.lt_succ_self _)]
      exact hids
    rcases List.mem_cons.mp h with heq | h
    · cases heq
      rw [hid]
      exact htake
    · exact (List.take_sublist_take_left (Nat.le_succ _)).subset (hb.dispatched ha tag d' h hround')

theorem RoundsInv.settleCall (hs : RoundsInv s) (href : ref < s.nextRound)
    (hP : ¬P (s.rounds ref).requestId) {id : String} {result : ToolResult} {success : Bool}
    {settled : ToolRound} (hsettle : (s.rounds ref).settle id result success = some settled) :
    Moves P s (s.settleCall ref id result settled) := by
  have hb := hs.book ref href
  obtain ⟨before, p, after, hp, hid, hc, -, hreq, hnext, -, hclosed⟩ :=
    ToolRound.settle_cases hsettle
  have hids := ToolRound.settle_ids hsettle
  have hmem : p ∈ (s.rounds ref).pending := by rw [hp]; simp
  have ha : .abandoned ref ∉ s.history := fun h => by
    rw [(hb.abandoned h).2] at hmem
    exact absurd hmem List.not_mem_nil
  have hunsettled : ∀ result', .settled ref id result' ∉ s.history := by
    intro result' h
    obtain ⟨q, hq, hqid, hqc, -⟩ := (hb.settled ha id result').mp h
    rw [ToolRound.eq_of_id hq hmem (hqid.trans hid.symm), hc] at hqc
    cases hqc
  refine hs.record (.settled ref id result) href hP hreq (fun h => hclosed.symm.trans h) rfl
    ⟨?_, hunsettled⟩ ⟨fun h => absurd (mem_old h nofun) ha, fun req results h => ?_, fun _ id' => ?_,
      fun _ id' result' => ?_, fun _ tag d h hround => ?_⟩
  · refine (hb.called ha id).mpr ?_
    rw [← hid]
    exact List.mem_map_of_mem hmem
  · rw [hclosed, hreq]
    exact hb.completed req results (mem_old h nofun)
  · rw [hids, ← hb.called ha id']
    exact ⟨fun h => mem_old h nofun, List.mem_cons_of_mem _⟩
  · constructor
    · intro h
      rcases List.mem_cons.mp h with heq | hin
      · cases heq
        exact ⟨_, (ToolRound.mem_settle hsettle _).mpr (.inl ⟨p, hmem, hid, rfl⟩), hid, rfl, rfl⟩
      · obtain ⟨q, hq, hqid, hqc, hqr⟩ := (hb.settled ha id' result').mp hin
        refine ⟨q, (ToolRound.mem_settle hsettle _).mpr (.inr ⟨hq, ?_⟩), hqid, hqc, hqr⟩
        intro he
        obtain rfl : id' = id := hqid.symm.trans he
        exact hunsettled result' hin
    · rintro ⟨q, hq, hqid, hqc, hqr⟩
      rcases (ToolRound.mem_settle hsettle q).mp hq with ⟨p', hp', hpid, rfl⟩ | ⟨hq, hne⟩
      · obtain rfl : p' = p := ToolRound.eq_of_id hp' hmem (hpid.trans hid.symm)
        rw [← hqid, ← hqr]
        exact List.mem_cons.mpr (.inl (by rw [← hid]; rfl))
      · exact List.mem_cons_of_mem _ ((hb.settled ha id' result').mpr ⟨q, hq, hqid, hqc, hqr⟩)
  · rw [hids, hnext]
    exact hb.dispatched ha tag d (mem_old h nofun) hround

theorem RoundsInv.closeRound (hs : RoundsInv s) (href : ref < s.nextRound)
    (hP : ¬P (s.rounds ref).requestId) (hopen : (s.rounds ref).closed = false)
    (hsettled : (s.rounds ref).isSettled = true) :
    Moves P s (s.closeRound ref (s.rounds ref).requestId) := by
  have hb := hs.book ref href
  have ha := hs.not_abandoned href hopen
  obtain ⟨-, hcomplete⟩ := ToolRound.isSettled_iff.mp hsettled
  have hresults := ToolRound.lookup_results (s.rounds ref)
  refine hs.record (.completed ref (s.rounds ref).requestId (s.rounds ref).results)
    (r := { s.rounds ref with closed := true }) href hP rfl (fun h => by cases h) rfl
    ⟨ha, hs.not_completed href hopen, fun id => ?_, fun id result h => ?_⟩
    ⟨fun h => absurd (mem_old h nofun) ha, fun req results h => ?_,
      fun _ id => ⟨fun h => (hb.called ha id).mp (mem_old h nofun),
        fun h => List.mem_cons_of_mem _ ((hb.called ha id).mpr h)⟩,
      fun _ id result => ⟨fun h => (hb.settled ha id result).mp (mem_old h nofun),
        fun h => List.mem_cons_of_mem _ ((hb.settled ha id result).mpr h)⟩,
      fun _ tag d h hround => hb.dispatched ha tag d (mem_old h nofun) hround⟩
  · rw [hb.called ha id, ← AList.lookup_isSome, Option.isSome_iff_exists]
    constructor
    · rintro ⟨result, hr⟩
      obtain ⟨p, hp, hid, -⟩ := (hresults id result).mp hr
      exact ToolRound.mem_ids.mpr ⟨p, hp, hid⟩
    · intro h
      obtain ⟨p, hp, hid⟩ := ToolRound.mem_ids.mp h
      exact ⟨p.result, (hresults id p.result).mpr ⟨p, hp, hid, hcomplete p hp, rfl⟩⟩
  · obtain ⟨p, hp, hid, hc, hr⟩ := (hresults id result).mp h
    exact (hb.settled ha id result).mpr ⟨p, hp, hid, hc, hr⟩
  · rcases List.mem_cons.mp h with heq | h
    · cases heq
      exact ⟨rfl, rfl⟩
    · exact absurd h (hs.not_completed href hopen req results)

theorem RoundsInv.dropRound (hs : RoundsInv s) {req : String} (hP : ¬P req) :
    Moves P s (s.dropRound req) := by
  unfold ToolsManager.dropRound
  cases hl : s.toolRounds.lookup req with
  | none => exact ⟨hs, .refl P s⟩
  | some ref =>
      show Moves P s (s.abandonRound req ref)
      obtain ⟨href, hreq⟩ := hs.owned req ref hl
      have hb := hs.book ref href
      have hset := hs.record (P := P) (.abandoned ref)
        (r := (s.rounds ref).abandon) href (by rw [hreq]; exact hP) rfl (fun h => by cases h)
        rfl trivial ⟨fun _ => ⟨rfl, rfl⟩,
          fun req results h => ⟨rfl, (hb.completed req results (mem_old h nofun)).2⟩,
          fun ha => absurd List.mem_cons_self ha, fun ha => absurd List.mem_cons_self ha,
          fun ha => absurd List.mem_cons_self ha⟩
      refine ⟨⟨hset.1.lifecycle, hset.1.fresh, ?_, ?_, hset.1.book⟩,
        ⟨hset.2.nextRound, hset.2.requestId, ?_, hset.2.same, hset.2.new⟩⟩
      · intro req' ref' hl'
        refine hset.1.owned req' ref' ?_
        by_cases he : req' = req
        · subst he
          have hnone : (s.abandonRound req' ref).toolRounds.lookup req' = none :=
            AList.lookup_erase ..
          rw [hnone] at hl'
          cases hl'
        · exact (AList.lookup_erase_ne he).symm.trans hl'
      · intro ref' hlt hc
        have hl' := hset.1.current ref' hlt hc
        have hother : ref' ≠ ref := by
          rintro rfl
          have hself : (s.abandonRound req ref').rounds ref' = (s.rounds ref').abandon :=
            Function.update_self ..
          rw [hself] at hc
          cases hc
        refine (AList.lookup_erase_ne fun he => hother ?_).trans hl'
        exact Option.some.inj ((he ▸ hl').symm.trans hl)
      · exact fun req' hp => AList.lookup_erase_ne fun he => hP (he ▸ hp)

theorem RoundsInv.cleanupRequest (hs : RoundsInv s) {req : String} (hP : ¬P req) :
    Moves P s (s.cleanupRequest req) := by
  have h₁ := hs.dropRound (P := P) hP
  exact h₁.trans (h₁.1.neutral rfl rfl rfl (.inr ⟨.cleaned req _, rfl, trivial, rfl⟩))

end Operations

/-! ### The code -/

/-- The contract that protects the rounds of the request ids `P`. -/
def roundsContract (P : String → Prop) : Contract ToolsSig where
  inv := RoundsInv
  rely := Evolves P
  pre
    | .driveRound req, s => RoundsInv s ∧ ¬P req
    | .advanceLoop ref, s => RoundsInv s ∧ ref < s.nextRound ∧ ¬P (s.rounds ref).requestId
  post _ s _ s' := Moves P s s'

theorem roundsContract_preorder (P : String → Prop) : (roundsContract P).Preorder where
  refl := Evolves.refl P
  trans := Evolves.trans

/-- From state `s` the code `p` keeps the invariant and the rounds of `P`. -/
abbrev KeepsRounds (P : String → Prop) {α : Type} (p : Proc ToolsSig α) (s : ToolsManager) :
    Prop :=
  (roundsContract P).KeepsAt (fun _ _ _ => True) p s

variable {α β : Type} {ref : RoundRef}

theorem KeepsRounds.ret (hs : RoundsInv s) (a : α) : KeepsRounds P (pure a) s :=
  Contract.KeepsAt.ret (roundsContract_preorder P) hs a

theorem KeepsRounds.bind {p : Proc ToolsSig α} {g : α → Proc ToolsSig β}
    (hp : KeepsRounds P p s) (hg : ∀ a s', Moves P s s' → KeepsRounds P (g a) s') :
    KeepsRounds P (p >>= g) s :=
  Contract.KeepsAt.bind (roundsContract_preorder P) hp hg

theorem KeepsRounds.run_bind {p : Throws ToolsSig α} {g : α → Throws ToolsSig β}
    (hp : KeepsRounds P p.run s) (hg : ∀ a s', Moves P s s' → KeepsRounds P (g a).run s') :
    KeepsRounds P (p >>= g).run s :=
  Contract.KeepsAt.run_bind (roundsContract_preorder P) hp hg

theorem KeepsRounds.lift {p : Proc ToolsSig α} (hp : KeepsRounds P p s) :
    KeepsRounds P (liftM p : Throws ToolsSig α).run s :=
  Contract.KeepsAt.run_lift (roundsContract_preorder P) hp

theorem KeepsRounds.discard {p : Throws ToolsSig Unit} (h : KeepsRounds P p.run s) :
    KeepsRounds P (Functor.discard p.run) s :=
  Contract.KeepsAt.discard (roundsContract_preorder P) h

theorem KeepsRounds.read {g : ToolsManager → Proc ToolsSig α} (h : KeepsRounds P (g s) s) :
    KeepsRounds P (Proc.read (S := ToolsSig) >>= g) s := h

/-- Code that runs after a move. -/
theorem KeepsRounds.after {p : Proc ToolsSig α} {s₁ : ToolsManager} (h : Moves P s s₁)
    (hp : KeepsRounds P p s₁) :
    wp (fun _ _ _ => True) (roundsContract P) p (fun _ s' => Moves P s s') s₁ :=
  Contract.KeepsAt.after (roundsContract_preorder P) h hp

theorem KeepsRounds.modify {f : ToolsManager → ToolsManager} (h : Moves P s (f s)) :
    KeepsRounds P (toolsHost.modify f) s :=
  h

/-- A call-out keeps the rounds: what happens meanwhile is a visit. -/
theorem KeepsRounds.query (hs : RoundsInv s) (e : ToolsOut) :
    KeepsRounds P (Proc.query (S := ToolsSig) e) s :=
  Contract.KeepsAt.query (C := roundsContract P) hs e

theorem KeepsRounds.driveRound (hs : RoundsInv s) {req : String} (hP : ¬P req) :
    KeepsRounds P (toolsHost.driveRound req) s :=
  ⟨⟨hs, hP⟩, fun _ _ h => h⟩

theorem KeepsRounds.advanceLoop (hs : RoundsInv s) (href : ref < s.nextRound)
    (hP : ¬P (s.rounds ref).requestId) : KeepsRounds P (toolsHost.advanceLoop ref) s :=
  ⟨⟨hs, href, hP⟩, fun _ _ h => h⟩

/-- Code over `ExceptT` that reads the state first. -/
theorem KeepsRounds.run_read {g : ToolsManager → Throws ToolsSig α}
    (h : KeepsRounds P (g s).run s) :
    KeepsRounds P ((liftM toolsHost.read : Throws ToolsSig _) >>= g).run s :=
  h

/-- The request id of a round is what it was. -/
theorem Moves.not_protected (h : Moves P s s') (href : ref < s.nextRound)
    (hP : ¬P (s.rounds ref).requestId) :
    ref < s'.nextRound ∧ ¬P (s'.rounds ref).requestId :=
  ⟨Nat.lt_of_lt_of_le href h.2.nextRound, by rw [h.2.requestId ref href]; exact hP⟩

theorem keepsRounds_finalizePendingTool (hs : RoundsInv s) {req : String} (hP : ¬P req)
    (id : String) (rich : ToolResult) (success : Bool) :
    KeepsRounds P (toolsHost.finalizePendingTool req id rich success).run s := by
  refine .run_read ?_
  cases hl : s.toolRounds.lookup req with
  | none => exact .ret hs _
  | some ref =>
      obtain ⟨href, hreq⟩ := hs.owned req ref hl
      dsimp only
      cases hsettle : (s.rounds ref).settle id rich success with
      | none => exact .ret hs _
      | some settled =>
          have hmove := hs.settleCall (P := P) href (by rw [hreq]; exact hP) hsettle
          refine .run_bind (.lift (.modify hmove)) fun _ s₁ h₁ => ?_
          cases settled.find id with
          | none => exact .ret h₁.1 _
          | some pending =>
              exact .run_bind (.lift (.query h₁.1 _)) fun _ s₂ h₂ => .driveRound h₂.1 hP

/-- Updates that leave the rounds and their history alone. -/
theorem KeepsRounds.neutral (hs : RoundsInv s) {f : ToolsManager → ToolsManager}
    (hrounds : (f s).rounds = s.rounds) (hnext : (f s).nextRound = s.nextRound)
    (htool : (f s).toolRounds = s.toolRounds) (hist : (f s).history = s.history) :
    KeepsRounds P (toolsHost.modify f) s :=
  .modify (hs.neutral hrounds hnext htool (.inl hist))

/-- Updates that add an observation about no round. -/
theorem KeepsRounds.note (hs : RoundsInv s) {f : ToolsManager → ToolsManager}
    {o : ToolObservation} (ho : o.round = none) (hf : Follows s.history o)
    (hrounds : (f s).rounds = s.rounds) (hnext : (f s).nextRound = s.nextRound)
    (htool : (f s).toolRounds = s.toolRounds) (hist : (f s).history = o :: s.history) :
    KeepsRounds P (toolsHost.modify f) s :=
  .modify (hs.neutral hrounds hnext htool (.inr ⟨o, ho, hf, hist⟩))

theorem keepsRounds_startExecution (hs : RoundsInv s) (tag : CallTag) {args : CallArgs}
    (hP : ¬P args.requestId) : KeepsRounds P (toolsHost.startExecution tag args).run s := by
  refine .run_read ?_
  cases s.tools.lookup args.toolName with
  | none => exact keepsRounds_finalizePendingTool hs hP _ _ _
  | some tool =>
      refine .run_bind (.lift (.note hs (o := .announced tag args) rfl trivial rfl rfl rfl rfl))
        fun _ s₁ h₁ => ?_
      refine .run_bind (.lift (.query h₁.1 _)) fun _ s₂ h₂ => ?_
      refine .run_bind (.lift (.note h₂.1 (o := .executed tag args) rfl trivial rfl rfl rfl rfl))
        fun _ s₃ h₃ => ?_
      exact .query h₃.1 _

theorem keepsRounds_askGate (hs : RoundsInv s) (tag : CallTag) (ref : RoundRef)
    (args : CallArgs) : KeepsRounds P (toolsHost.askGate tag ref args).run s := by
  refine .run_bind (.lift (.note hs (o := .asked tag args) rfl trivial rfl rfl rfl rfl))
    fun _ s₁ h₁ => ?_
  refine .run_bind (.query h₁.1 _) fun _ s₂ h₂ => ?_
  exact .lift (.neutral h₂.1 rfl rfl rfl rfl)

/-- Dispatching the call that was just taken. -/
theorem keepsRounds_dispatchCall (hs : RoundsInv s) (href : ref < s.nextRound)
    (hP : ¬P (s.rounds ref).requestId) {call : PendingTool}
    (hcall : (s.rounds ref).pending[(s.rounds ref).next]? = some call) {args : CallArgs}
    (hid : args.toolId = call.id) (hargs : ¬P args.requestId) :
    wp (fun _ _ _ => True) (roundsContract P) (toolsHost.dispatchCall ref args).run
      (fun _ s' => Moves P s s') (s.takeNext ref) := by
  have hmove : ∀ safety, Moves P s
      ((s.takeNext ref).markDispatched ⟨ref, args, safety, s.executionGate⟩) :=
    fun safety => hs.dispatchNext href hP hcall _ rfl hid
  refine wp_run_of_read ?_
  cases (s.takeNext ref).tools.lookup args.toolName with
  | none =>
      refine wp_run_of_modify ?_
      refine KeepsRounds.after (hmove none) ?_
      exact .run_bind (keepsRounds_finalizePendingTool (hmove none).1 hargs _ _ _)
        fun _ _ h => .ret h.1 _
  | some tool =>
      have h₁ := (hmove (some tool.safety)).1
      refine wp_run_of_modify ?_
      refine KeepsRounds.after (hmove (some tool.safety)) ?_
      show KeepsRounds P (if s.executionGate && tool.safety == .mutating then _ else _ :
        Throws ToolsSig Bool).run _
      by_cases hgate : (s.executionGate && tool.safety == .mutating) = true
      · rw [if_pos hgate]
        exact .run_bind (keepsRounds_askGate h₁ _ _ _) fun _ _ h => .ret h.1 _
      · rw [if_neg hgate]
        exact .run_bind (keepsRounds_startExecution h₁ _ hargs) fun _ _ h => .ret h.1 _

theorem keepsRounds_dispatch (hs : RoundsInv s) (href : ref < s.nextRound)
    (hP : ¬P (s.rounds ref).requestId)
    (hnext : (s.rounds ref).next < (s.rounds ref).pending.length) :
    wp (fun _ _ _ => True) (roundsContract P)
      (toolsHost.dispatch ref (s.rounds ref).next).run (fun _ s' => Moves P s s')
      (s.takeNext ref) := by
  obtain ⟨call, hcall⟩ : ∃ call, (s.rounds ref).pending[(s.rounds ref).next]? = some call :=
    ⟨_, List.getElem?_eq_getElem hnext⟩
  have hself : (s.takeNext ref).rounds ref =
      { s.rounds ref with next := (s.rounds ref).next + 1 } := Function.update_self ..
  have hcall' : ((s.takeNext ref).rounds ref).pending[(s.rounds ref).next]? = some call := by
    rw [hself]
    exact hcall
  refine wp_run_of_read ?_
  rw [hcall']
  refine keepsRounds_dispatchCall hs href hP hcall rfl ?_
  show ¬P ((s.takeNext ref).rounds ref).requestId
  rw [hself]
  exact hP

/-- The body of the loop of `advance`. -/
theorem keepsRounds_advanceBody (hs : RoundsInv s) (href : ref < s.nextRound)
    (hP : ¬P (s.rounds ref).requestId) : KeepsRounds P (toolsHost.advanceBody ref).run s := by
  refine .run_read ?_
  by_cases hnext : (s.rounds ref).next < (s.rounds ref).pending.length
  · show KeepsRounds P (if (s.rounds ref).next < (s.rounds ref).pending.length then _ else _ :
      Throws ToolsSig Unit).run s
    rw [if_pos hnext]
    refine (wp_run_bind (toolsHost.dispatch ref (s.rounds ref).next) _ _ (s.takeNext ref)).mpr ?_
    refine wp_mono (keepsRounds_dispatch hs href hP hnext) fun r s₁ h₁ => ?_
    cases r with
    | error e => exact h₁
    | ok dispatched =>
        cases dispatched with
        | true => exact h₁
        | false =>
            obtain ⟨href₁, hP₁⟩ := h₁.not_protected href hP
            exact KeepsRounds.after h₁ (.advanceLoop h₁.1 href₁ hP₁)
  · show KeepsRounds P (if (s.rounds ref).next < (s.rounds ref).pending.length then _ else _ :
      Throws ToolsSig Unit).run s
    rw [if_neg hnext]
    exact .ret hs _

theorem keepsRounds_advance (hs : RoundsInv s) (href : ref < s.nextRound)
    (hP : ¬P (s.rounds ref).requestId) : KeepsRounds P (toolsHost.advance ref).run s := by
  have hmove := hs.setAdvancing (P := P) href hP true
  refine .run_bind (.lift (.modify hmove)) fun _ s₁ h₁ => ?_
  obtain ⟨href₁, hP₁⟩ := h₁.not_protected href hP
  refine .run_bind (.advanceLoop h₁.1 href₁ hP₁) fun _ s₂ h₂ => ?_
  obtain ⟨href₂, hP₂⟩ := h₂.not_protected href₁ hP₁
  exact .lift (.modify (h₂.1.setAdvancing href₂ hP₂ false))

theorem keepsRounds_announce (hs : RoundsInv s) (href : ref < s.nextRound)
    (hP : ¬P (s.rounds ref).requestId) :
    KeepsRounds P (toolsHost.announce (s.rounds ref).requestId ref) s := by
  show KeepsRounds P (if (s.rounds ref).closed || !(s.rounds ref).isSettled then _ else _) s
  by_cases hdone : ((s.rounds ref).closed || !(s.rounds ref).isSettled) = true
  · rw [if_pos hdone]
    exact .ret hs _
  · rw [if_neg hdone]
    simp only [Bool.or_eq_true, Bool.not_eq_true', not_or, Bool.not_eq_true,
      Bool.not_eq_false] at hdone
    exact .bind (.modify (hs.closeRound href hP hdone.1 hdone.2)) fun _ s₁ h₁ => .query h₁.1 _

/-- `driveRound`. -/
theorem keepsRounds_driveBody (hs : RoundsInv s) {req : String} (hP : ¬P req) :
    KeepsRounds P (toolsHost.driveBody req).run s := by
  refine .run_read ?_
  cases hl : s.toolRounds.lookup req with
  | none => exact .ret hs _
  | some ref =>
      obtain ⟨href, rfl⟩ := hs.owned req ref hl
      show KeepsRounds P (if (s.rounds ref).closed || (s.rounds ref).advancing then _ else _ :
        Throws ToolsSig Unit).run s
      by_cases hidle : ((s.rounds ref).closed || (s.rounds ref).advancing) = true
      · rw [if_pos hidle]
        exact .ret hs _
      · rw [if_neg hidle]
        refine .run_bind (keepsRounds_advance hs href hP) fun _ s₁ h₁ => ?_
        obtain ⟨href₁, hP₁⟩ := h₁.not_protected href hP
        rw [← h₁.2.requestId ref href]
        exact .lift (keepsRounds_announce h₁.1 href₁ hP₁)

/-- A round stays open when a call is added. -/
theorem closed_addCall (hopen : (s.rounds ref).closed = false) (call : ToolRound.Call) :
    ((s.addCall ref call).rounds ref).closed = false := by
  unfold ToolsManager.addCall
  split
  · exact hopen
  · rename_i hnew
    have hid : call.id ∉ (s.rounds ref).ids := fun h => hnew (ToolRound.contains_index.mpr h)
    have hself : ((s.setRound ref ((s.rounds ref).addCall call)).observe
        (.called ref call.id)).rounds ref = (s.rounds ref).addCall call := Function.update_self ..
    rw [hself, (ToolRound.addCall_of_notMem hid).2.2.2.2]
    exact hopen

/-- Adding calls to an open round. -/
theorem RoundsInv.addCalls (hs : RoundsInv s) (href : ref < s.nextRound)
    (hP : ¬P (s.rounds ref).requestId) (hopen : (s.rounds ref).closed = false)
    (calls : List ToolRound.Call) : Moves P s (s.addCalls ref calls) := by
  induction calls generalizing s with
  | nil => exact ⟨hs, .refl P s⟩
  | cons call calls ih =>
      have h₁ := hs.addCall href hP hopen call
      obtain ⟨href₁, hP₁⟩ := h₁.not_protected href hP
      exact h₁.trans (ih h₁.1 href₁ hP₁ (closed_addCall hopen call))

/-- The round calls are added to is open, and the request's own. -/
theorem RoundsInv.currentRound (hs : RoundsInv s) {req : String} (hP : ¬P req) :
    Moves P s (s.currentRound req).2 ∧ (s.currentRound req).1 < (s.currentRound req).2.nextRound ∧
      ((s.currentRound req).2.rounds (s.currentRound req).1).requestId = req ∧
      ((s.currentRound req).2.rounds (s.currentRound req).1).closed = false := by
  have hself : (s.openRound req).rounds s.nextRound = { requestId := req } :=
    Function.update_self ..
  unfold ToolsManager.currentRound
  cases hl : s.toolRounds.lookup req with
  | none =>
      have hnone : ∀ ref, s.toolRounds.lookup req = some ref → (s.rounds ref).closed = true :=
        fun ref h => by rw [hl] at h; cases h
      exact ⟨hs.openRound hP hnone, Nat.lt_succ_self _, congrArg ToolRound.requestId hself,
        congrArg ToolRound.closed hself⟩
  | some ref =>
      obtain ⟨href, hreq⟩ := hs.owned req ref hl
      by_cases hc : (s.rounds ref).closed = true
      · simp only [hc, if_true]
        refine ⟨hs.openRound hP fun ref' h => ?_, Nat.lt_succ_self _,
          congrArg ToolRound.requestId hself, congrArg ToolRound.closed hself⟩
        obtain rfl := Option.some.inj (hl.symm.trans h)
        exact hc
      · simp only [hc]
        exact ⟨⟨hs, .refl P s⟩, href, hreq, by simpa using hc⟩

theorem RoundsInv.extendRound (hs : RoundsInv s) {req : String} (hP : ¬P req)
    (calls : List ToolRound.Call) : Moves P s (s.extendRound req calls) := by
  obtain ⟨h₁, href, hreq, hopen⟩ := hs.currentRound hP
  exact h₁.trans (h₁.1.addCalls href (by rw [hreq]; exact hP) hopen calls)

theorem keepsRounds_beginRound (hs : RoundsInv s) {req : String} (hP : ¬P req)
    (calls : List ToolRound.Call) : KeepsRounds P (toolsHost.beginRound req calls).run s := by
  unfold ToolsHost.beginRound
  by_cases hc : calls.isEmpty = true
  · rw [if_pos hc]
    exact .ret hs _
  · rw [if_neg hc]
    exact .run_bind (.lift (.modify (hs.extendRound hP calls))) fun _ _ h => .driveRound h.1 hP

theorem keepsRounds_gateContinuation (hs : RoundsInv s) (tag : CallTag) {w : GateWatcher}
    (hP : ¬P w.args.requestId) (allowed : Bool) :
    KeepsRounds P (toolsHost.gateContinuation tag w allowed).run s := by
  refine .run_bind (.lift (.note hs (o := .yielded tag allowed _) rfl trivial rfl rfl rfl rfl))
    fun _ s₁ h₁ => ?_
  cases allowed with
  | true => exact keepsRounds_startExecution h₁.1 _ hP
  | false => exact keepsRounds_finalizePendingTool h₁.1 hP _ _ _

theorem keepsRounds_gateFinished (hs : RoundsInv s) (tag : CallTag)
    (outcome : Except Unit Bool)
    (hP : ∀ w, s.gates.lookup tag = some w → ¬P w.args.requestId) :
    KeepsRounds P (toolsHost.gateFinished tag outcome) s := by
  refine KeepsRounds.read ?_
  cases hl : s.gates.lookup tag with
  | none => exact .ret hs _
  | some w =>
      refine .bind (.neutral hs rfl rfl rfl rfl) fun _ s₁ h₁ => ?_
      cases outcome with
      | error _ => exact .ret h₁.1 _
      | ok allowed =>
          exact .discard (keepsRounds_gateContinuation h₁.1 tag (hP w hl) allowed)

theorem keepsRounds_reportResult (hs : RoundsInv s) {key : ExecutionKey} (hP : ¬P key.1)
    (outcome : Except ToolExn ToolResult) :
    KeepsRounds P (toolsHost.reportResult key outcome).run s := by
  cases outcome with
  | error e => exact .ret hs _
  | ok result =>
      show KeepsRounds P (if result.isError then _ else _ : Throws ToolsSig Unit).run s
      by_cases he : result.isError = true
      · rw [if_pos he]
        exact keepsRounds_finalizePendingTool hs hP _ _ _
      · rw [if_neg he]
        exact keepsRounds_finalizePendingTool hs hP _ _ _

theorem keepsRounds_onToolExecutionFinished (hs : RoundsInv s) {key : ExecutionKey}
    (hP : ¬P key.1) (outcome : Except ToolExn ToolResult) :
    KeepsRounds P (toolsHost.onToolExecutionFinished key outcome) s := by
  show KeepsRounds P (if key ∈ s.activeExecutions then _ else _) s
  by_cases hk : key ∈ s.activeExecutions
  · rw [if_pos hk]
    refine .bind (.neutral hs rfl rfl rfl rfl) fun _ s₁ h₁ => ?_
    refine .bind (keepsRounds_reportResult h₁.1 hP outcome) fun r s₂ h₂ => ?_
    cases r with
    | ok _ => exact .ret h₂.1 _
    | error e => exact .discard (keepsRounds_finalizePendingTool h₂.1 hP _ _ _)
  · rw [if_neg hk]
    exact .ret hs _

/-! ### Runs -/

/-- The request id a call concerns. -/
def ToolsCall.Concerns (s : ToolsManager) (req : String) : ToolsCall → Prop
  | .beginRound req' _ => req' = req
  | .executeToolCall args => args.requestId = req
  | .cleanupRequest req' => req' = req
  | .gateFinished tag _ => ∃ w, s.gates.lookup tag = some w ∧ w.args.requestId = req
  | .executionFinished key _ => key.1 = req
  | .addTool _ | .removeTool _ | .removeAllTools | .setExecutionGate _ => False

theorem keepsRounds_call (hs : RoundsInv s) {c : ToolsCall}
    (hc : ∀ req, P req → ¬c.Concerns s req) : KeepsRounds P (toolsHost.call c) s := by
  cases c with
  | addTool tool =>
      exact .bind (.neutral hs rfl rfl rfl rfl) fun _ s₁ h₁ => .query h₁.1 _
  | removeTool name =>
      show KeepsRounds P (if name ∈ s.tools then _ else _) s
      by_cases hname : name ∈ s.tools
      · rw [if_pos hname]
        exact .bind (.neutral hs rfl rfl rfl rfl) fun _ s₁ h₁ => .query h₁.1 _
      · rw [if_neg hname]
        exact .ret hs _
  | removeAllTools =>
      show KeepsRounds P (if s.tools.keys.isEmpty then _ else _) s
      by_cases hempty : s.tools.keys.isEmpty = true
      · rw [if_pos hempty]
        exact .ret hs _
      · rw [if_neg hempty]
        exact .bind (.neutral hs rfl rfl rfl rfl) fun _ s₁ h₁ => .query h₁.1 _
  | setExecutionGate installed => exact hs.neutral rfl rfl rfl (.inl rfl)
  | beginRound req calls =>
      exact .discard (keepsRounds_beginRound hs (fun h => hc req h rfl) calls)
  | executeToolCall args =>
      exact .discard (keepsRounds_beginRound hs (fun h => hc _ h rfl) _)
  | cleanupRequest req => exact hs.cleanupRequest fun h => hc req h rfl
  | gateFinished tag outcome =>
      exact keepsRounds_gateFinished hs tag outcome fun w hw hp => hc _ hp ⟨w, hw, rfl⟩
  | executionFinished key outcome =>
      exact keepsRounds_onToolExecutionFinished hs (fun h => hc _ h rfl) outcome

/-- The surroundings do not make calls that concern the request ids `P`. -/
abbrev sparing (P : String → Prop) : Surroundings toolsMachine :=
  .only toolsMachine fun s c => ∀ req, P req → ¬c.Concerns s req

theorem rounds_valid (P : String → Prop) : (roundsContract P).Valid (sparing P) :=
  Contract.Valid.of_guarded (roundsContract_preorder P) (fun _ _ hs hc => keepsRounds_call hs hc)
    fun f _ h => match f with
      | .driveRound _ => keepsRounds_driveBody h.1 h.2
      | .advanceLoop _ => keepsRounds_advanceBody h.1 h.2.1 h.2.2

theorem roundsInv_init : RoundsInv {} where
  lifecycle := ordered_nil
  fresh _ h := absurd h List.not_mem_nil
  owned _ _ h := absurd h (by simp)
  current _ h := absurd h (Nat.not_lt_zero _)
  book _ h := absurd h (Nat.not_lt_zero _)

/-- The rounds of a request id, those of old included. -/
def SameRounds (req : String) (s s' : ToolsManager) : Prop :=
  s'.toolRounds.lookup req = s.toolRounds.lookup req ∧
    (∀ ref < s.nextRound, (s.rounds ref).requestId = req → s'.rounds ref = s.rounds ref) ∧
    ∀ ref < s'.nextRound, s.nextRound ≤ ref → (s'.rounds ref).requestId ≠ req

/-- In every run, whenever the manager waits for its surroundings, its history is
right, a round is announced under its own request id, and a visit in which nothing
concerns a request id leaves the rounds of that id as they are. -/
theorem tool_round_lifecycle {c : Config ToolsSig}
    (hrun : Reaches (Surroundings.any toolsMachine) (.idle {}) c) (hw : c.Waiting) :
    Lifecycle c.state.history ∧
      (∀ ref req results, .completed ref req results ∈ c.state.history →
        (c.state.rounds ref).requestId = req) ∧
      ∀ req call s', ¬call.Concerns c.state req →
        Reaches (sparing (· = req)) ⟨c.state, toolsHost.call call⟩ (.idle s') →
        SameRounds req c.state s' := by
  have hany : Reaches (sparing fun _ => False) (.idle {}) c :=
    hrun.mono (fun _ _ _ _ h => h.elim) (fun _ _ _ _ _ h => h.elim) fun _ _ _ _ => trivial
  have hinv : RoundsInv c.state := (rounds_valid fun _ => False).waiting roundsInv_init hany hw
  refine ⟨hinv.lifecycle, fun ref req results h => ?_, fun req call s' hcall hvisit => ?_⟩
  · have href := hinv.fresh _ h ref rfl
    exact ((hinv.book ref href).completed req results h).2.symm
  · have hmove := (rounds_valid (· = req)).visit (e := call) hinv
      (fun req' he => by rw [he]; exact hcall) hvisit
    exact ⟨hmove.2.lookup req rfl, hmove.2.same, hmove.2.new⟩

/-- A round of an unknown tool and a known one, up to the announcement. -/
def twoCallMoves : List (Move toolsMachine) :=
  [.event (.addTool { object := 0, id := "blocker", safety := .readOnly }),
    .answer ToolsOut.returns,
    .event (.beginRound "r" [⟨"call_1", "missing", []⟩, ⟨"call_2", "blocker", []⟩]),
    .answer ToolsOut.returns, .answer ToolsOut.returns, .answer ToolsOut.returns,
    .event (.executionFinished ("r", "call_2") (.ok (.text "done"))), .answer ToolsOut.returns]

theorem tool_round_lifecycle_two_calls :
    ∃ c : Config ToolsSig, c.Waiting ∧ Lifecycle c.state.history ∧
      (∃ results, .completed 0 "r" results ∈ c.state.history ∧
        results.lookup "call_2" = some (.text "done")) ∧
      ∀ s', Reaches (sparing (· = "r")) ⟨c.state, toolsHost.call (.cleanupRequest "other")⟩
        (.idle s') → SameRounds "r" c.state s' := by
  have hplay : Playable (Surroundings.any toolsMachine) 6 twoCallMoves (.idle {}) :=
    ⟨trivial, trivial, trivial, trivial, trivial, trivial, trivial, trivial, trivial⟩
  have hw : (play toolsMachine 6 twoCallMoves (.idle {})).Waiting := Or.inr ⟨_, _, rfl⟩
  obtain ⟨hlife, -, hsame⟩ := tool_round_lifecycle (reaches_play hplay) hw
  exact ⟨_, hw, hlife, ⟨_, List.mem_cons_self, rfl⟩,
    fun s' => hsame "r" (.cleanupRequest "other") s' (show "other" ≠ "r" by decide)⟩

end LLMQore.Tools
