import LLMQore.Tools.RoundLifecycle

/-!
# LLMQore.Tools.ExecutionGate

No mutating tool runs without approval.

The question put to the gate, its answer and the execution belong to the call
that was dispatched, so they carry its tag. What the gate approved is what is
executed, and once: the continuation of the gate's future is the only code that
may execute the call, and it has captured the arguments the gate was asked with.

A declined call is settled with an error where its round is still open, unless
somebody has settled it before. That can only be an execution of an earlier call
of the same request id and tool id, which `cleanupRequest` has abandoned: the
continuation of an approval does not look whether the round it belongs to is
still there. `OwnResult` excludes it.
-/

namespace LLMQore.Tools

open Reentrant

/-! ### What holds of a history -/

/-- May `o` come after `earlier`, as far as the gate is concerned? -/
def GateFollows (earlier : List ToolObservation) : ToolObservation → Prop
  | .executed tag args =>
      (∀ args', .executed tag args' ∉ earlier) ∧ (∀ o, .yielded tag false o ∉ earlier) ∧
        ∃ d, .dispatched tag d ∈ earlier ∧ d.args = args ∧
          (d.gated = true → d.safety = some .mutating →
            .asked tag args ∈ earlier ∧ ∃ o, .yielded tag true o ∈ earlier)
  | .yielded tag false _ => ∀ args, .executed tag args ∉ earlier
  | _ => True

/-- A mutating call is executed after its approval, once, and not when declined. -/
def Approved (history : List ToolObservation) : Prop := Ordered GateFollows history

/-- A call that was declined while its round was open was settled with an error. -/
def Declined (history : List ToolObservation) : Prop :=
  ∀ tag d, .yielded tag false true ∈ history → .dispatched tag d ∈ history →
    ∃ result, result.isError = true ∧ .settled d.round d.args.toolId result ∈ history

/-- The call of that id in the round was handed to `executeToolAsync`. -/
def Started (h : List ToolObservation) (ref : RoundRef) (id : String) : Prop :=
  ∃ tag d args, .dispatched tag d ∈ h ∧ d.round = ref ∧ d.args.toolId = id ∧
    .executed tag args ∈ h

theorem Started.mono {h h' : List ToolObservation} {ref : RoundRef} {id : String}
    (hs : Started h ref id) (hsub : ∀ o ∈ h, o ∈ h') : Started h' ref id := by
  obtain ⟨tag, d, args, hd, hr, hi, he⟩ := hs
  exact ⟨tag, d, args, hsub _ hd, hr, hi, hsub _ he⟩

/-! ### The invariant -/

/-- A gate's future that is watched belongs to a call that was asked about and
neither answered nor executed. -/
structure Watched (h : List ToolObservation) (tag : CallTag) (w : GateWatcher) : Prop where
  dispatched : ∃ d, .dispatched tag d ∈ h ∧ d.args = w.args ∧ d.round = w.round
  asked : .asked tag w.args ∈ h
  unexecuted : ∀ args, .executed tag args ∉ h
  unanswered : ∀ b o, .yielded tag b o ∉ h

structure GateBase (s : ToolsManager) : Prop where
  approved : Approved s.history
  dispatched : ∀ tag d, .dispatched tag d ∈ s.history → tag < s.nextTag ∧
    d.round < s.nextRound ∧ (s.rounds d.round).requestId = d.args.requestId
  executed : ∀ tag args, .executed tag args ∈ s.history → tag < s.nextTag
  yielded : ∀ tag b o, .yielded tag b o ∈ s.history → tag < s.nextTag
  unique : ∀ tag d d', .dispatched tag d ∈ s.history → .dispatched tag d' ∈ s.history → d = d'
  watched : ∀ tag w, s.gates.lookup tag = some w → Watched s.history tag w
  started : ∀ ref id result, .settled ref id result ∈ s.history → result.isError = false →
    Started s.history ref id

structure GateInv (s : ToolsManager) : Prop where
  rounds : RoundsInv s
  base : GateBase s
  declined : Declined s.history

/-- A call some code is about to execute or to ask about. -/
structure Reserved (s : ToolsManager) (tag : CallTag) : Prop where
  known : tag < s.nextTag
  unwatched : s.gates.lookup tag = none
  unexecuted : ∀ args, .executed tag args ∉ s.history

/-- The history grows, and nobody else touches a call some code is about to execute
or to ask about. -/
structure Grows (s s' : ToolsManager) : Prop where
  history : ∀ o ∈ s.history, o ∈ s'.history
  reserved : ∀ tag, Reserved s tag → Reserved s' tag ∧
    ∀ b o, .yielded tag b o ∈ s'.history → .yielded tag b o ∈ s.history

theorem Grows.refl (s : ToolsManager) : Grows s s := ⟨fun _ h => h, fun _ h => ⟨h, fun _ _ h => h⟩⟩

theorem Grows.trans {s₁ s₂ s₃ : ToolsManager} (h₁ : Grows s₁ s₂) (h₂ : Grows s₂ s₃) :
    Grows s₁ s₃ where
  history o h := h₂.history o (h₁.history o h)
  reserved tag h := by
    obtain ⟨hr, hy⟩ := h₁.reserved tag h
    obtain ⟨hr', hy'⟩ := h₂.reserved tag hr
    exact ⟨hr', fun b o h => hy b o (hy' b o h)⟩

def gateContract : Contract ToolsSig where
  inv := GateInv
  rely s s' := Evolves nobody s s' ∧ Grows s s'
  pre
    | .driveRound _, s => GateInv s
    | .advanceLoop ref, s => GateInv s ∧ ref < s.nextRound
  post _ s _ s' := GateInv s' ∧ Evolves nobody s s' ∧ Grows s s'

theorem gateContract_preorder : gateContract.Preorder where
  refl s := ⟨.refl nobody s, .refl s⟩
  trans h₁ h₂ := ⟨h₁.1.trans h₂.1, h₁.2.trans h₂.2⟩

/-- The invariant holds of `s'`, and `s` may become `s'`. -/
abbrev GateMoves (s s' : ToolsManager) : Prop := gateContract.Moves s s'

theorem GateMoves.intro {s s' : ToolsManager} (hm : Moves nobody s s') (hb : GateBase s')
    (hd : Declined s'.history) (hg : Grows s s') : GateMoves s s' :=
  ⟨⟨hm.1, hb, hd⟩, hm.2, hg⟩

/-! ### Updates -/

/-- Observations the gate's invariant does not look at. -/
def ToolObservation.Neutral : ToolObservation → Prop
  | .called .. | .completed .. | .abandoned _ | .cleaned .. | .asked .. | .announced .. => True
  | .dispatched .. | .settled .. | .yielded .. | .executed .. => False

variable {s s' s₀ : ToolsManager}

theorem Declined.cons {h : List ToolObservation} (hd : Declined h) {o : ToolObservation}
    (hy : ∀ tag, o = .yielded tag false true → False)
    (hdis : ∀ tag d, o = .dispatched tag d → ∀ b, .yielded tag false b ∉ h) :
    Declined (o :: h) := by
  intro tag d hyield hdisp
  have hyield' : .yielded tag false true ∈ h := by
    rcases List.mem_cons.mp hyield with he | h
    · exact (hy tag he.symm).elim
    · exact h
  rcases List.mem_cons.mp hdisp with he | hdisp
  · exact absurd hyield' (hdis tag d he.symm true)
  · obtain ⟨result, herr, hs⟩ := hd tag d hyield' hdisp
    exact ⟨result, herr, List.mem_cons_of_mem _ hs⟩

/-- An update that adds no observation, or one about the rounds only. -/
theorem GateBase.neutral (hs : GateBase s) (hev : Evolves nobody s s')
    (hgates : s'.gates = s.gates) (htag : s'.nextTag = s.nextTag)
    (hist : s'.history = s.history ∨ ∃ o, o.Neutral ∧ s'.history = o :: s.history) :
    GateBase s' ∧ Grows s s' := by
  have hsub : ∀ o ∈ s.history, o ∈ s'.history := by
    rcases hist with h | ⟨o, _, h⟩
    · rw [h]; exact fun _ h => h
    · rw [h]; exact fun _ h => List.mem_cons_of_mem _ h
  have hold : ∀ o, ¬o.Neutral → o ∈ s'.history → o ∈ s.history := by
    intro o hn ho
    rcases hist with h | ⟨o', hn', h⟩
    · rw [h] at ho; exact ho
    · rw [h] at ho
      exact mem_old ho fun he => hn (he ▸ hn')
  have happroved : Approved s'.history := by
    rcases hist with h | ⟨o, hn, h⟩
    · rw [h]; exact hs.approved
    · rw [h]
      refine ordered_cons.mpr ⟨?_, hs.approved⟩
      cases o with
      | called | completed | abandoned | cleaned | asked | announced => trivial
      | dispatched | settled | yielded | executed => exact hn.elim
  refine ⟨⟨happroved, fun tag d h => ?_, fun tag args h => ?_, fun tag b o h => ?_,
    fun tag d d' h h' => ?_, fun tag w h => ?_, fun ref id result h herr => ?_⟩,
    ⟨hsub, fun tag hr => ⟨⟨?_, ?_, fun args h => ?_⟩, fun b o h => ?_⟩⟩⟩
  · obtain ⟨ht, hr, hreq⟩ := hs.dispatched tag d (hold _ id h)
    exact ⟨htag ▸ ht, Nat.lt_of_lt_of_le hr hev.nextRound, (hev.requestId _ hr).trans hreq⟩
  · rw [htag]; exact hs.executed tag args (hold _ id h)
  · rw [htag]; exact hs.yielded tag b o (hold _ id h)
  · exact hs.unique tag d d' (hold _ id h) (hold _ id h')
  · rw [hgates] at h
    obtain ⟨⟨d, hd, ha, hr⟩, hask, hex, hun⟩ := hs.watched tag w h
    exact ⟨⟨d, hsub _ hd, ha, hr⟩, hsub _ hask, fun args he => hex args (hold _ (fun h => h) he),
      fun b o he => hun b o (hold _ (fun h => h) he)⟩
  · exact (hs.started ref id result (hold _ (fun h => h) h) herr).mono hsub
  · rw [htag]; exact hr.known
  · rw [hgates]; exact hr.unwatched
  · exact hr.unexecuted args (hold _ (fun h => h) h)
  · exact hold _ (fun h => h) h

theorem GateInv.neutral (hs : GateInv s) (hm : Moves nobody s s') (hgates : s'.gates = s.gates)
    (htag : s'.nextTag = s.nextTag)
    (hist : s'.history = s.history ∨ ∃ o, o.Neutral ∧ s'.history = o :: s.history) :
    GateMoves s s' := by
  obtain ⟨hb, hg⟩ := hs.base.neutral hm.2 hgates htag hist
  refine .intro hm hb ?_ hg
  rcases hist with h | ⟨o, hn, h⟩
  · rw [h]; exact hs.declined
  · rw [h]
    exact hs.declined.cons (fun tag he => by rw [he] at hn; exact hn)
      fun tag d he => by rw [he] at hn; exact hn.elim

theorem GateMoves.trans {s₁ s₂ s₃ : ToolsManager} (h₁ : GateMoves s₁ s₂) (h₂ : GateMoves s₂ s₃) :
    GateMoves s₁ s₃ :=
  Contract.Moves.trans gateContract_preorder h₁ h₂

/-- A call is settled. -/
theorem GateBase.settleCall (hs : GateBase s) {ref : RoundRef} {id : String}
    {result : ToolResult} {settled : ToolRound}
    (hev : Evolves nobody s (s.settleCall ref id result settled))
    (hstarted : result.isError = false → Started s.history ref id) :
    GateBase (s.settleCall ref id result settled) ∧
      Grows s (s.settleCall ref id result settled) := by
  refine ⟨⟨ordered_cons.mpr ⟨trivial, hs.approved⟩, fun tag d h => ?_,
    fun tag args h => hs.executed tag args (mem_old h nofun),
    fun tag b o h => hs.yielded tag b o (mem_old h nofun),
    fun tag d d' h h' => hs.unique tag d d' (mem_old h nofun) (mem_old h' nofun),
    fun tag w h => ?_, fun ref' id' result' h herr => ?_⟩,
    ⟨fun _ => List.mem_cons_of_mem _, fun tag hr => ⟨⟨hr.known, hr.unwatched,
      fun args h => hr.unexecuted args (mem_old h nofun)⟩, fun b o h => mem_old h nofun⟩⟩⟩
  · obtain ⟨ht, hr, hreq⟩ := hs.dispatched tag d (mem_old h nofun)
    exact ⟨ht, hr, (hev.requestId _ hr).trans hreq⟩
  · obtain ⟨⟨d, hd, ha, hr⟩, hask, hex, hun⟩ := hs.watched tag w h
    exact ⟨⟨d, List.mem_cons_of_mem _ hd, ha, hr⟩, List.mem_cons_of_mem _ hask,
      fun args he => hex args (mem_old he nofun), fun b o he => hun b o (mem_old he nofun)⟩
  · have hsub : ∀ o ∈ s.history, o ∈ .settled ref id result :: s.history :=
      fun _ => List.mem_cons_of_mem _
    rcases List.mem_cons.mp h with he | h
    · cases he
      exact (hstarted herr).mono hsub
    · exact (hs.started ref' id' result' h herr).mono hsub

/-- A call is dispatched, with a tag nobody has used. -/
theorem GateInv.dispatch (hs : GateInv s) {ref : RoundRef} {d : Dispatch}
    (hm : Moves nobody s ((s.takeNext ref).markDispatched d)) (href : ref < s.nextRound)
    (hround : d.round = ref) (hreq : (s.rounds ref).requestId = d.args.requestId) :
    GateMoves s ((s.takeNext ref).markDispatched d) := by
  have hb := hs.base
  have hsub : ∀ o ∈ s.history, o ∈ .dispatched s.nextTag d :: s.history :=
    fun _ => List.mem_cons_of_mem _
  refine .intro hm ⟨ordered_cons.mpr ⟨trivial, hb.approved⟩, fun tag d' h => ?_,
    fun tag args h => Nat.lt_succ_of_lt (hb.executed tag args (mem_old h nofun)),
    fun tag b o h => Nat.lt_succ_of_lt (hb.yielded tag b o (mem_old h nofun)),
    fun tag d₁ d₂ h₁ h₂ => ?_, fun tag w h => ?_, fun ref' id result h herr => ?_⟩ ?_
    ⟨hsub, fun tag hr => ⟨⟨Nat.lt_succ_of_lt hr.known, hr.unwatched,
      fun args h => hr.unexecuted args (mem_old h nofun)⟩, fun b o h => mem_old h nofun⟩⟩
  · have hold : ∀ {d' : Dispatch}, d'.round < s.nextRound →
        (s.rounds d'.round).requestId = d'.args.requestId →
        d'.round < s.nextRound ∧ (((s.takeNext ref).markDispatched d).rounds d'.round).requestId =
          d'.args.requestId := fun h₁ h₂ => ⟨h₁, (hm.2.requestId _ h₁).trans h₂⟩
    rcases List.mem_cons.mp h with he | h
    · cases he
      exact ⟨Nat.lt_succ_self _, hold (by rw [hround]; exact href) (by rw [hround]; exact hreq)⟩
    · obtain ⟨ht, hr, hreq'⟩ := hb.dispatched tag d' h
      exact ⟨Nat.lt_succ_of_lt ht, hold hr hreq'⟩
  · have hfresh : ∀ d', .dispatched s.nextTag d' ∉ s.history := fun d' h =>
      absurd (hb.dispatched _ d' h).1 (Nat.lt_irrefl _)
    rcases List.mem_cons.mp h₁ with he₁ | h₁
    · cases he₁
      rcases List.mem_cons.mp h₂ with he₂ | h₂
      · cases he₂; rfl
      · exact absurd h₂ (hfresh _)
    · rcases List.mem_cons.mp h₂ with he₂ | h₂
      · cases he₂; exact absurd h₁ (hfresh _)
      · exact hb.unique tag d₁ d₂ h₁ h₂
  · obtain ⟨⟨d', hd, ha, hr⟩, hask, hex, hun⟩ := hb.watched tag w h
    exact ⟨⟨d', hsub _ hd, ha, hr⟩, hsub _ hask, fun args he => hex args (mem_old he nofun),
      fun b o he => hun b o (mem_old he nofun)⟩
  · exact (hb.started ref' id result (mem_old h nofun) herr).mono hsub
  · refine hs.declined.cons (fun _ he => by cases he) fun tag d' he b h => ?_
    cases he
    exact absurd (hb.yielded _ _ _ h) (Nat.lt_irrefl _)

/-- What must hold of a call that is about to be executed. -/
structure MayExecute (s : ToolsManager) (tag : CallTag) (args : CallArgs) : Prop where
  reserved : Reserved s tag
  undeclined : ∀ o, .yielded tag false o ∉ s.history
  dispatched : ∃ d, .dispatched tag d ∈ s.history ∧ d.args = args ∧
    (d.gated = true → d.safety = some .mutating →
      .asked tag args ∈ s.history ∧ ∃ o, .yielded tag true o ∈ s.history)

theorem MayExecute.stable {tag : CallTag} {args : CallArgs} (h : MayExecute s tag args)
    (hg : Grows s s') : MayExecute s' tag args := by
  obtain ⟨hr, hy⟩ := hg.reserved tag h.reserved
  obtain ⟨d, hd, ha, happ⟩ := h.dispatched
  refine ⟨hr, fun o ho => h.undeclined o (hy _ _ ho), d, hg.history _ hd, ha, fun h₁ h₂ => ?_⟩
  obtain ⟨hask, o, ho⟩ := happ h₁ h₂
  exact ⟨hg.history _ hask, o, hg.history _ ho⟩

/-- The execution of a call that may be executed goes on record. The call was not
reserved in `s₀`, so those who were interrupted then do not mind. -/
theorem GateMoves.startRecord (h₀ : GateMoves s₀ s) {tag : CallTag} {args : CallArgs}
    (hfree : ¬Reserved s₀ tag) (hmay : MayExecute s tag args) :
    GateMoves s₀ (s.startRecord tag args) := by
  have hb := h₀.1.base
  have hm : Moves nobody s (s.startRecord tag args) :=
    h₀.1.rounds.neutral rfl rfl rfl (.inr ⟨.executed tag args, rfl, trivial, rfl⟩)
  have hsub : ∀ o ∈ s.history, o ∈ .executed tag args :: s.history :=
    fun _ => List.mem_cons_of_mem _
  refine ⟨⟨hm.1, ⟨ordered_cons.mpr ⟨⟨hmay.reserved.unexecuted, hmay.undeclined, hmay.dispatched⟩,
    hb.approved⟩, fun tag' d h => hb.dispatched tag' d (mem_old h nofun), fun tag' args' h => ?_,
    fun tag' b o h => hb.yielded tag' b o (mem_old h nofun),
    fun tag' d d' h h' => hb.unique tag' d d' (mem_old h nofun) (mem_old h' nofun),
    fun tag' w h => ?_, fun ref id result h herr => ?_⟩, ?_⟩, h₀.2.1.trans hm.2, ?_⟩
  · rcases List.mem_cons.mp h with he | h
    · cases he; exact hmay.reserved.known
    · exact hb.executed tag' args' h
  · have hne : tag' ≠ tag := by
      rintro rfl
      have hnone : s.gates.lookup tag' = none := hmay.reserved.unwatched
      rw [show s.gates.lookup tag' = some w from h] at hnone
      cases hnone
    obtain ⟨⟨d, hd, ha, hr⟩, hask, hex, hun⟩ := hb.watched tag' w h
    refine ⟨⟨d, hsub _ hd, ha, hr⟩, hsub _ hask, fun args' he => hex args' (mem_old he ?_),
      fun b o he => hun b o (mem_old he nofun)⟩
    intro heq
    cases heq
    exact hne rfl
  · exact (hb.started ref id result (mem_old h nofun) herr).mono hsub
  · exact h₀.1.declined.cons (fun _ he => by cases he) fun _ _ he => by cases he
  · refine ⟨fun o h => hsub o (h₀.2.2.history o h), fun tag' hr => ?_⟩
    obtain ⟨hr', hy⟩ := h₀.2.2.reserved tag' hr
    refine ⟨⟨hr'.known, hr'.unwatched, fun args' h => hr'.unexecuted args' (mem_old h ?_)⟩,
      fun b o h => hy b o (mem_old h nofun)⟩
    intro heq
    cases heq
    exact hfree hr

/-- The future of the gate that was asked is watched. -/
theorem GateMoves.watchGate (h₀ : GateMoves s₀ s) {tag : CallTag} {w : GateWatcher}
    (hfree : ¬Reserved s₀ tag) (hw : Watched s.history tag w) :
    GateMoves s₀ (s.watchGate tag w) := by
  have hb := h₀.1.base
  have hm : Moves nobody s (s.watchGate tag w) :=
    h₀.1.rounds.neutral rfl rfl rfl (.inl rfl)
  refine ⟨⟨hm.1, ⟨hb.approved, hb.dispatched, hb.executed, hb.yielded, hb.unique,
    fun tag' w' h => ?_, hb.started⟩, h₀.1.declined⟩, h₀.2.1.trans hm.2, h₀.2.2.history,
    fun tag' hr => ?_⟩
  · by_cases he : tag' = tag
    · subst he
      obtain rfl := Option.some.inj ((AList.lookup_insert s.gates).symm.trans h)
      exact hw
    · exact hb.watched tag' w' ((AList.lookup_insert_ne he).symm.trans h)
  · obtain ⟨hr', hy⟩ := h₀.2.2.reserved tag' hr
    have hne : tag' ≠ tag := fun he => hfree (he ▸ hr)
    exact ⟨⟨hr'.known, (AList.lookup_insert_ne hne).trans hr'.unwatched, hr'.unexecuted⟩, hy⟩

/-- The future of a gate ends. -/
theorem GateInv.unwatch (hs : GateInv s) (tag : CallTag) :
    GateMoves s { s with gates := s.gates.erase tag } := by
  have hm : Moves nobody s { s with gates := s.gates.erase tag } :=
    hs.rounds.neutral rfl rfl rfl (.inl rfl)
  have hb := hs.base
  have hlookup : ∀ {tag' w}, (s.gates.erase tag).lookup tag' = some w →
      s.gates.lookup tag' = some w := by
    intro tag' w h
    by_cases he : tag' = tag
    · subst he
      rw [AList.lookup_erase] at h
      cases h
    · rwa [AList.lookup_erase_ne he] at h
  refine .intro hm ⟨hb.approved, hb.dispatched, hb.executed, hb.yielded, hb.unique,
    fun tag' w h => hb.watched tag' w (hlookup h), hb.started⟩ hs.declined
    ⟨fun _ h => h, fun tag' hr => ⟨⟨hr.known, ?_, hr.unexecuted⟩, fun _ _ h => h⟩⟩
  refine Option.eq_none_iff_forall_ne_some.mpr fun w h => ?_
  have hnone := hr.unwatched
  rw [hlookup h] at hnone
  cases hnone

/-- The state in which the continuation of a gate's future goes on. -/
def ToolsManager.answered (s : ToolsManager) (tag : CallTag) (w : GateWatcher)
    (allowed : Bool) : ToolsManager :=
  { s with gates := s.gates.erase tag }.yieldGate tag w allowed

theorem not_reserved_of_watched {tag : CallTag} {w : GateWatcher}
    (hw : s.gates.lookup tag = some w) : ¬Reserved s tag := fun hr => by
  have hnone := hr.unwatched
  rw [hw] at hnone
  cases hnone

/-- The answer of a gate: all of the invariant but the settling of what is declined. -/
theorem GateInv.answer (hs : GateInv s) {tag : CallTag} {w : GateWatcher}
    (hw : s.gates.lookup tag = some w) (allowed : Bool) :
    Moves nobody s (s.answered tag w allowed) ∧ GateBase (s.answered tag w allowed) ∧
      Grows s (s.answered tag w allowed) := by
  have hm : Moves nobody s (s.answered tag w allowed) :=
    hs.rounds.neutral rfl rfl rfl (.inr ⟨.yielded tag allowed _, rfl, trivial, rfl⟩)
  obtain ⟨⟨-, hb, -⟩, -, hg⟩ := hs.unwatch tag
  have hwatched := hs.base.watched tag w hw
  have hsub : ∀ o ∈ s.history, o ∈ (s.answered tag w allowed).history :=
    fun _ => List.mem_cons_of_mem _
  have hfollows : GateFollows s.history
      (.yielded tag allowed !(s.rounds w.round).closed) := by
    cases allowed with
    | true => trivial
    | false => exact hwatched.unexecuted
  obtain ⟨d, hd, hargs, -⟩ := hwatched.dispatched
  refine ⟨hm, ⟨ordered_cons.mpr ⟨hfollows, hb.approved⟩,
    fun tag' d h => hb.dispatched tag' d (mem_old h nofun),
    fun tag' args h => hb.executed tag' args (mem_old h nofun), fun tag' b o h => ?_,
    fun tag' d d' h h' => hb.unique tag' d d' (mem_old h nofun) (mem_old h' nofun),
    fun tag' w' h => ?_, fun ref id result h herr =>
      (hb.started ref id result (mem_old h nofun) herr).mono hsub⟩,
    hsub, fun tag' hr => ?_⟩
  · rcases List.mem_cons.mp h with he | h
    · cases he
      exact (hb.dispatched tag d hd).1
    · exact hb.yielded tag' b o h
  · have hne : tag' ≠ tag := by
      rintro rfl
      have hnone : (s.gates.erase tag').lookup tag' = none := AList.lookup_erase ..
      rw [show (s.gates.erase tag').lookup tag' = some w' from h] at hnone
      cases hnone
    obtain ⟨⟨d', hd', ha, hr⟩, hask, hex, hun⟩ := hb.watched tag' w' h
    refine ⟨⟨d', hsub _ hd', ha, hr⟩, hsub _ hask, fun args he => hex args (mem_old he nofun),
      fun b o he => hun b o (mem_old he ?_)⟩
    intro heq
    cases heq
    exact hne rfl
  · have hne : tag' ≠ tag := fun he => not_reserved_of_watched hw (he ▸ hr)
    obtain ⟨hr', -⟩ := hg.reserved tag' hr
    refine ⟨⟨hr'.known, hr'.unwatched, fun args h => hr'.unexecuted args (mem_old h nofun)⟩,
      fun b o h => mem_old h ?_⟩
    intro heq
    cases heq
    exact hne rfl

theorem GateInv.approve (hs : GateInv s) {tag : CallTag} {w : GateWatcher}
    (hw : s.gates.lookup tag = some w) : GateMoves s (s.answered tag w true) ∧
      MayExecute (s.answered tag w true) tag w.args := by
  obtain ⟨hm, hb, hg⟩ := hs.answer hw true
  have hwatched := hs.base.watched tag w hw
  obtain ⟨d, hd, hargs, -⟩ := hwatched.dispatched
  refine ⟨.intro hm hb (hs.declined.cons (fun _ he => by cases he) fun _ _ he => by cases he) hg,
    ⟨(hs.base.dispatched tag d hd).1, AList.lookup_erase .., fun args h =>
      hwatched.unexecuted args (mem_old h nofun)⟩, fun o h => ?_, d,
    List.mem_cons_of_mem _ hd, hargs, fun _ _ => ⟨List.mem_cons_of_mem _ hwatched.asked, _,
      List.mem_cons_self⟩⟩
  exact hwatched.unanswered false o (mem_old h nofun)

/-! ### The code -/

/-- From state `s` the code `p` keeps the gate's invariant. -/
abbrev KeepsGate {α : Type} (p : Proc ToolsSig α) (s : ToolsManager) : Prop :=
  gateContract.KeepsAt (fun _ _ _ => True) p s

/-- The code `p` ends in a state `s₀` may become. -/
abbrev WpGate {α : Type} (s₀ : ToolsManager) (p : Proc ToolsSig α) (s : ToolsManager) : Prop :=
  wp (fun _ _ _ => True) gateContract p (fun _ s' => GateMoves s₀ s') s

variable {α β : Type} {ref : RoundRef}

theorem WpGate.ret (h : GateMoves s₀ s) (a : α) : WpGate s₀ (pure a) s := h

theorem KeepsGate.after {p : Proc ToolsSig α} (h : GateMoves s₀ s) (hp : KeepsGate p s) :
    WpGate s₀ p s :=
  Contract.KeepsAt.after gateContract_preorder h hp

theorem WpGate.run_bind {p : Throws ToolsSig α} {g : α → Throws ToolsSig β}
    (hp : WpGate s₀ p.run s) (hg : ∀ a s', GateMoves s₀ s' → WpGate s₀ (g a).run s') :
    WpGate s₀ (p >>= g).run s := by
  refine (wp_run_bind p g _ s).mpr (wp_mono hp fun r s' h => ?_)
  cases r with
  | ok a => exact hg a s' h
  | error e => exact h

theorem WpGate.lift {p : Proc ToolsSig α} (hp : WpGate s₀ p s) :
    WpGate s₀ (liftM p : Throws ToolsSig α).run s :=
  (wp_run_lift p _ s).mpr hp

/-- Code that reads the manager first. -/
theorem WpGate.read {g : ToolsManager → Proc ToolsSig α} (h : WpGate s₀ (g s) s) :
    WpGate s₀ (Proc.read (S := ToolsSig) >>= g) s := h

theorem WpGate.run_read {g : ToolsManager → Throws ToolsSig α} (h : WpGate s₀ (g s).run s) :
    WpGate s₀ (liftM (Proc.read (S := ToolsSig)) >>= g : Throws ToolsSig α).run s := h

theorem WpGate.run_modify {f : ToolsManager → ToolsManager} {g : Unit → Throws ToolsSig α}
    (h : WpGate s₀ (g ()).run (f s)) :
    WpGate s₀ (liftM (Proc.modify (S := ToolsSig) f) >>= g : Throws ToolsSig α).run s := h

theorem WpGate.query (h : GateMoves s₀ s) (e : ToolsOut) :
    WpGate s₀ (Proc.query (S := ToolsSig) e) s :=
  KeepsGate.after h (Contract.KeepsAt.query (C := gateContract) h.1 e)

theorem WpGate.driveRound (h : GateMoves s₀ s) (req : String) :
    WpGate s₀ (toolsHost.driveRound req) s :=
  ⟨h.1, fun _ _ h' => h.trans h'⟩

/-- `finalizePendingTool`, started where all of the invariant holds but perhaps the
settling of what was just declined. -/
theorem wpGate_finalizePendingTool (hr : Moves nobody s₀ s) (hb : GateBase s) (hg : Grows s₀ s)
    (req id : String) {rich : ToolResult} {success : Bool}
    (hno : (∀ ref, s.toolRounds.lookup req = some ref →
      (s.rounds ref).settle id rich success = none) → Declined s.history)
    (hyes : ∀ ref settled, s.toolRounds.lookup req = some ref →
      (s.rounds ref).settle id rich success = some settled →
      Declined (.settled ref id rich :: s.history) ∧
        (rich.isError = false → Started s.history ref id)) :
    WpGate s₀ (toolsHost.finalizePendingTool req id rich success).run s := by
  refine WpGate.run_read ?_
  cases hl : s.toolRounds.lookup req with
  | none =>
      exact ⟨⟨hr.1, hb, hno fun ref h => by rw [hl] at h; cases h⟩, hr.2, hg⟩
  | some ref =>
      dsimp only
      cases hsettle : (s.rounds ref).settle id rich success with
      | none =>
          refine ⟨⟨hr.1, hb, hno fun ref' h => ?_⟩, hr.2, hg⟩
          obtain rfl := Option.some.inj (hl.symm.trans h)
          exact hsettle
      | some settled =>
          obtain ⟨hd, hstarted⟩ := hyes ref settled hl hsettle
          have hmove := hr.1.settleCall (P := nobody) (hr.1.owned req ref hl).1 (fun h => h) hsettle
          obtain ⟨hb', hg'⟩ := hb.settleCall hmove.2 hstarted
          have h₁ : GateMoves s₀ (s.settleCall ref id rich settled) :=
            ⟨⟨hmove.1, hb', hd⟩, hr.2.trans hmove.2, hg.trans hg'⟩
          refine WpGate.run_modify ?_
          cases settled.find id with
          | none => exact h₁
          | some pending =>
              exact .run_bind (.lift (.query h₁ _)) fun _ s₂ h₂ => .driveRound h₂ _

/-- `finalizePendingTool` with an error, or with the result of a call that was
started. -/
theorem keepsGate_finalizePendingTool (h : GateMoves s₀ s) (req id : String)
    {rich : ToolResult} {success : Bool}
    (hstarted : rich.isError = false → ∀ ref settled, s.toolRounds.lookup req = some ref →
      (s.rounds ref).settle id rich success = some settled → Started s.history ref id) :
    WpGate s₀ (toolsHost.finalizePendingTool req id rich success).run s :=
  wpGate_finalizePendingTool ⟨h.1.rounds, h.2.1⟩ h.1.base h.2.2 req id (fun _ => h.1.declined)
    fun ref settled hl hs => ⟨h.1.declined.cons (fun _ he => nomatch he)
      (fun _ _ he => nomatch he), fun herr => hstarted herr ref settled hl hs⟩

theorem wpGate_finalizeError (h : GateMoves s₀ s) (req id message : String) (success : Bool) :
    WpGate s₀ (toolsHost.finalizePendingTool req id (.error message) success).run s :=
  keepsGate_finalizePendingTool h req id fun he => by cases he

theorem wpGate_startExecution (h : GateMoves s₀ s) {tag : CallTag} {args : CallArgs}
    (hfree : ¬Reserved s₀ tag) (hmay : MayExecute s tag args) :
    WpGate s₀ (toolsHost.startExecution tag args).run s := by
  refine WpGate.run_read ?_
  cases s.tools.lookup args.toolName with
  | none => exact wpGate_finalizeError h _ _ _ _
  | some tool =>
      have hnote : GateMoves s (s.observe (.announced tag args)) :=
        h.1.neutral (h.1.rounds.neutral rfl rfl rfl (.inr ⟨.announced tag args, rfl, trivial, rfl⟩))
          rfl rfl (.inr ⟨.announced tag args, trivial, rfl⟩)
      show WpGate s₀ ((liftM (toolsHost.emit (.toolExecutionStarted args)) : Throws ToolsSig Unit)
        >>= fun _ => toolsHost.executeToolAsync tag args tool).run (s.observe (.announced tag args))
      -- nobody else executes the call while its start is announced
      refine (wp_run_bind (liftM (toolsHost.emit (.toolExecutionStarted args)) :
        Throws ToolsSig Unit) _ _ (s.observe (.announced tag args))).mpr
          ⟨hnote.1, fun s₁ hr hi _ _ => ?_⟩
      have h₁ : GateMoves s₀ s₁ := h.trans (hnote.trans ⟨hi, hr⟩)
      have h₂ := h₁.startRecord hfree ((hmay.stable hnote.2.2).stable hr.2)
      exact WpGate.query h₂ _

theorem wpGate_askGate (h : GateMoves s₀ s) {tag : CallTag} {args : CallArgs} {d : Dispatch}
    (hfree : ¬Reserved s₀ tag) (hres : Reserved s tag)
    (hun : ∀ b o, .yielded tag b o ∉ s.history) (hd : .dispatched tag d ∈ s.history)
    (hargs : d.args = args) (hround : d.round = ref) :
    WpGate s₀ (toolsHost.askGate tag ref args).run s := by
  have hnote : GateMoves s (s.observe (.asked tag args)) :=
    h.1.neutral (h.1.rounds.neutral rfl rfl rfl (.inr ⟨.asked tag args, rfl, trivial, rfl⟩))
      rfl rfl (.inr ⟨.asked tag args, trivial, rfl⟩)
  show WpGate s₀ ((ExceptT.mk (toolsHost.gate args) : Throws ToolsSig Unit) >>= fun _ =>
    liftM (toolsHost.modify fun s => s.watchGate tag ⟨args, ref⟩)).run (s.observe (.asked tag args))
  refine (wp_run_bind (ExceptT.mk (toolsHost.gate args) : Throws ToolsSig Unit) _ _
    (s.observe (.asked tag args))).mpr ⟨hnote.1, fun s₂ hr hi r _ => ?_⟩
  have h₂ : GateMoves s₀ s₂ := h.trans (hnote.trans ⟨hi, hr⟩)
  cases r with
  | error e => exact h₂
  | ok _ =>
      obtain ⟨hr₁, hy₁⟩ := hnote.2.2.reserved tag hres
      obtain ⟨hr₂, hy₂⟩ := hr.2.reserved tag hr₁
      exact h₂.watchGate hfree ⟨⟨d, hr.2.history _ (hnote.2.2.history _ hd), hargs, hround⟩,
        hr.2.history _ List.mem_cons_self, hr₂.unexecuted,
        fun b o ho => hun b o (hy₁ b o (hy₂ b o ho))⟩

/-- Dispatching the call that was just taken. -/
theorem wpGate_dispatchCall (hs : GateInv s) (href : ref < s.nextRound) {call : PendingTool}
    (hcall : (s.rounds ref).pending[(s.rounds ref).next]? = some call) {args : CallArgs}
    (hid : args.toolId = call.id) (hreq : (s.rounds ref).requestId = args.requestId) :
    WpGate s (toolsHost.dispatchCall ref args).run (s.takeNext ref) := by
  have hmove : ∀ safety, GateMoves s
      ((s.takeNext ref).markDispatched ⟨ref, args, safety, s.executionGate⟩) :=
    fun safety => hs.dispatch (hs.rounds.dispatchNext href (fun h => h) hcall _ rfl hid) href rfl
      hreq
  refine WpGate.run_read ?_
  cases (s.takeNext ref).tools.lookup args.toolName with
  | none =>
      show WpGate s ((toolsHost.finalizePendingTool args.requestId args.toolId _ false >>=
        fun _ => pure false : Throws ToolsSig Bool)).run
        ((s.takeNext ref).markDispatched ⟨ref, args, none, s.executionGate⟩)
      exact .run_bind (wpGate_finalizeError (hmove none) _ _ _ _) fun _ _ h => .ret h _
  | some tool =>
      let d : Dispatch := ⟨ref, args, some tool.safety, s.executionGate⟩
      have h₁ : GateMoves s ((s.takeNext ref).markDispatched d) := hmove (some tool.safety)
      -- the new tag is nobody's yet
      have hfree : ¬Reserved s s.nextTag := fun hr => absurd hr.known (Nat.lt_irrefl _)
      have hres : Reserved ((s.takeNext ref).markDispatched d) s.nextTag := by
        refine ⟨Nat.lt_succ_self _, Option.eq_none_iff_forall_ne_some.mpr fun w hw => ?_,
          fun args' h => absurd (hs.base.executed _ _ (mem_old h (by simp))) (Nat.lt_irrefl _)⟩
        obtain ⟨d', hd', -⟩ := (hs.base.watched s.nextTag w hw).dispatched
        exact absurd (hs.base.dispatched _ d' hd').1 (Nat.lt_irrefl _)
      have hun : ∀ b o, .yielded s.nextTag b o ∉ ((s.takeNext ref).markDispatched d).history :=
        fun b o h => absurd (hs.base.yielded _ b o (mem_old h (by simp))) (Nat.lt_irrefl _)
      show WpGate s (if s.executionGate && tool.safety == .mutating then _ else _ :
        Throws ToolsSig Bool).run ((s.takeNext ref).markDispatched d)
      by_cases hgate : (s.executionGate && tool.safety == .mutating) = true
      · rw [if_pos hgate]
        exact .run_bind (wpGate_askGate h₁ hfree hres hun List.mem_cons_self rfl rfl)
          fun _ _ h => .ret h _
      · rw [if_neg hgate]
        refine .run_bind (wpGate_startExecution h₁ hfree ⟨hres, hun false, d, List.mem_cons_self,
          rfl, fun hg hsafe => absurd ?_ hgate⟩) fun _ _ h => .ret h _
        rw [show s.executionGate = true from hg, Option.some.inj hsafe]
        rfl

theorem wpGate_dispatch (hs : GateInv s) (href : ref < s.nextRound)
    (hnext : (s.rounds ref).next < (s.rounds ref).pending.length) :
    WpGate s (toolsHost.dispatch ref (s.rounds ref).next).run (s.takeNext ref) := by
  obtain ⟨call, hcall⟩ : ∃ call, (s.rounds ref).pending[(s.rounds ref).next]? = some call :=
    ⟨_, List.getElem?_eq_getElem hnext⟩
  have hself : (s.takeNext ref).rounds ref =
      { s.rounds ref with next := (s.rounds ref).next + 1 } := Function.update_self ..
  have hcall' : ((s.takeNext ref).rounds ref).pending[(s.rounds ref).next]? = some call := by
    rw [hself]
    exact hcall
  refine WpGate.run_read ?_
  rw [hcall']
  refine wpGate_dispatchCall hs href hcall rfl ?_
  show (s.rounds ref).requestId = ((s.takeNext ref).rounds ref).requestId
  rw [hself]

/-- The body of the loop of `advance`. -/
theorem wpGate_advanceBody (hs : GateInv s) (href : ref < s.nextRound) :
    WpGate s (toolsHost.advanceBody ref).run s := by
  have hrefl : GateMoves s s := ⟨hs, gateContract_preorder.refl s⟩
  show WpGate s (if (s.rounds ref).next < (s.rounds ref).pending.length then _ else _ :
    Throws ToolsSig Unit).run s
  by_cases hnext : (s.rounds ref).next < (s.rounds ref).pending.length
  · rw [if_pos hnext]
    refine (wp_run_bind (toolsHost.dispatch ref (s.rounds ref).next) _ _ (s.takeNext ref)).mpr ?_
    refine wp_mono (wpGate_dispatch hs href hnext) fun r s₁ h₁ => ?_
    cases r with
    | error e => exact h₁
    | ok dispatched =>
        cases dispatched with
        | true => exact h₁
        | false =>
            exact ⟨⟨h₁.1, Nat.lt_of_lt_of_le href h₁.2.1.nextRound⟩, fun _ _ h => h₁.trans h⟩
  · rw [if_neg hnext]
    exact hrefl

/-- Updates of the rounds that leave the tags alone. -/
theorem GateMoves.rounds (h : GateMoves s₀ s) (hm : Moves nobody s s')
    (hgates : s'.gates = s.gates) (htag : s'.nextTag = s.nextTag)
    (hist : s'.history = s.history ∨ ∃ o, o.Neutral ∧ s'.history = o :: s.history) :
    GateMoves s₀ s' :=
  h.trans (h.1.neutral hm hgates htag hist)

theorem wpGate_advance (h : GateMoves s₀ s) (href : ref < s.nextRound) :
    WpGate s₀ (toolsHost.advance ref).run s := by
  have h₁ : GateMoves s₀ (s.setAdvancing ref true) :=
    h.rounds (h.1.rounds.setAdvancing href (fun h => h) true) rfl rfl (.inl rfl)
  show WpGate s₀ ((ExceptT.mk (toolsHost.advanceLoop ref) : Throws ToolsSig Unit) >>= fun _ =>
    liftM (toolsHost.modify fun s => s.setAdvancing ref false)).run (s.setAdvancing ref true)
  refine (wp_run_bind (ExceptT.mk (toolsHost.advanceLoop ref) : Throws ToolsSig Unit) _ _
    (s.setAdvancing ref true)).mpr ⟨⟨h₁.1, href⟩, fun r s₂ h₂ => ?_⟩
  have h₃ : GateMoves s₀ s₂ := h₁.trans h₂
  cases r with
  | error e => exact h₃
  | ok _ =>
      have href₂ : ref < s₂.nextRound := Nat.lt_of_lt_of_le href h₂.2.1.nextRound
      exact h₃.rounds (h₃.1.rounds.setAdvancing href₂ (fun h => h) false) rfl rfl (.inl rfl)

theorem wpGate_announce (h : GateMoves s₀ s) (href : ref < s.nextRound) {req : String}
    (hreq : (s.rounds ref).requestId = req) : WpGate s₀ (toolsHost.announce req ref) s := by
  show WpGate s₀ (if (s.rounds ref).closed || !(s.rounds ref).isSettled then _ else _ :
    Proc ToolsSig Unit) s
  by_cases hdone : ((s.rounds ref).closed || !(s.rounds ref).isSettled) = true
  · rw [if_pos hdone]
    exact h
  · rw [if_neg hdone]
    simp only [Bool.or_eq_true, Bool.not_eq_true', not_or, Bool.not_eq_true,
      Bool.not_eq_false] at hdone
    subst hreq
    exact WpGate.query (h.rounds (h.1.rounds.closeRound href (fun h => h) hdone.1 hdone.2) rfl rfl
      (.inr ⟨.completed ref _ _, trivial, rfl⟩)) _

theorem wpGate_driveBody (hs : GateInv s) (req : String) :
    WpGate s (toolsHost.driveBody req).run s := by
  have hrefl : GateMoves s s := ⟨hs, gateContract_preorder.refl s⟩
  refine WpGate.run_read ?_
  cases hl : s.toolRounds.lookup req with
  | none => exact hrefl
  | some ref =>
      obtain ⟨href, hreq⟩ := hs.rounds.owned req ref hl
      show WpGate s (if (s.rounds ref).closed || (s.rounds ref).advancing then _ else _ :
        Throws ToolsSig Unit).run s
      by_cases hidle : ((s.rounds ref).closed || (s.rounds ref).advancing) = true
      · rw [if_pos hidle]
        exact hrefl
      · rw [if_neg hidle]
        refine .run_bind (wpGate_advance hrefl href) fun _ s₁ h₁ => ?_
        refine .lift (wpGate_announce h₁ (Nat.lt_of_lt_of_le href h₁.2.1.nextRound) ?_)
        rw [h₁.2.1.requestId ref href]
        exact hreq

/-- Adding calls to an open round. -/
theorem GateMoves.addCalls (h : GateMoves s₀ s) (href : ref < s.nextRound)
    (hopen : (s.rounds ref).closed = false) (calls : List ToolRound.Call) :
    GateMoves s₀ (s.addCalls ref calls) := by
  induction calls generalizing s with
  | nil => exact h
  | cons call calls ih =>
      have hm := h.1.rounds.addCall (P := nobody) href (fun h => h) hopen call
      have h₁ : GateMoves s₀ (s.addCall ref call) := by
        refine h.rounds hm ?_ ?_ ?_ <;> unfold ToolsManager.addCall <;> split
        · rfl
        · rfl
        · rfl
        · rfl
        · exact .inl rfl
        · exact .inr ⟨.called ref call.id, trivial, rfl⟩
      exact ih h₁ (Nat.lt_of_lt_of_le href hm.2.nextRound) (closed_addCall hopen call)

theorem GateInv.extendRound (hs : GateInv s) (req : String) (calls : List ToolRound.Call) :
    GateMoves s (s.extendRound req calls) := by
  obtain ⟨h₁, href, -, hopen⟩ := hs.rounds.currentRound (show ¬nobody req from fun h => h)
  have hmoves : GateMoves s (s.currentRound req).2 := by
    refine hs.neutral h₁ ?_ ?_ (.inl ?_) <;> unfold ToolsManager.currentRound <;> split
    · rfl
    · split <;> rfl
    · rfl
    · split <;> rfl
    · rfl
    · split <;> rfl
  exact hmoves.addCalls href hopen calls

theorem wpGate_beginRound (hs : GateInv s) (req : String) (calls : List ToolRound.Call) :
    WpGate s (toolsHost.beginRound req calls).run s := by
  unfold ToolsHost.beginRound
  by_cases hc : calls.isEmpty = true
  · rw [if_pos hc]
    exact ⟨hs, gateContract_preorder.refl s⟩
  · rw [if_neg hc]
    exact WpGate.driveRound (hs.extendRound req calls) req

/-- Two dispatches of the same call are one. -/
theorem dispatched_unique {h : List ToolObservation} (hl : Lifecycle h) {tag tag' : CallTag}
    {d d' : Dispatch} (hd : .dispatched tag d ∈ h) (hd' : .dispatched tag' d' ∈ h)
    (hround : d.round = d'.round) (hid : d.args.toolId = d'.args.toolId) : tag = tag' := by
  induction h with
  | nil => exact absurd hd List.not_mem_nil
  | cons o h ih =>
      obtain ⟨hf, hl⟩ := ordered_cons.mp hl
      rcases List.mem_cons.mp hd with he | hold
      · subst he
        rcases List.mem_cons.mp hd' with he' | hd'
        · cases he'; rfl
        · exact absurd hid.symm (hf.2 tag' d' hd' hround.symm)
      · rcases List.mem_cons.mp hd' with he' | hd'
        · subst he'
          exact absurd hid (hf.2 tag d hold hround)
        · exact ih hl hold hd'

/-- When a call is declined while its round is open, and the call is not settled now,
it was settled with an error before: a result would be that of its own execution. -/
theorem GateInv.declined_before (hs : GateInv s) {tag : CallTag} {w : GateWatcher}
    (hw : s.gates.lookup tag = some w) {d : Dispatch} (hd : .dispatched tag d ∈ s.history)
    (hopen : (s.rounds d.round).closed = false) {rich : ToolResult} {success : Bool}
    (hno : (s.rounds d.round).settle d.args.toolId rich success = none) :
    ∃ result, result.isError = true ∧ .settled d.round d.args.toolId result ∈ s.history := by
  obtain ⟨-, href, -⟩ := hs.base.dispatched tag d hd
  have hbook := hs.rounds.book d.round href
  have ha := hs.rounds.not_abandoned href hopen
  obtain ⟨p, hp, hpid⟩ := ToolRound.mem_ids.mp
    ((List.take_subset ..) (hbook.dispatched ha tag d hd rfl))
  have hcomplete : p.complete = true := by
    by_contra hc
    obtain ⟨r', hr'⟩ := ToolRound.settle_isSome rich success hp hpid
      (by simpa using hc)
    rw [hno] at hr'
    cases hr'
  have hsettled := (hbook.settled ha d.args.toolId p.result).mpr ⟨p, hp, hpid, hcomplete, rfl⟩
  refine ⟨p.result, ?_, hsettled⟩
  by_contra herr
  obtain ⟨tag', d', args, hd', hround, hid, hexec⟩ :=
    hs.base.started _ _ _ hsettled (by simpa using herr)
  have htag := dispatched_unique hs.rounds.lifecycle hd' hd hround hid
  exact (hs.base.watched tag w hw).unexecuted args (htag ▸ hexec)

theorem wpGate_decline (hs : GateInv s) {tag : CallTag} {w : GateWatcher}
    (hw : s.gates.lookup tag = some w) (message : String) :
    WpGate s (toolsHost.finalizePendingTool w.args.requestId w.args.toolId (.error message)
      false).run (s.answered tag w false) := by
  obtain ⟨hm, hb, hg⟩ := hs.answer hw false
  obtain ⟨d, hd, hargs, hround⟩ := (hs.base.watched tag w hw).dispatched
  obtain ⟨-, href, hreq⟩ := hs.base.dispatched tag d hd
  -- the round of the declined call, where it is open, is the one that is looked up
  have hcurrent : (s.rounds d.round).closed = false →
      s.toolRounds.lookup w.args.requestId = some d.round := by
    intro hopen
    rw [← hargs, ← hreq]
    exact hs.rounds.current d.round href hopen
  -- what was declined before was settled before
  have hcases : ∀ tag' d', .yielded tag' false true ∈ (s.answered tag w false).history →
      .dispatched tag' d' ∈ (s.answered tag w false).history →
      (.yielded tag' false true ∈ s.history ∧ .dispatched tag' d' ∈ s.history) ∨
        (d' = d ∧ (s.rounds d.round).closed = false) := by
    intro tag' d' hy hd'
    have hold : .dispatched tag' d' ∈ s.history := mem_old hd' nofun
    rcases List.mem_cons.mp hy with he | hy
    · injection he with htag _ hclosed
      subst htag
      refine .inr ⟨hs.base.unique tag' d' d hold hd, ?_⟩
      rw [hround]
      simpa using hclosed
    · exact .inl ⟨hy, hold⟩
  have hsub : ∀ o ∈ s.history, o ∈ (s.answered tag w false).history := hg.history
  refine wpGate_finalizePendingTool hm hb hg _ _ (fun hno tag' d' hy hd' => ?_)
    fun ref settled hl hsettle => ⟨fun tag' d' hy hd' => ?_, fun he => by cases he⟩
  · rcases hcases tag' d' hy hd' with ⟨hy, hd'⟩ | ⟨rfl, hopen⟩
    · obtain ⟨result, herr, hset⟩ := hs.declined tag' d' hy hd'
      exact ⟨result, herr, hsub _ hset⟩
    · have hnone := hno d'.round (hcurrent hopen)
      rw [← hargs] at hnone
      obtain ⟨result, herr, hset⟩ := hs.declined_before hw hd hopen hnone
      exact ⟨result, herr, hsub _ hset⟩
  · rcases hcases tag' d' (mem_old hy nofun) (mem_old hd' nofun) with ⟨hy, hd'⟩ | ⟨rfl, hopen⟩
    · obtain ⟨result, herr, hset⟩ := hs.declined tag' d' hy hd'
      exact ⟨result, herr, List.mem_cons_of_mem _ (hsub _ hset)⟩
    · obtain rfl := Option.some.inj ((hcurrent hopen).symm.trans hl)
      exact ⟨_, rfl, by rw [hargs]; exact List.mem_cons_self⟩

theorem WpGate.discard {p : Throws ToolsSig Unit} (h : WpGate s₀ p.run s) :
    WpGate s₀ (Functor.discard p.run) s :=
  (wp_bind p.run _ _ s).mpr (wp_mono h fun _ _ h' => h')

theorem wpGate_gateFinished (hs : GateInv s) (tag : CallTag) (outcome : Except Unit Bool) :
    WpGate s (toolsHost.gateFinished tag outcome) s := by
  refine WpGate.read ?_
  cases hw : s.gates.lookup tag with
  | none => exact ⟨hs, gateContract_preorder.refl s⟩
  | some w =>
      cases outcome with
      | error _ => exact hs.unwatch tag
      | ok allowed =>
          cases allowed with
          | false => exact WpGate.discard (wpGate_decline hs hw _)
          | true =>
              obtain ⟨h₁, hmay⟩ := hs.approve hw
              exact WpGate.discard
                (wpGate_startExecution h₁ (not_reserved_of_watched hw) hmay)

/-! ### The condition on a run -/

/-- A tool that ends with a result, not an error, has the result filed under a call
that was itself executed, if it is filed at all. -/
def OwnResult (s : ToolsManager) : ToolsCall → Prop
  | .executionFinished key (.ok result) =>
      result.isError = false → key ∈ s.activeExecutions →
        ∀ ref, s.toolRounds.lookup key.1 = some ref →
          (∃ p ∈ (s.rounds ref).pending, p.id = key.2 ∧ p.complete = false) →
          Started s.history ref key.2
  | _ => True

theorem wpGate_onToolExecutionFinished (hs : GateInv s) {key : ExecutionKey}
    {outcome : Except ToolExn ToolResult} (hown : OwnResult s (.executionFinished key outcome)) :
    WpGate s (toolsHost.onToolExecutionFinished key outcome) s := by
  have hrefl : GateMoves s s := ⟨hs, gateContract_preorder.refl s⟩
  show WpGate s (if key ∈ s.activeExecutions then _ else _ : Proc ToolsSig Unit) s
  by_cases hk : key ∈ s.activeExecutions
  · rw [if_pos hk]
    let s₁ : ToolsManager := { s with activeExecutions := s.activeExecutions.erase key }
    have h₁ : GateMoves s s₁ :=
      hs.neutral (hs.rounds.neutral rfl rfl rfl (.inl rfl)) rfl rfl (.inl rfl)
    have hreport : WpGate s (toolsHost.reportResult key outcome).run s₁ := by
      cases outcome with
      | error e => exact h₁
      | ok result =>
          show WpGate s (if result.isError then _ else _ : Throws ToolsSig Unit).run s₁
          by_cases herr : result.isError = true
          · rw [if_pos herr]
            exact wpGate_finalizeError h₁ _ _ _ _
          · rw [if_neg herr]
            refine keepsGate_finalizePendingTool h₁ _ _ fun _ ref settled hl hsettle => ?_
            obtain ⟨before, p, after, hp, hid, hc, -⟩ := ToolRound.settle_cases hsettle
            refine hown (by simpa using herr) hk ref hl ⟨p, ?_, hid, hc⟩
            rw [show (s.rounds ref).pending = before ++ p :: after from hp]
            exact List.mem_append_right _ List.mem_cons_self
    refine (wp_bind (toolsHost.reportResult key outcome).run _ _ s₁).mpr ?_
    refine wp_mono hreport fun r s₂ h₂ => ?_
    cases r with
    | ok _ => exact h₂
    | error e => exact WpGate.discard (wpGate_finalizeError h₂ _ _ _ _)
  · rw [if_neg hk]
    exact hrefl

/-! ### Runs -/

/-- Updates that are announced to the slots. -/
theorem WpGate.modify_emit {f : ToolsManager → ToolsManager} (h : GateMoves s₀ (f s))
    (signal : ToolsSignal) :
    WpGate s₀ (toolsHost.modify f >>= fun _ => toolsHost.emit signal) s :=
  (wp_bind (toolsHost.modify f) _ _ s).mpr (WpGate.query h (.emit signal))

theorem GateInv.cleanupRequest (hs : GateInv s) (req : String) :
    GateMoves s (s.cleanupRequest req) := by
  have h₁ : GateMoves s (s.dropRound req) := by
    refine hs.neutral (hs.rounds.dropRound fun h => h) ?_ ?_ ?_ <;>
      unfold ToolsManager.dropRound <;> split
    · rfl
    · rfl
    · rfl
    · rfl
    · exact .inl rfl
    · exact .inr ⟨.abandoned _, trivial, rfl⟩
  exact h₁.trans (h₁.1.neutral
    (h₁.1.rounds.neutral rfl rfl rfl (.inr ⟨.cleaned req _, rfl, trivial, rfl⟩)) rfl rfl
    (.inr ⟨.cleaned req _, trivial, rfl⟩))

theorem wpGate_call (hs : GateInv s) {c : ToolsCall} (hc : OwnResult s c) :
    WpGate s (toolsHost.call c) s := by
  have hrefl : GateMoves s s := ⟨hs, gateContract_preorder.refl s⟩
  have hupdate : ∀ {s'}, s'.rounds = s.rounds → s'.nextRound = s.nextRound →
      s'.toolRounds = s.toolRounds → s'.gates = s.gates → s'.nextTag = s.nextTag →
      s'.history = s.history → GateMoves s s' := fun h₁ h₂ h₃ h₄ h₅ h₆ =>
    hs.neutral (hs.rounds.neutral h₁ h₂ h₃ (.inl h₆)) h₄ h₅ (.inl h₆)
  cases c with
  | addTool tool => exact WpGate.modify_emit (hupdate rfl rfl rfl rfl rfl rfl) _
  | removeTool name =>
      show WpGate s (if name ∈ s.tools then _ else _ : Proc ToolsSig Unit) s
      by_cases hname : name ∈ s.tools
      · rw [if_pos hname]
        exact WpGate.modify_emit (hupdate rfl rfl rfl rfl rfl rfl) _
      · rw [if_neg hname]
        exact hrefl
  | removeAllTools =>
      show WpGate s (if s.tools.keys.isEmpty then _ else _ : Proc ToolsSig Unit) s
      by_cases hempty : s.tools.keys.isEmpty = true
      · rw [if_pos hempty]
        exact hrefl
      · rw [if_neg hempty]
        exact WpGate.modify_emit (hupdate rfl rfl rfl rfl rfl rfl) _
  | setExecutionGate installed => exact hupdate rfl rfl rfl rfl rfl rfl
  | beginRound req calls => exact WpGate.discard (wpGate_beginRound hs req calls)
  | executeToolCall args => exact WpGate.discard (wpGate_beginRound hs _ _)
  | cleanupRequest req => exact hs.cleanupRequest req
  | gateFinished tag outcome => exact wpGate_gateFinished hs tag outcome
  | executionFinished key outcome => exact wpGate_onToolExecutionFinished hs hc

abbrev ownResults : Surroundings toolsMachine := .only toolsMachine OwnResult

theorem gate_valid : gateContract.Valid ownResults :=
  Contract.Valid.of_guarded gateContract_preorder (fun _ _ hs hc => wpGate_call hs hc)
    fun f _ h => match f with
      | .driveRound req => wpGate_driveBody h req
      | .advanceLoop _ => wpGate_advanceBody h.1 h.2

theorem gateInv_init : GateInv {} where
  rounds := roundsInv_init
  base := {
    approved := ordered_nil
    dispatched := fun _ _ h => absurd h List.not_mem_nil
    executed := fun _ _ h => absurd h List.not_mem_nil
    yielded := fun _ _ _ h => absurd h List.not_mem_nil
    unique := fun _ _ _ h => absurd h List.not_mem_nil
    watched := fun _ _ h => absurd h (by simp)
    started := fun _ _ _ h => absurd h List.not_mem_nil }
  declined _ _ h := absurd h List.not_mem_nil

/-- In every run whose tools' results meet the condition, a mutating call is executed
after its approval only, each approval leads to one execution at most, and a declined
call is not executed and is settled with an error if its round was open. -/
theorem execution_gate_respected {c : Config ToolsSig}
    (hrun : Reaches ownResults (.idle {}) c) (hw : c.Waiting) :
    Approved c.state.history ∧ Declined c.state.history := by
  have hinv : GateInv c.state := gate_valid.waiting gateInv_init hrun hw
  exact ⟨hinv.base.approved, hinv.declined⟩

/-- A mutating tool and a gate. -/
def gatedMoves : List (Move toolsMachine) :=
  [.event (.addTool { object := 0, id := "writer" }), .answer ToolsOut.returns,
    .event (.setExecutionGate true)]

/-- A round whose first call is asked about. -/
def askMoves (calls : List ToolRound.Call) : List (Move toolsMachine) :=
  [.event (.beginRound "r" calls), .answer ToolsOut.returns]

/-- The gate approves the call `t1`, its tool runs and returns, and the next call of
the round is asked about. -/
def approveMoves : List (Move toolsMachine) :=
  [.event (.gateFinished 0 (.ok true)), .answer ToolsOut.returns, .answer ToolsOut.returns,
    .event (.executionFinished ("r", "t1") (.ok (.text "done"))), .answer ToolsOut.returns,
    .answer ToolsOut.returns]

def writeCalls : List ToolRound.Call := [⟨"t1", "writer", []⟩, ⟨"t2", "writer", []⟩]

/-- The first call is approved and executed, the second declined. -/
theorem execution_gate_respected_asked :
    ∃ c : Config ToolsSig, c.Waiting ∧ Approved c.state.history ∧ Declined c.state.history ∧
      .executed 0 ⟨"r", "t1", "writer", []⟩ ∈ c.state.history ∧
      .yielded 1 false true ∈ c.state.history := by
  let moves := gatedMoves ++ askMoves writeCalls ++ approveMoves ++
    [.event (.gateFinished 1 (.ok false))]
  have hown : OwnResult
      (play toolsMachine 6 (gatedMoves ++ askMoves writeCalls ++ approveMoves.take 3)
        (.idle {})).state (.executionFinished ("r", "t1") (.ok (.text "done"))) := by
    intro _ _ ref href _
    obtain rfl : 0 = ref := Option.some.inj href
    exact ⟨0, ⟨0, ⟨"r", "t1", "writer", []⟩, some .mutating, true⟩, ⟨"r", "t1", "writer", []⟩,
      .tail _ (.tail _ (.tail _ (.tail _ (.head _)))), rfl, rfl, .head _⟩
  have hplay : Playable ownResults 6 moves (.idle {}) :=
    ⟨trivial, trivial, trivial, trivial, trivial, trivial, trivial, trivial, hown, trivial,
      trivial, trivial, trivial⟩
  have hw : (play toolsMachine 6 moves (.idle {})).Waiting := Or.inr ⟨_, _, rfl⟩
  obtain ⟨happroved, hdeclined⟩ := execution_gate_respected (reaches_play hplay) hw
  exact ⟨_, hw, happroved, hdeclined,
    .tail _ (.tail _ (.tail _ (.tail _ (.tail _ (.head _))))), .tail _ (.head _)⟩

/-- The results a call of a round was settled with. -/
def settledResults (ref : RoundRef) (id : String) (h : List ToolObservation) : List ToolResult :=
  h.filterMap fun
    | .settled ref' id' result => if ref' = ref ∧ id' = id then some result else none
    | _ => none

theorem mem_settledResults {ref : RoundRef} {id : String} {h : List ToolObservation}
    {result : ToolResult} (hs : .settled ref id result ∈ h) :
    result ∈ settledResults ref id h :=
  List.mem_filterMap.mpr ⟨_, hs, if_pos ⟨rfl, rfl⟩⟩

/-- A request is cleaned up while the gate is asked, and its id is used again. The
approval of the old call executes it, its result settles the new call of that id, and
the new call's own denial comes too late. -/
theorem execution_gate_stale_approval :
    ∃ s : ToolsManager, Reaches (Surroundings.any toolsMachine) (.idle {}) (.idle s) ∧
      .yielded 1 false true ∈ s.history ∧ .settled 1 "t1" (.text "done") ∈ s.history ∧
      ¬Declined s.history := by
  let moves := gatedMoves ++ askMoves [⟨"t1", "writer", []⟩] ++ .event (.cleanupRequest "r") ::
    askMoves writeCalls ++ approveMoves ++ [.event (.gateFinished 1 (.ok false))]
  have hplay : Playable (Surroundings.any toolsMachine) 6 moves (.idle {}) :=
    ⟨trivial, trivial, trivial, trivial, trivial, trivial, trivial, trivial, trivial, trivial,
      trivial, trivial, trivial, trivial, trivial, trivial⟩
  refine ⟨_, reaches_play hplay, .head _, .tail _ (.tail _ (.tail _ (.head _))), fun hd => ?_⟩
  obtain ⟨result, herr, hs⟩ := hd 1 ⟨1, ⟨"r", "t1", "writer", []⟩, some .mutating, true⟩
    (.head _)
    (.tail _ (.tail _ (.tail _ (.tail _ (.tail _ (.tail _ (.tail _ (.tail _ (.head _)))))))))
  obtain rfl : result = .text "done" := List.mem_singleton.mp (mem_settledResults hs)
  cases herr

end LLMQore.Tools
