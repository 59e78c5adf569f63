import LLMQore.Tools.RoundLifecycle

/-!
# LLMQore.Tools.Driving

How a round is driven, for any contract of the manager.

The code that takes the calls of a round one by one and announces the round when all are
settled is the same whatever is claimed of it. `Drives` lists what a contract must say of
the updates that code makes and of the dispatch of one call; that the code keeps the
contract follows.
-/

namespace LLMQore.Tools

open Reentrant

/-- What a contract says of the updates made while a round is driven. -/
structure Drives (C : Contract ToolsSig) (ans : ToolsManager → (e : ToolsOut) → e.Ans → Prop) :
    Prop extends C.Preorder where
  rounds : ∀ {s}, C.inv s → RoundsInv s
  evolves : ∀ {s s'}, C.rely s s' → Evolves nobody s s'
  drive : ∀ {s req}, C.inv s → C.pre (.driveRound req) s
  drive_post : ∀ {s req r s'}, C.post (.driveRound req) s r s' → C.Moves s s'
  loop : ∀ {s ref}, C.pre (.advanceLoop ref) s → C.inv s ∧ ref < s.nextRound
  loop_again : ∀ {s s' ref}, C.pre (.advanceLoop ref) s → C.Moves s s' →
    C.pre (.advanceLoop ref) s'
  loop_post : ∀ {s ref r s'}, C.post (.advanceLoop ref) s r s' → C.Moves s s'
  update : ∀ {s s'}, C.inv s → s'.rounds = s.rounds → s'.nextRound = s.nextRound →
    s'.toolRounds = s.toolRounds → s'.gates = s.gates → s'.nextTag = s.nextTag →
    s'.history = s.history → s'.activeExecutions = s.activeExecutions → C.Moves s s'
  extend : ∀ {s} req calls, C.inv s → C.Moves s (s.extendRound req calls)
  start : ∀ {s ref}, C.inv s → ref < s.nextRound → (s.rounds ref).closed = false →
    C.Moves s (s.setAdvancing ref true) ∧ C.pre (.advanceLoop ref) (s.setAdvancing ref true)
  stop : ∀ {s₀ s ref}, C.Moves s₀ s → ref < s₀.nextRound → (s₀.rounds ref).advancing = false →
    C.Moves s₀ (s.setAdvancing ref false)
  close : ∀ {s ref}, C.inv s → ref < s.nextRound → (s.rounds ref).closed = false →
    (s.rounds ref).advancing = false → (s.rounds ref).isSettled = true →
    C.Moves s (s.closeRound ref (s.rounds ref).requestId)
  dispatch : ∀ {s ref call args}, C.pre (.advanceLoop ref) s →
    (s.rounds ref).pending[(s.rounds ref).next]? = some call → args.toolId = call.id →
    (s.rounds ref).requestId = args.requestId →
    C.KeepsFrom ans s (toolsHost.dispatchCall ref args).run (s.takeNext ref)

namespace Drives

variable {C : Contract ToolsSig} {ans : ToolsManager → (e : ToolsOut) → e.Ans → Prop}
  {s s' s₀ : ToolsManager} {ref : RoundRef}

theorem moves_refl (hD : Drives C ans) (hs : C.inv s) : C.Moves s s := ⟨hs, hD.refl s⟩

theorem moves_trans (hD : Drives C ans) {s₁ s₂ s₃ : ToolsManager} (h₁ : C.Moves s₁ s₂)
    (h₂ : C.Moves s₂ s₃) : C.Moves s₁ s₃ :=
  h₁.trans hD.toPreorder h₂

theorem lt_nextRound (hD : Drives C ans) (h : C.Moves s s') (href : ref < s.nextRound) :
    ref < s'.nextRound :=
  Nat.lt_of_lt_of_le href (hD.evolves h.2).nextRound

theorem driveRound (hD : Drives C ans) (h : C.Moves s₀ s) (req : String) :
    C.KeepsFrom ans s₀ (toolsHost.driveRound req) s :=
  ⟨hD.drive h.1, fun _ _ h' => hD.moves_trans h (hD.drive_post h')⟩

theorem dispatchNext (hD : Drives C ans) (hs : C.pre (.advanceLoop ref) s)
    (hnext : (s.rounds ref).next < (s.rounds ref).pending.length) :
    C.KeepsFrom ans s (toolsHost.dispatch ref (s.rounds ref).next).run (s.takeNext ref) := by
  obtain ⟨call, hcall⟩ : ∃ call, (s.rounds ref).pending[(s.rounds ref).next]? = some call :=
    ⟨_, List.getElem?_eq_getElem hnext⟩
  have hself : (s.takeNext ref).rounds ref =
      { s.rounds ref with next := (s.rounds ref).next + 1 } := Function.update_self ..
  have hcall' : ((s.takeNext ref).rounds ref).pending[(s.rounds ref).next]? = some call := by
    rw [hself]
    exact hcall
  refine Contract.KeepsFrom.run_read ?_
  rw [hcall']
  refine hD.dispatch hs hcall rfl ?_
  show (s.rounds ref).requestId = ((s.takeNext ref).rounds ref).requestId
  rw [hself]

/-- The body of the loop of `advance`. -/
theorem advanceBody (hD : Drives C ans) (hs : C.pre (.advanceLoop ref) s) :
    C.KeepsFrom ans s (toolsHost.advanceBody ref).run s := by
  show C.KeepsFrom ans s (if (s.rounds ref).next < (s.rounds ref).pending.length then _ else _ :
    Throws ToolsSig Unit).run s
  by_cases hnext : (s.rounds ref).next < (s.rounds ref).pending.length
  · rw [if_pos hnext]
    refine (wp_run_bind (toolsHost.dispatch ref (s.rounds ref).next) _ _ (s.takeNext ref)).mpr ?_
    refine wp_mono (hD.dispatchNext hs hnext) fun r s₁ h₁ => ?_
    cases r with
    | error e => exact h₁
    | ok dispatched =>
        cases dispatched with
        | true => exact h₁
        | false =>
            exact ⟨hD.loop_again hs h₁, fun _ _ h => hD.moves_trans h₁ (hD.loop_post h)⟩
  · rw [if_neg hnext]
    exact hD.moves_refl (hD.loop hs).1

theorem announce (hD : Drives C ans) (h : C.Moves s₀ s) (href : ref < s.nextRound)
    {req : String} (hreq : (s.rounds ref).requestId = req)
    (hstill : (s.rounds ref).advancing = false) :
    C.KeepsFrom ans s₀ (toolsHost.announce req ref) s := by
  show C.KeepsFrom ans s₀ (if (s.rounds ref).closed || !(s.rounds ref).isSettled then _ else _ :
    Proc ToolsSig Unit) s
  by_cases hdone : ((s.rounds ref).closed || !(s.rounds ref).isSettled) = true
  · rw [if_pos hdone]
    exact h
  · rw [if_neg hdone]
    simp only [Bool.or_eq_true, Bool.not_eq_true', not_or, Bool.not_eq_true,
      Bool.not_eq_false] at hdone
    subst hreq
    have hclose := hD.close h.1 href hdone.1 hstill hdone.2
    exact Contract.KeepsFrom.query hD.toPreorder (hD.moves_trans h hclose) _

theorem driveBody (hD : Drives C ans) (hs : C.inv s) (req : String) :
    C.KeepsFrom ans s (toolsHost.driveBody req).run s := by
  refine Contract.KeepsFrom.run_read ?_
  cases hl : s.toolRounds.lookup req with
  | none => exact hD.moves_refl hs
  | some ref =>
      obtain ⟨href, hreq⟩ := (hD.rounds hs).owned req ref hl
      show C.KeepsFrom ans s (if (s.rounds ref).closed || (s.rounds ref).advancing then _ else _ :
        Throws ToolsSig Unit).run s
      by_cases hidle : ((s.rounds ref).closed || (s.rounds ref).advancing) = true
      · rw [if_pos hidle]
        exact hD.moves_refl hs
      · rw [if_neg hidle]
        simp only [Bool.or_eq_true, not_or, Bool.not_eq_true] at hidle
        obtain ⟨hstart, hpre⟩ := hD.start hs href hidle.1
        show C.KeepsFrom ans s (toolsHost.advance ref >>= fun _ =>
          liftM (toolsHost.announce req ref)).run s
        refine (wp_run_bind (toolsHost.advance ref) _ _ s).mpr ?_
        refine (wp_run_bind (ExceptT.mk (toolsHost.advanceLoop ref) : Throws ToolsSig Unit) _ _
          (s.setAdvancing ref true)).mpr ⟨hpre, fun r s₁ h₁ => ?_⟩
        have hloop := hD.moves_trans hstart (hD.loop_post h₁)
        cases r with
        | error e => exact hloop
        | ok _ =>
            -- the loop is done, and nobody else has driven the round meanwhile
            have hstop := hD.stop hloop href hidle.2
            have hself : (s₁.setAdvancing ref false).rounds ref =
                { s₁.rounds ref with advancing := false } := Function.update_self ..
            refine Contract.KeepsFrom.lift (hD.announce hstop (hD.lt_nextRound hstop href) ?_ ?_)
            · rw [(hD.evolves hstop.2).requestId ref href]
              exact hreq
            · rw [hself]

theorem beginRound (hD : Drives C ans) (hs : C.inv s) (req : String)
    (calls : List ToolRound.Call) : C.KeepsFrom ans s (toolsHost.beginRound req calls).run s := by
  unfold ToolsHost.beginRound
  by_cases hc : calls.isEmpty = true
  · rw [if_pos hc]
    exact hD.moves_refl hs
  · rw [if_neg hc]
    exact hD.driveRound (hD.extend req calls hs) req

/-- The code of the manager keeps the contract where the ends of gates and executions and
`cleanupRequest` do. -/
theorem call (hD : Drives C ans) (hs : C.inv s) (c : ToolsCall)
    (hcleanup : ∀ req, c = .cleanupRequest req → C.Moves s (s.cleanupRequest req))
    (hgate : ∀ tag outcome, c = .gateFinished tag outcome →
      C.KeepsFrom ans s (toolsHost.gateFinished tag outcome) s)
    (hexec : ∀ key outcome, c = .executionFinished key outcome →
      C.KeepsFrom ans s (toolsHost.onToolExecutionFinished key outcome) s) :
    C.KeepsFrom ans s (toolsHost.call c) s := by
  have hrefl := hD.moves_refl hs
  cases c with
  | addTool tool =>
      exact .modify_query hD.toPreorder (hD.update hs rfl rfl rfl rfl rfl rfl rfl) _
  | removeTool name =>
      show C.KeepsFrom ans s (if name ∈ s.tools then _ else _ : Proc ToolsSig Unit) s
      by_cases hname : name ∈ s.tools
      · rw [if_pos hname]
        exact .modify_query hD.toPreorder (hD.update hs rfl rfl rfl rfl rfl rfl rfl) _
      · rw [if_neg hname]
        exact hrefl
  | removeAllTools =>
      show C.KeepsFrom ans s (if s.tools.keys.isEmpty then _ else _ : Proc ToolsSig Unit) s
      by_cases hempty : s.tools.keys.isEmpty = true
      · rw [if_pos hempty]
        exact hrefl
      · rw [if_neg hempty]
        exact .modify_query hD.toPreorder (hD.update hs rfl rfl rfl rfl rfl rfl rfl) _
  | setExecutionGate installed => exact hD.update hs rfl rfl rfl rfl rfl rfl rfl
  | beginRound req calls => exact .discard (hD.beginRound hs req calls)
  | executeToolCall args => exact .discard (hD.beginRound hs _ _)
  | cleanupRequest req => exact hcleanup req rfl
  | gateFinished tag outcome => exact hgate tag outcome rfl
  | executionFinished key outcome => exact hexec key outcome rfl

end Drives

end LLMQore.Tools
