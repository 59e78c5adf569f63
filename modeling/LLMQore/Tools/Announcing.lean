import LLMQore.Reentrant.Segments
import LLMQore.Tools.ToolsManager

/-!
# LLMQore.Tools.Announcing

The manager announces a round at once when it completes it, and nothing it has not
completed: between two points where its surroundings act, at most one round is announced,
as the last thing, and it was completed in between.
-/

namespace LLMQore.Tools

open Reentrant

/-- The completed rounds, newest first: the request of each and the results announced. -/
def completions (h : List ToolObservation) :
    List (String × AList (fun _ : String => ToolResult)) :=
  h.filterMap fun
    | .completed _ requestId results => some (requestId, results)
    | _ => none

/-- No completed round is forgotten. -/
def Recorded (s s' : ToolsManager) : Prop :=
  (completions s.history).Sublist (completions s'.history)

/-- What is announced was completed meanwhile. -/
def Announced : ToolsOut → ToolsManager → ToolsManager → Prop
  | .emit (.toolExecutionComplete requestId results), s, s' =>
      ((requestId, results) :: completions s.history).Sublist (completions s'.history)
  | _, s, s' => Recorded s s'

section Recorded

variable {s s' : ToolsManager}

theorem Recorded.refl (s : ToolsManager) : Recorded s s := List.Sublist.refl _

theorem Recorded.trans {s₁ s₂ s₃ : ToolsManager} (h₁ : Recorded s₁ s₂) (h₂ : Recorded s₂ s₃) :
    Recorded s₁ s₃ :=
  List.Sublist.trans h₁ h₂

theorem Recorded.of_eq (h : s'.history = s.history) : Recorded s s' := by
  rw [Recorded, h]

theorem Recorded.of_cons {o : ToolObservation} (h : s'.history = o :: s.history) :
    Recorded s s' := by
  rw [Recorded, h]
  exact (List.sublist_cons_self o s.history).filterMap _

/-- A round is closed with the results that are announced for it. -/
theorem announced_closeRound {s₀ : ToolsManager} (h : Recorded s₀ s) (ref : RoundRef)
    (req : String) :
    Announced (.emit (.toolExecutionComplete req (s.rounds ref).results)) s₀
      (s.closeRound ref req) :=
  List.Sublist.cons_cons _ h

end Recorded

/-! ### What the code makes of a history -/

/-- A relation and what holds at a call-out, for which code counts only by the observations it
adds. -/
structure Logs (R : ToolsManager → ToolsManager → Prop)
    (Q : ToolsOut → ToolsManager → ToolsManager → Prop) : Prop where
  trans : ∀ {s₁ s₂ s₃}, R s₁ s₂ → R s₂ s₃ → R s₁ s₃
  same : ∀ {s s' : ToolsManager}, s'.history = s.history → R s s'
  note : ∀ {s s' : ToolsManager} {o}, s'.history = o :: s.history → R s s'
  /-- A call-out other than `toolExecutionComplete`. -/
  out : ∀ {e}, (∀ requestId results, e ≠ .emit (.toolExecutionComplete requestId results)) →
    ∀ {s s'}, R s s' → Q e s s'
  complete : ∀ {s₀ s} ref requestId, R s₀ s →
    Q (.emit (.toolExecutionComplete requestId (s.rounds ref).results)) s₀
      (s.closeRound ref requestId)

namespace Logs

variable {R : ToolsManager → ToolsManager → Prop}
  {Q : ToolsOut → ToolsManager → ToolsManager → Prop} {α : Type}

theorem refl (h : Logs R Q) (s : ToolsManager) : R s s := h.same rfl

theorem addCall (h : Logs R Q) (s : ToolsManager) (ref : RoundRef) (call : ToolRound.Call) :
    R s (s.addCall ref call) := by
  unfold ToolsManager.addCall
  split
  · exact h.refl s
  · exact h.note rfl

theorem addCalls (h : Logs R Q) (ref : RoundRef) (calls : List ToolRound.Call) (s : ToolsManager) :
    R s (s.addCalls ref calls) := by
  induction calls generalizing s with
  | nil => exact h.refl s
  | cons call calls ih => exact h.trans (h.addCall s ref call) (ih _)

theorem extendRound (h : Logs R Q) (s : ToolsManager) (req : String)
    (calls : List ToolRound.Call) : R s (s.extendRound req calls) := by
  refine h.trans ?_ (h.addCalls _ calls (s.currentRound req).2)
  refine h.same ?_
  unfold ToolsManager.currentRound
  cases s.toolRounds.lookup req with
  | none => rfl
  | some ref =>
      show (if (s.rounds ref).closed then (s.nextRound, s.openRound req)
        else (ref, s)).2.history = s.history
      split <;> rfl

theorem cleanupRequest (h : Logs R Q) (s : ToolsManager) (req : String) :
    R s (s.cleanupRequest req) := by
  have hdrop : R s (s.dropRound req) := by
    unfold ToolsManager.dropRound
    cases s.toolRounds.lookup req with
    | none => exact h.refl s
    | some ref => exact h.note rfl
  exact h.trans hdrop (h.note rfl)

theorem modify (h : Logs R Q) {f : ToolsManager → ToolsManager} (hf : ∀ s, R s (f s)) :
    (toolsHost.modify f).Segments R Q :=
  Proc.Segments.modify (S := ToolsSig) (R := R) (fun _ _ _ => h.trans) hf

theorem query (h : Logs R Q) {e : ToolsOut}
    (he : ∀ requestId results, e ≠ .emit (.toolExecutionComplete requestId results)) :
    (Proc.query (S := ToolsSig) e).Segments R Q :=
  .query h.refl fun _ _ => h.out he

theorem invoke (h : Logs R Q) (f : ToolsFn) : (Proc.invoke (S := ToolsSig) f).Segments R Q :=
  .invoke h.refl f

theorem ite (c : Prop) [Decidable c] {p q : Throws ToolsSig α} (hp : p.run.Segments R Q)
    (hq : q.run.Segments R Q) : (if c then p else q : Throws ToolsSig α).run.Segments R Q := by
  split
  · exact hp
  · exact hq

/-- The end of `finalizePendingTool`, after the call was settled. -/
theorem afterSettle (h : Logs R Q) (req id : String) (settled : ToolRound) :
    (match settled.find id with
      | none => pure ()
      | some pending => do
          toolsHost.emit (.toolExecutionResult req id pending.name pending.resultText)
          ExceptT.mk (toolsHost.driveRound req) : Throws ToolsSig Unit).run.Segments R Q := by
  cases settled.find id with
  | none => exact .pure _
  | some pending =>
      refine .run_bind (.lift (h.query (e := .emit _) nofun)) fun _ => ?_
      exact h.invoke _

theorem finalizePendingTool (h : Logs R Q) (req id : String) (rich : ToolResult) (success : Bool) :
    (toolsHost.finalizePendingTool req id rich success).run.Segments R Q := by
  refine .run_bind (.lift (.reads _)) fun s => ?_
  cases s.toolRounds.lookup req with
  | none => exact .pure _
  | some ref =>
      dsimp only
      cases (s.rounds ref).settle id rich success with
      | none => exact .pure _
      | some settled =>
          refine .run_bind (.lift (h.modify fun s => h.note rfl)) fun _ => ?_
          exact h.afterSettle req id settled

theorem startExecution (h : Logs R Q) (tag : CallTag) (args : CallArgs) :
    (toolsHost.startExecution tag args).run.Segments R Q := by
  refine .run_bind (.lift (.reads _)) fun s => ?_
  cases s.tools.lookup args.toolName with
  | none => exact h.finalizePendingTool _ _ _ _
  | some tool =>
      refine .run_bind (.lift (h.modify fun s => h.note rfl)) fun _ => ?_
      refine .run_bind (.lift (h.query (e := .emit _) nofun)) fun _ => ?_
      refine .run_bind (.lift (h.modify fun s => h.note rfl)) fun _ => ?_
      exact h.query nofun

theorem askGate (h : Logs R Q) (tag : CallTag) (ref : RoundRef) (args : CallArgs) :
    (toolsHost.askGate tag ref args).run.Segments R Q := by
  refine .run_bind (.lift (h.modify fun s => h.note rfl)) fun _ => ?_
  refine .run_bind (p := ExceptT.mk (toolsHost.gate args)) (h.query nofun) fun _ => ?_
  exact .lift (h.modify fun s => h.same rfl)

theorem dispatchCall (h : Logs R Q) (ref : RoundRef) (args : CallArgs) :
    (toolsHost.dispatchCall ref args).run.Segments R Q := by
  refine .run_bind (.lift (.reads _)) fun s => ?_
  cases s.tools.lookup args.toolName with
  | none =>
      refine .run_bind (.lift (h.modify fun s => h.note rfl)) fun _ => ?_
      exact .run_bind (h.finalizePendingTool _ _ _ _) fun _ => .pure _
  | some tool =>
      refine .run_bind (.lift (h.modify fun s => h.note rfl)) fun _ => ?_
      refine ite _ ?_ ?_
      · exact .run_bind (h.askGate _ _ _) fun _ => .pure _
      · exact .run_bind (h.startExecution _ _) fun _ => .pure _

/-- The body of the loop of `advance`. -/
theorem advanceBody (h : Logs R Q) (ref : RoundRef) :
    (toolsHost.advanceBody ref).run.Segments R Q := by
  refine .run_bind (.lift (.reads _)) fun s => ?_
  refine ite _ ?_ (.pure _)
  refine .run_bind (.lift (h.modify fun s => h.same rfl)) fun _ => ?_
  refine .run_bind (p := toolsHost.dispatch ref (s.rounds ref).next) ?_ fun dispatched => ?_
  · refine .run_bind (.lift (.reads _)) fun s' => ?_
    cases (s'.rounds ref).pending[(s.rounds ref).next]? with
    | none => exact .pure _
    | some call => exact h.dispatchCall _ _
  · exact ite _ (.pure _) (h.invoke _)

/-- The round is closed and announced in one. -/
theorem announce (h : Logs R Q) (req : String) (ref : RoundRef) :
    (toolsHost.announce req ref).Segments R Q := by
  -- the results that are announced are those of the state the round is closed in
  intro s₀ s hs
  show Proc.SegmentsAt R Q (if _ then _ else _ : Proc ToolsSig Unit) s₀ s
  split
  · exact hs
  · exact ⟨h.complete ref req hs, fun s' _ => h.refl s'⟩

theorem driveBody (h : Logs R Q) (req : String) : (toolsHost.driveBody req).run.Segments R Q := by
  refine .run_bind (.lift (.reads _)) fun s => ?_
  cases s.toolRounds.lookup req with
  | none => exact .pure _
  | some ref =>
      refine ite _ (.pure _) ?_
      refine .run_bind (p := toolsHost.advance ref) ?_ fun _ => .lift (h.announce req ref)
      refine .run_bind (.lift (h.modify fun s => h.same rfl)) fun _ => ?_
      refine .run_bind (p := ExceptT.mk (toolsHost.advanceLoop ref)) (h.invoke _) fun _ => ?_
      exact .lift (h.modify fun s => h.same rfl)

theorem beginRound (h : Logs R Q) (req : String) (calls : List ToolRound.Call) :
    (toolsHost.beginRound req calls).run.Segments R Q := by
  refine ite _ (.pure _) ?_
  refine .run_bind (.lift (h.modify fun s => h.extendRound s req calls)) fun _ => ?_
  exact h.invoke _

theorem gateFinished (h : Logs R Q) (tag : CallTag) (outcome : Except Unit Bool) :
    (toolsHost.gateFinished tag outcome).Segments R Q := by
  refine .bind (.reads _) fun s => ?_
  cases s.gates.lookup tag with
  | none => exact .pure _
  | some w =>
      refine .bind (h.modify fun s => h.same rfl) fun _ => ?_
      cases outcome with
      | error e => exact .pure _
      | ok allowed =>
          refine .discard (.run_bind (.lift (h.modify fun s => h.note rfl)) fun _ => ?_)
          refine ite _ ?_ ?_
          · exact h.finalizePendingTool _ _ _ _
          · exact h.startExecution _ _

theorem reportResult (h : Logs R Q) (key : ExecutionKey) (outcome : Except ToolExn ToolResult) :
    (toolsHost.reportResult key outcome).run.Segments R Q := by
  cases outcome with
  | error e => exact .pure _
  | ok result =>
      refine ite _ ?_ ?_
      · exact h.finalizePendingTool _ _ _ _
      · exact h.finalizePendingTool _ _ _ _

/-- The end of `onToolExecutionFinished`, after the result was reported. -/
theorem afterReport (h : Logs R Q) (key : ExecutionKey) (reported : Except ToolExn Unit) :
    (match reported with
      | .ok () => pure ()
      | .error e => discard (toolsHost.onToolErrored key e.errorText).run :
        Proc ToolsSig Unit).Segments R Q := by
  cases reported with
  | ok a => exact .pure _
  | error e => exact .discard (h.finalizePendingTool _ _ _ _)

theorem onToolExecutionFinished (h : Logs R Q) (key : ExecutionKey)
    (outcome : Except ToolExn ToolResult) :
    (toolsHost.onToolExecutionFinished key outcome).Segments R Q := by
  refine .bind (.reads _) fun s => ?_
  split
  · refine .bind (h.modify fun s => h.same rfl) fun _ => ?_
    exact .bind (h.reportResult key outcome) fun r => h.afterReport key r
  · exact .pure _

/-- All code of the manager's API. -/
theorem call (h : Logs R Q) (c : ToolsCall) : (toolsHost.call c).Segments R Q := by
  cases c with
  | addTool tool =>
      exact .bind (h.modify fun s => h.same rfl) fun _ => h.query (e := .emit _) nofun
  | removeTool name =>
      refine .bind (.reads _) fun s => ?_
      split
      · exact .bind (h.modify fun s => h.same rfl) fun _ => h.query (e := .emit _) nofun
      · exact .pure _
  | removeAllTools =>
      refine .bind (.reads _) fun s => ?_
      split
      · exact .pure _
      · exact .bind (h.modify fun s => h.same rfl) fun _ => h.query (e := .emit _) nofun
  | setExecutionGate installed =>
      exact h.modify (f := fun s => { s with executionGate := installed }) fun s => h.same rfl
  | beginRound req calls => exact .discard (h.beginRound req calls)
  | executeToolCall args => exact .discard (h.beginRound _ _)
  | cleanupRequest req => exact h.modify fun s => h.cleanupRequest s req
  | gateFinished tag outcome => exact h.gateFinished tag outcome
  | executionFinished key outcome => exact h.onToolExecutionFinished key outcome

theorem body (h : Logs R Q) (f : ToolsFn) : (toolsMachine.body f).Segments R Q := by
  cases f with
  | driveRound req => exact h.driveBody req
  | advanceLoop ref => exact h.advanceBody ref

end Logs

/-! ### What is completed is announced -/

/-- The code announces what it completes, when it completes it. -/
abbrev Announces {α : Type} (p : Proc ToolsSig α) : Prop := p.Segments Recorded Announced

theorem logs_announced : Logs Recorded Announced where
  trans := Recorded.trans
  same := .of_eq
  note := .of_cons
  out {e} he s s' h := by
    cases e with
    | emit signal =>
        cases signal with
        | toolExecutionComplete requestId results => exact absurd rfl (he requestId results)
        | _ => exact h
    | _ => exact h
  complete ref requestId h := announced_closeRound h ref requestId

end LLMQore.Tools
