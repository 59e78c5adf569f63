import LLMQore.Reentrant.CallOuts
import LLMQore.Tools.ToolsManager

/-!
# LLMQore.Tools.CallInputs

What the body of a tool is called with.

A call is taken from its round, may wait for the gate, and is then executed: its id, its name and
its input stay those the round was begun with, whatever happens meanwhile. The body gets the
input with the id of the request put in, unless it says something of that itself.
-/

namespace LLMQore.Tools

open Reentrant

/-- The call a round was begun with. -/
def PendingTool.call (p : PendingTool) : ToolRound.Call := ⟨p.id, p.name, p.input⟩

/-- The call that is executed. -/
def CallArgs.call (args : CallArgs) : ToolRound.Call := ⟨args.toolId, args.toolName, args.input⟩

/-! ### Inputs with the id of the request -/

/-- What is found after a key is erased was there. -/
theorem lookup_of_erase {α β : Type} [DecidableEq α] {m : AList fun _ : α => β} {a a' : α} {b : β}
    (h : (m.erase a').lookup a = some b) : m.lookup a = some b := by
  by_cases ha : a = a'
  · rw [ha, AList.lookup_erase] at h
    cases h
  · rwa [AList.lookup_erase_ne ha] at h

section Given

variable {P : String → ToolRound.Call → Prop} {T : BaseTool → Prop}

/-- All calls there are have `P`, under the id of their request, and all tools have `T` and are
registered under their own ids. -/
structure Given (P : String → ToolRound.Call → Prop) (T : BaseTool → Prop) (s : ToolsManager) :
    Prop where
  pending : ∀ ref, ∀ p ∈ (s.rounds ref).pending, P (s.rounds ref).requestId p.call
  owned : ∀ req ref, s.toolRounds.lookup req = some ref →
    ref < s.nextRound ∧ (s.rounds ref).requestId = req
  gates : ∀ tag w, s.gates.lookup tag = some w → P w.args.requestId w.args.call
  tools : ∀ name tool, s.tools.lookup name = some tool → tool.id = name ∧ T tool

variable {s s' : ToolsManager}

/-- The calls of a round are those of another. -/
def SameCalls (r r' : ToolRound) : Prop :=
  r'.requestId = r.requestId ∧ ∀ p ∈ r'.pending, ∃ q ∈ r.pending, q.call = p.call

theorem SameCalls.refl (r : ToolRound) : SameCalls r r := ⟨rfl, fun p hp => ⟨p, hp, rfl⟩⟩

/-- An update that adds no call, no round, no gate and no tool. -/
theorem Given.of_sub (h : Given P T s) (hrounds : ∀ ref, SameCalls (s.rounds ref) (s'.rounds ref))
    (hnext : s'.nextRound = s.nextRound)
    (howned : ∀ req ref, s'.toolRounds.lookup req = some ref → s.toolRounds.lookup req = some ref)
    (hgates : ∀ tag w, s'.gates.lookup tag = some w → s.gates.lookup tag = some w)
    (htools : ∀ name tool, s'.tools.lookup name = some tool → s.tools.lookup name = some tool) :
    Given P T s' where
  pending ref p hp := by
    obtain ⟨hreq, hcalls⟩ := hrounds ref
    obtain ⟨q, hq, hcall⟩ := hcalls p hp
    rw [hreq, ← hcall]
    exact h.pending ref q hq
  owned req ref hl := by
    rw [hnext, (hrounds ref).1]
    exact h.owned req ref (howned req ref hl)
  gates tag w hw := h.gates tag w (hgates tag w hw)
  tools name tool ht := h.tools name tool (htools name tool ht)

/-- An update of nothing that `Given` speaks of. -/
theorem Given.neutral (h : Given P T s) (hrounds : s'.rounds = s.rounds)
    (hnext : s'.nextRound = s.nextRound) (howned : s'.toolRounds = s.toolRounds)
    (hgates : s'.gates = s.gates) (htools : s'.tools = s.tools) : Given P T s' := by
  refine h.of_sub (fun ref => ?_) hnext ?_ ?_ ?_
  · rw [hrounds]
    exact .refl _
  · rw [howned]
    exact fun _ _ h => h
  · rw [hgates]
    exact fun _ _ h => h
  · rw [htools]
    exact fun _ _ h => h

/-- An update of one round that adds no call. -/
theorem Given.setRound (h : Given P T s) {ref : RoundRef} {r : ToolRound}
    (hr : SameCalls (s.rounds ref) r) : Given P T (s.setRound ref r) := by
  refine h.of_sub (fun ref' => ?_) rfl (fun _ _ h => h) (fun _ _ h => h) fun _ _ h => h
  by_cases href : ref' = ref
  · subst href
    rw [show (s.setRound ref' r).rounds ref' = r from Function.update_self ..]
    exact hr
  · rw [show (s.setRound ref r).rounds ref' = s.rounds ref' from Function.update_of_ne href ..]
    exact .refl _

theorem Given.openRound (h : Given P T s) (req : String) : Given P T (s.openRound req) := by
  have hself : (s.openRound req).rounds s.nextRound = { requestId := req } :=
    Function.update_self ..
  have hother : ∀ ref, ref ≠ s.nextRound → (s.openRound req).rounds ref = s.rounds ref :=
    fun ref href => Function.update_of_ne href ..
  refine ⟨fun ref p hp => ?_, fun req' ref hl => ?_, h.gates, h.tools⟩
  · by_cases href : ref = s.nextRound
    · rw [href, hself] at hp
      cases hp
    · rw [hother ref href] at hp ⊢
      exact h.pending ref p hp
  · change (s.toolRounds.insert req s.nextRound).lookup req' = some ref at hl
    show ref < s.nextRound + 1 ∧ _
    by_cases hreq : req' = req
    · subst hreq
      rw [AList.lookup_insert] at hl
      obtain rfl := Option.some.inj hl
      exact ⟨Nat.lt_succ_self _, by rw [hself]⟩
    · rw [AList.lookup_insert_ne hreq] at hl
      obtain ⟨hlt, howned⟩ := h.owned req' ref hl
      refine ⟨Nat.lt_succ_of_lt hlt, ?_⟩
      rw [hother ref (Nat.ne_of_lt hlt)]
      exact howned

theorem Given.addCall (h : Given P T s) {ref : RoundRef} {call : ToolRound.Call}
    (hcall : P (s.rounds ref).requestId call) : Given P T (s.addCall ref call) := by
  unfold ToolsManager.addCall
  split
  · exact h
  · rename_i hnew
    have hid : call.id ∉ (s.rounds ref).ids := fun hm => hnew (ToolRound.contains_index.mpr hm)
    obtain ⟨hpending, hreq, -⟩ := ToolRound.addCall_of_notMem hid
    have hself : (s.setRound ref ((s.rounds ref).addCall call)).rounds ref =
        (s.rounds ref).addCall call := Function.update_self ..
    have hother : ∀ ref', ref' ≠ ref →
        (s.setRound ref ((s.rounds ref).addCall call)).rounds ref' = s.rounds ref' :=
      fun ref' href => Function.update_of_ne href ..
    refine ⟨fun ref' p hp => ?_, fun req ref' hl => ?_, h.gates, h.tools⟩
    · change p ∈ ((s.setRound ref ((s.rounds ref).addCall call)).rounds ref').pending at hp
      show P ((s.setRound ref ((s.rounds ref).addCall call)).rounds ref').requestId p.call
      by_cases href : ref' = ref
      · rw [href, hself, hpending, List.mem_append, List.mem_singleton] at hp
        rw [href, hself, hreq]
        rcases hp with hp | rfl
        · exact h.pending ref p hp
        · exact hcall
      · rw [hother ref' href] at hp ⊢
        exact h.pending ref' p hp
    · obtain ⟨hlt, howned⟩ := h.owned req ref' hl
      refine ⟨hlt, ?_⟩
      show ((s.setRound ref ((s.rounds ref).addCall call)).rounds ref').requestId = req
      by_cases href : ref' = ref
      · rw [href, hself, hreq, ← href]
        exact howned
      · rw [hother ref' href]
        exact howned

/-- The round calls are added to keeps its request. -/
theorem requestId_addCall (s : ToolsManager) (ref : RoundRef) (call : ToolRound.Call) :
    ((s.addCall ref call).rounds ref).requestId = (s.rounds ref).requestId := by
  unfold ToolsManager.addCall
  split
  · rfl
  · rename_i hnew
    have hid : call.id ∉ (s.rounds ref).ids := fun hm => hnew (ToolRound.contains_index.mpr hm)
    have hself : ((s.setRound ref ((s.rounds ref).addCall call)).observe
        (.called ref call.id)).rounds ref = (s.rounds ref).addCall call := Function.update_self ..
    rw [hself, (ToolRound.addCall_of_notMem hid).2.1]

theorem Given.addCalls (h : Given P T s) {ref : RoundRef} {calls : List ToolRound.Call}
    (hcalls : ∀ call ∈ calls, P (s.rounds ref).requestId call) :
    Given P T (s.addCalls ref calls) := by
  induction calls generalizing s with
  | nil => exact h
  | cons call calls ih =>
      obtain ⟨hcall, hrest⟩ := List.forall_mem_cons.mp hcalls
      refine ih (h.addCall hcall) ?_
      rw [requestId_addCall]
      exact hrest

theorem Given.currentRound (h : Given P T s) (req : String) :
    Given P T (s.currentRound req).2 ∧
      ((s.currentRound req).2.rounds (s.currentRound req).1).requestId = req := by
  have hself : (s.openRound req).rounds s.nextRound = { requestId := req } :=
    Function.update_self ..
  have hopen : Given P T (s.openRound req) ∧
      ((s.openRound req).rounds s.nextRound).requestId = req := ⟨h.openRound req, by rw [hself]⟩
  unfold ToolsManager.currentRound
  cases hl : s.toolRounds.lookup req with
  | none => exact hopen
  | some ref =>
      by_cases hclosed : (s.rounds ref).closed = true
      · simpa only [hclosed, if_true] using hopen
      · simpa only [hclosed] using ⟨h, (h.owned req ref hl).2⟩

theorem Given.extendRound (h : Given P T s) {req : String} {calls : List ToolRound.Call}
    (hcalls : ∀ call ∈ calls, P req call) : Given P T (s.extendRound req calls) := by
  obtain ⟨hcurrent, hreq⟩ := h.currentRound req
  have hadd : Given P T ((s.currentRound req).2.addCalls (s.currentRound req).1 calls) :=
    hcurrent.addCalls (by rw [hreq]; exact hcalls)
  exact hadd

theorem Given.cleanupRequest (h : Given P T s) (req : String) :
    Given P T (s.cleanupRequest req) := by
  have hdrop : Given P T (s.dropRound req) := by
    unfold ToolsManager.dropRound
    cases s.toolRounds.lookup req with
    | none => exact h
    | some ref =>
        have hround : Given P T (s.setRound ref (s.rounds ref).abandon) :=
          h.setRound ⟨rfl, nofun⟩
        refine hround.of_sub (fun _ => .refl _) rfl (fun req' ref' hl => ?_) (fun _ _ h => h)
          fun _ _ h => h
        exact lookup_of_erase hl
  exact hdrop.neutral rfl rfl rfl rfl rfl

end Given

/-! ### The code -/

section Code

variable {P : String → ToolRound.Call → Prop} {T : BaseTool → Prop} {s : ToolsManager}

end Code

end LLMQore.Tools
