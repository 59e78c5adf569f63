import LLMQore.Tools.Announcing
import LLMQore.Tools.RoundLifecycle

/-!
# LLMQore.Tools.StoredResults

What is stored for a call of the result its tool yields.

The handler has two signals. `toolCompleted` carries the result, but a result that is an error goes
the way of an exception, and `toolFailed` carries only a text: the manager makes a new result of it.
-/

namespace LLMQore.Tools

open Reentrant

/-- The text the handler reports an error result with. -/
def errorText (result : ToolResult) : String :=
  if result.asText.isEmpty then "Tool reported an error" else result.asText

/-- The result the manager stores where a tool yields `result`. -/
def storedResult (result : ToolResult) : ToolResult :=
  if result.isError then .error (errorText result) else result

/-- No error, or one that is a single text, which is not empty. -/
def Flat (result : ToolResult) : Prop :=
  result.isError = false ∨ ∃ text, text ≠ "" ∧ result = .error text

theorem asText_error (text : String) : (ToolResult.error text).asText = text :=
  String.intercalate_singleton

theorem storedResult_eq_iff (result : ToolResult) : storedResult result = result ↔ Flat result := by
  unfold storedResult Flat
  constructor
  · intro h
    by_cases herror : result.isError = true
    · rw [if_pos herror] at h
      refine .inr ⟨errorText result, ?_, h.symm⟩
      unfold errorText
      split
      · decide
      · rename_i hne
        simpa using hne
    · exact .inl (by simpa using herror)
  · rintro (hfine | ⟨text, hne, rfl⟩)
    · rw [hfine]
      rfl
    · rw [ToolResult.error_isError, if_pos rfl, errorText, asText_error,
        if_neg (by simpa using hne)]

/-! ### The visit -/

/-- Nothing that was observed is forgotten. -/
def Remembers (s s' : ToolsManager) : Prop := ∀ o ∈ s.history, o ∈ s'.history

theorem logs_remembers : Logs Remembers fun _ => Remembers where
  trans := fun h h' o ho => h' o (h o ho)
  same := fun h _ ho => h ▸ ho
  note := fun h _ ho => h ▸ List.mem_cons_of_mem _ ho
  out := fun _ _ _ h => h
  complete := fun _ _ h o ho => List.mem_cons_of_mem _ (h o ho)

/-- What the handler has before it reports the result. -/
def takeRecord (s : ToolsManager) (key : ExecutionKey) : ToolsManager :=
  { s with activeExecutions := s.activeExecutions.erase key }

section Visit

variable {s : ToolsManager} {key : ExecutionKey} {ref : RoundRef} {rich : ToolResult}
  {success : Bool} {settled : ToolRound}

/-- The first thing that `finalizePendingTool` does is to settle the call. -/
theorem segmentsAt_finalizePendingTool (hround : s.toolRounds.lookup key.1 = some ref)
    (hsettle : (s.rounds ref).settle key.2 rich success = some settled) :
    (toolsHost.finalizePendingTool key.1 key.2 rich success).run.SegmentsAt Remembers
      (fun _ => Remembers) (s.settleCall ref key.2 rich settled) s := by
  refine Proc.SegmentsAt.run_read ?_
  rw [hround]
  dsimp only
  rw [hsettle]
  exact logs_remembers.afterSettle key.1 key.2 settled _ _ (logs_remembers.refl _)

/-- The first thing the end of an execution does is to settle its call with what is stored of the
result. -/
theorem segmentsAt_executionFinished {result : ToolResult} (hkey : key ∈ s.activeExecutions)
    (hround : s.toolRounds.lookup key.1 = some ref)
    (hwaits : ∃ p ∈ (s.rounds ref).pending, p.id = key.2 ∧ p.complete = false) :
    ∃ settled, (toolsHost.call (.executionFinished key (.ok result))).SegmentsAt Remembers
      (fun _ => Remembers)
      ((takeRecord s key).settleCall ref key.2 (storedResult result) settled) s := by
  obtain ⟨p, hp, hid, hcomplete⟩ := hwaits
  obtain ⟨settled, hsettle⟩ := ToolRound.settle_isSome (storedResult result)
    (!result.isError) hp hid hcomplete
  refine ⟨settled, ?_⟩
  show (if key ∈ s.activeExecutions then _ else _ : Proc ToolsSig Unit).SegmentsAt Remembers _ _ s
  rw [if_pos hkey]
  refine .bind (p := (toolsHost.reportResult key (.ok result)).run) (s := takeRecord s key) ?_
    fun r => logs_remembers.afterReport key r
  show (if result.isError then toolsHost.onToolErrored key (errorText result)
    else toolsHost.onToolCompleted key result : Throws ToolsSig Unit).run.SegmentsAt Remembers _ _
      (takeRecord s key)
  unfold storedResult at hsettle ⊢
  by_cases herror : result.isError = true
  · rw [herror] at hsettle ⊢
    exact segmentsAt_finalizePendingTool hround hsettle
  · rw [Bool.not_eq_true] at herror
    rw [herror] at hsettle ⊢
    exact segmentsAt_finalizePendingTool hround hsettle

end Visit

/-! ### What a history says of a result -/

section Lifecycle

variable {h : List ToolObservation} {ref : RoundRef} {id : String} {result result' : ToolResult}

/-- A call is settled with one result. -/
theorem Lifecycle.settled_eq (hl : Lifecycle h) (hs : .settled ref id result ∈ h)
    (hs' : .settled ref id result' ∈ h) : result = result' := by
  obtain ⟨later, earlier, rfl⟩ := List.append_of_mem hs
  rcases List.mem_append.mp hs' with hlater | hrest
  · obtain ⟨l₁, l₂, rfl⟩ := List.append_of_mem hlater
    have hfollows : Follows (l₂ ++ .settled ref id result :: earlier) (.settled ref id result') :=
      hl l₁ _ _ (by simp)
    exact absurd (List.mem_append_right _ (.head _)) (hfollows.2 result)
  · rcases List.mem_cons.mp hrest with heq | hearlier
    · cases heq
      rfl
    · exact absurd hearlier ((hl _ _ _ rfl).2 result')

/-- The results that are announced are those the calls were settled with. -/
theorem Lifecycle.lookup_completed (hl : Lifecycle h) (hs : .settled ref id result ∈ h)
    {req : String} {results : AList fun _ : String => ToolResult}
    (hc : .completed ref req results ∈ h) : results.lookup id = some result := by
  have hcalled : .called ref id ∈ h := by
    obtain ⟨later, earlier, rfl⟩ := List.append_of_mem hs
    exact List.mem_append_right _ (.tail _ (hl _ _ _ rfl).1)
  have hcompleted := hc
  obtain ⟨later, earlier, rfl⟩ := List.append_of_mem hc
  obtain ⟨-, -, hids, hresults⟩ := hl _ _ _ rfl
  -- nothing is called in a round that was announced
  have hbefore : .called ref id ∈ earlier := by
    rcases List.mem_append.mp hcalled with hlater | hrest
    · obtain ⟨l₁, l₂, rfl⟩ := List.append_of_mem hlater
      have hfollows : Follows (l₂ ++ .completed ref req results :: earlier) (.called ref id) :=
        hl l₁ _ _ (by simp)
      exact absurd (List.mem_append_right _ (.head _)) (hfollows.2 req results)
    · exact mem_old hrest nofun
  have hsome := AList.lookup_isSome.mpr ((hids id).mpr hbefore)
  obtain ⟨stored, hstored⟩ := Option.isSome_iff_exists.mp hsome
  have hsettled : .settled ref id stored ∈ later ++ .completed ref req results :: earlier :=
    List.mem_append_right _ (.tail _ (hresults id stored hstored))
  rw [hstored, hl.settled_eq hs hsettled]

end Lifecycle

/-- **What a tool's future yields for a call that waits is stored, and announced with its round, as
it is exactly where it is no error, or an error that is a single text.** -/
theorem tool_result_stored_iff {c c' : Config ToolsSig} {key : ExecutionKey} {ref : RoundRef}
    {result : ToolResult} (hrun : Reaches (Surroundings.any toolsMachine) (.idle {}) c)
    (hw : c.Waiting) (hkey : key ∈ c.state.activeExecutions)
    (hround : c.state.toolRounds.lookup key.1 = some ref)
    (hwaits : ∃ p ∈ (c.state.rounds ref).pending, p.id = key.2 ∧ p.complete = false)
    (hvisit : Reaches (Surroundings.any toolsMachine)
      ⟨c.state, toolsHost.call (.executionFinished key (.ok result))⟩ c') (hw' : c'.Waiting) :
    (.settled ref key.2 result ∈ c'.state.history ↔ Flat result) ∧
      ∀ req results, .completed ref req results ∈ c'.state.history →
        (results.lookup key.2 = some result ↔ Flat result) := by
  have hmono : ∀ {c₁ c₂ : Config ToolsSig}, Reaches (Surroundings.any toolsMachine) c₁ c₂ →
      Reaches (sparing fun _ => False) c₁ c₂ := fun h =>
    h.mono (fun _ _ _ _ h => h.elim) (fun _ _ _ _ _ h => h.elim) fun _ _ _ _ => trivial
  have hinv : RoundsInv c.state :=
    (rounds_valid fun _ => False).waiting roundsInv_init (hmono hrun) hw
  have hinv' : RoundsInv c'.state := (rounds_valid fun _ => False).waiting_visit
    (e := .executionFinished key (.ok result)) hinv (fun _ h => h.elim) (hmono hvisit) hw'
  obtain ⟨settled, hsegments⟩ := @segmentsAt_executionFinished _ _ _ result hkey hround hwaits
  have hremembers := Reaches.segments (R := Remembers) logs_remembers.refl
    (fun _ _ _ => logs_remembers.trans) logs_remembers.call logs_remembers.body hvisit hsegments hw'
  have hstored : .settled ref key.2 (storedResult result) ∈ c'.state.history :=
    hremembers _ (.head _)
  refine ⟨⟨fun h => ?_, fun h => ?_⟩, fun req results hc => ?_⟩
  · exact (storedResult_eq_iff result).mp (hinv'.lifecycle.settled_eq hstored h)
  · rwa [(storedResult_eq_iff result).mpr h] at hstored
  · rw [hinv'.lifecycle.lookup_completed hstored hc, Option.some.injEq, storedResult_eq_iff]

/-- A tool is executed, and the manager waits for its future. -/
def blockerMoves : List (Move toolsMachine) :=
  [.event (.addTool { object := 0, id := "blocker", safety := .readOnly }),
    .answer ToolsOut.returns, .event (.beginRound "r" [⟨"call_1", "blocker", []⟩]),
    .answer ToolsOut.returns, .answer ToolsOut.returns]

/-- The manager that waits for the future. -/
def blockedTools : ToolsManager := (play toolsMachine 6 blockerMoves (.idle {})).state

theorem reaches_blocked :
    Reaches (Surroundings.any toolsMachine) (.idle {}) (.idle blockedTools) := by
  have hplay : Playable (Surroundings.any toolsMachine) 6 blockerMoves (.idle {}) :=
    ⟨trivial, trivial, trivial, trivial, trivial, trivial⟩
  exact reaches_play hplay

/-- The end of the execution, up to the announcement of the round. -/
def endMoves : List (Move toolsMachine) := [.answer ToolsOut.returns]

theorem tool_result_stored_iff_done :
    ∃ s : ToolsManager, .settled 0 "call_1" (.text "done") ∈ s.history := by
  have hvisit : Playable (Surroundings.any toolsMachine) 6 endMoves
      ⟨blockedTools, toolsHost.call (.executionFinished ("r", "call_1") (.ok (.text "done")))⟩ :=
    ⟨trivial, trivial⟩
  have hkey : (("r", "call_1") : ExecutionKey) ∈ blockedTools.activeExecutions := .head _
  have hstored := tool_result_stored_iff reaches_blocked (.inl rfl) hkey rfl
    ⟨_, .head _, rfl, rfl⟩ (reaches_play hvisit) (.inr ⟨_, _, rfl⟩)
  exact ⟨_, hstored.1.mpr (.inl rfl)⟩

/-- An error of two blocks, with a structured part. -/
def richError : ToolResult where
  content := [.text ⟨"no such file"⟩, .text ⟨"main.cpp"⟩]
  isError := true
  structuredContent := [("code", .str "ENOENT")]

/-- The round of a rich error is announced with one text. -/
theorem rich_error_flattened :
    Reaches (Surroundings.any toolsMachine) (.idle {}) (.idle blockedTools) ∧
      ∃ c : Config ToolsSig, Reaches (Surroundings.any toolsMachine)
        ⟨blockedTools, toolsHost.call (.executionFinished ("r", "call_1") (.ok richError))⟩ c ∧
      (∃ results, .completed 0 "r" results ∈ c.state.history ∧
        results.lookup "call_1" = some (.error "no such file\nmain.cpp")) ∧
      ToolResult.error "no such file\nmain.cpp" ≠ richError := by
  have hvisit : Playable (Surroundings.any toolsMachine) 6 endMoves
      ⟨blockedTools, toolsHost.call (.executionFinished ("r", "call_1") (.ok richError))⟩ :=
    ⟨trivial, trivial⟩
  exact ⟨reaches_blocked, _, reaches_play hvisit, ⟨_, .head _, rfl⟩, by decide⟩

end LLMQore.Tools
