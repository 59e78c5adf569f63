import Mathlib.Data.List.Basic
import LLMQore.Clients.OllamaCuts

/-!
# LLMQore.Clients.OllamaToolCalls

The tool calls of a turn of Ollama.

The calls come as `tool_calls`, or as content that is a tool call when the turn ends. The second
kind takes the place of all blocks, the calls of the first kind included. The ids are made from
the names with `QString::arg`, where a name may bring place markers of its own.
-/

namespace LLMQore

open Network Tools

namespace OllamaMessage

/-! ### The ids -/

section Ids

open Text

/-- The number of the markers that the sequence number of a call is put in place of: the name may
have a lower one than the template. -/
def callMarker (name : String) : Nat := (markers (argPieces 0 name.toList)).foldl min 2

/-- The name as it stands in the id of a call. -/
def filledName (name : String) (sequence : Nat) : List Char :=
  fill (callMarker name) (toString sequence).toList (argPieces 0 name.toList)

theorem min?_concat_two (numbers : List Nat) :
    (numbers ++ [2]).min? = some (numbers.foldl min 2) := by
  cases numbers with
  | nil => rfl
  | cons n rest =>
      rw [List.cons_append, List.min?_cons', List.foldl_append, List.foldl_cons, List.foldl_cons,
        List.foldl_nil, List.foldl_assoc, Nat.min_comm]

theorem arg_name (name : String) : arg "call_%1_%2" name = "call_" ++ name ++ "_%2" := by
  have hpieces : argPieces 0 "call_%1_%2".toList =
      [.char 'c', .char 'a', .char 'l', .char 'l', .char '_', .marker 1 ['%', '1'], .char '_',
        .marker 2 ['%', '2']] := by decide
  have hlowest : (markers (argPieces 0 "call_%1_%2".toList)).min? = some 1 := by decide
  apply String.toList_inj.mp
  rw [arg, hlowest, hpieces]
  simp [fill, ArgPiece.filled]

theorem makeToolCallId_toList (m : OllamaMessage) (name : String) :
    (m.makeToolCallId name).toList =
      "call_".toList ++ filledName name m.toolCallSequence ++
        '_' :: (if callMarker name = 2 then (toString m.toolCallSequence).toList else ['%', '2']) := by
  have hpieces : argPieces 0 ("call_" ++ name ++ "_%2").toList =
      "call_".toList.map .char ++ argPieces 0 name.toList ++ [.char '_', .marker 2 ['%', '2']] := by
    have happend : ("call_" ++ name ++ "_%2").toList =
        ['c', 'a', 'l', 'l'] ++ '_' :: (name.toList ++ '_' :: ['%', '2']) := by simp
    rw [happend, argPieces_append (Nat.zero_le _), argPieces_append (Nat.zero_le _)]
    rfl
  have hmarkers : markers ("call_".toList.map .char ++ argPieces 0 name.toList ++
      [.char '_', .marker 2 ['%', '2']]) = markers (argPieces 0 name.toList) ++ [2] := by
    simp [markers, List.filterMap_cons, ArgPiece.number?]
  unfold makeToolCallId
  rw [arg_name, arg, hpieces]
  rw [hmarkers, min?_concat_two]
  simp [fill, filledName, callMarker, ArgPiece.filled, eq_comm]

/-- What stands in an id after its last underscore. -/
def idEnd (name : String) (sequence : Nat) : List Char :=
  if callMarker name = 2 then (toString sequence).toList else ['%', '2']

theorem digit_of_mem {c : Char} {n : Nat} (h : c ∈ (toString n).toList) : c.isDigit = true := by
  have hmem : c ∈ Nat.toDigits 10 n := by rwa [← Nat.toList_repr]
  exact Nat.isDigit_of_mem_toDigits (by decide) (by decide) hmem

theorem underscore_notMem_idEnd (name : String) (sequence : Nat) : '_' ∉ idEnd name sequence := by
  unfold idEnd
  split
  · exact fun h => absurd (digit_of_mem h) (by decide)
  · decide

/-- The last underscore parts a text. -/
theorem append_underscore_inj {x x' y y' : List Char} (hy : '_' ∉ y) (hy' : '_' ∉ y') :
    x ++ '_' :: y = x' ++ '_' :: y' ↔ x = x' ∧ y = y' := by
  refine ⟨fun h => ?_, fun ⟨hx, hy⟩ => by rw [hx, hy]⟩
  rcases List.append_eq_append_iff.mp h with ⟨mid, hx', hmid⟩ | ⟨mid, hx, hmid⟩
  · cases mid with
    | nil => simp_all
    | cons c mid =>
        cases hmid
        exact absurd (by simp) hy
  · cases mid with
    | nil => simp_all
    | cons c mid =>
        cases hmid
        exact absurd (by simp) hy'

/-- Two calls of a message have the same id just where both names have a marker below that of the
template, and become the same with the sequence numbers in their place. -/
theorem makeToolCallId_eq_iff {sequence sequence' : Nat} (h : sequence ≠ sequence')
    (name name' : String) :
    makeToolCallId { toolCallSequence := sequence } name =
        makeToolCallId { toolCallSequence := sequence' } name' ↔
      callMarker name ≠ 2 ∧ callMarker name' ≠ 2 ∧
        filledName name sequence = filledName name' sequence' := by
  have hdigits : (toString sequence).toList ≠ (toString sequence').toList :=
    fun he => h (natRepr_inj (String.toList_inj.mp he))
  have hpercent : ∀ n : Nat, (toString n).toList ≠ ['%', '2'] := fun n he =>
    absurd (digit_of_mem (he ▸ .head _ : '%' ∈ (toString n).toList)) (by decide)
  have hends : idEnd name sequence = idEnd name' sequence' ↔
      callMarker name ≠ 2 ∧ callMarker name' ≠ 2 := by
    unfold idEnd
    by_cases hname : callMarker name = 2 <;> by_cases hname' : callMarker name' = 2
    · rw [if_pos hname, if_pos hname']
      exact iff_of_false hdigits fun hne => hne.1 hname
    · rw [if_pos hname, if_neg hname']
      exact iff_of_false (hpercent _) fun hne => hne.1 hname
    · rw [if_neg hname, if_pos hname']
      exact iff_of_false (hpercent _).symm fun hne => hne.2 hname'
    · rw [if_neg hname, if_neg hname']
      exact iff_of_true rfl ⟨hname, hname'⟩
  rw [← String.toList_inj, makeToolCallId_toList, makeToolCallId_toList]
  dsimp only
  rw [← idEnd, ← idEnd,
    append_underscore_inj (underscore_notMem_idEnd _ _) (underscore_notMem_idEnd _ _), hends,
    List.append_right_inj]
  exact ⟨fun ⟨hfilled, hname, hname'⟩ => ⟨hname, hname', hfilled⟩,
    fun ⟨hname, hname', hfilled⟩ => ⟨hfilled, hname, hname'⟩⟩

end Ids

/-! ### What the lines of a turn bring -/

/-- What a line brings, one thing after the other. -/
inductive TurnItem where
  | content (text : String)
  | call (toolCall : JsonObject)

/-- The name and the arguments of a structured tool call. -/
def calledOf (toolCall : JsonObject) : String × JsonObject :=
  let function := (toolCall.value "function").toObject
  ((function.value "name").toString, (function.value "arguments").toObject)

def TurnItem.call? : TurnItem → Option (String × JsonObject)
  | .content _ => none
  | .call toolCall => some (calledOf toolCall)

def textItems (text : String) : List TurnItem := if text.isEmpty then [] else [.content text]

def lineItems (line : JsonObject) : List TurnItem :=
  if line.contains "message" then
    let message := (line.value "message").toObject
    textItems (message.value "content").toString ++
      (message.value "tool_calls").toArray.map fun toolCall => .call toolCall.toObject
  else if line.contains "response" then textItems (line.value "response").toString
  else []

/-- A line of a turn; the last one is `done`. -/
structure TurnLine (done : Bool) (line : JsonObject) : Prop where
  noError : errorIn line = none
  done : (line.value "done").toBool = done

/-- The fragments the message has content of: a call makes it drop content that is held back, and
what is held back is told by the first fragment. -/
def keep (fragments : List String) : TurnItem → List String
  | .content text => fragments ++ [text]
  | .call _ => if Special (fragments.head?.bind Text.lead) then [] else fragments

/-- The content that is left at the end of a turn. -/
def keptText (items : List TurnItem) : String := String.join (items.foldl keep [])

/-! ### The calls of a message -/

/-- The tool uses that calls become, from a sequence number on. -/
def usesOf (sequence : Nat) (calls : List (String × JsonObject)) : List ToolUseContent :=
  (calls.zipIdx sequence).map fun call =>
    ⟨makeToolCallId { toolCallSequence := call.2 } call.1.1, call.1.1, call.1.2⟩

/-- The message of a turn of which these fragments and calls came. -/
structure Collected (sequence : Nat) (fragments : List String)
    (calls : List (String × JsonObject)) (m : OllamaMessage) : Prop where
  accumulated : m.accumulatedContent = String.join fragments
  nonempty : ∀ fragment ∈ fragments, fragment ≠ ""
  added : m.contentAddedToTextBlock = true ↔
    ∃ first, fragments.head? = some first ∧ ¬Special (Text.lead first)
  uses : m.toBaseMessage.currentToolUseContent = usesOf sequence calls
  sequence : m.toolCallSequence = sequence + calls.length

section Collecting

variable {sequence : Nat} {fragments : List String} {calls : List (String × JsonObject)}
  {m : OllamaMessage}

theorem Collected.thinking (h : Collected sequence fragments calls m) (thinking : String) :
    Collected sequence fragments calls (m.handleThinkingDelta thinking) := by
  unfold handleThinkingDelta
  split
  · exact h
  · exact ⟨h.accumulated, h.nonempty, h.added,
      (BaseMessage.currentToolUseContent_appendThinkingDelta _ _).trans h.uses, h.sequence⟩

theorem lead_join_of_special {first : String} {rest : List String}
    (h : Special (Text.lead first)) :
    Text.lead (String.join (first :: rest)) = Text.lead first := by
  obtain ⟨c, hc⟩ : ∃ c, Text.lead first = some c := by
    rcases h with h | h <;> exact ⟨_, h⟩
  rw [String.join_cons, Text.lead_append_of_some hc, hc]

theorem Collected.content (h : Collected sequence fragments calls m) {text : String}
    (hne : text ≠ "") :
    Collected sequence (fragments ++ [text]) calls (m.handleContentDelta text) := by
  have hjoin : m.accumulatedContent ++ text = String.join (fragments ++ [text]) := by
    rw [h.accumulated, join_snoc]
  have hnonempty : ∀ fragment ∈ fragments ++ [text], fragment ≠ "" := by
    intro fragment hmem
    rcases List.mem_append.mp hmem with hmem | hmem
    · exact h.nonempty fragment hmem
    · rwa [List.mem_singleton.mp hmem]
  have huses : (m.handleContentDelta text).toBaseMessage.currentToolUseContent =
      m.toBaseMessage.currentToolUseContent := by
    unfold handleContentDelta
    dsimp only
    split
    · rfl
    · split
      · exact BaseMessage.currentToolUseContent_setText _ _
      · exact BaseMessage.currentToolUseContent_setText _ _
  have hsequence : (m.handleContentDelta text).toolCallSequence = m.toolCallSequence := by
    unfold handleContentDelta
    dsimp only
    split
    · rfl
    · split <;> rfl
  by_cases hspecial : Special (Text.lead (String.join (fragments ++ [text])))
  · have hheld : m.handleContentDelta text = _ := handleContentDelta_held (by rwa [hjoin])
    refine ⟨by rw [hheld, ← hjoin], hnonempty, ?_, huses.trans h.uses, hsequence.trans h.sequence⟩
    rw [hheld]
    refine h.added.trans ?_
    cases fragments with
    | nil =>
        have htext : Special (Text.lead text) := by simpa [String.join_cons] using hspecial
        simp [htext]
    | cons first rest => simp
  · have hplain : ¬Special (Text.lead (m.accumulatedContent ++ text)) := by rwa [hjoin]
    obtain ⟨haccumulated, hadded, -⟩ := handleContentDelta_plain hplain
    refine ⟨haccumulated.trans hjoin, hnonempty, ?_, huses.trans h.uses,
      hsequence.trans h.sequence⟩
    rw [hadded]
    refine iff_of_true rfl ?_
    cases hall : fragments ++ [text] with
    | nil => simp at hall
    | cons first rest =>
        refine ⟨first, rfl, fun hfirst => hspecial ?_⟩
        rwa [hall, lead_join_of_special hfirst]

theorem usesOf_concat (sequence : Nat) (calls : List (String × JsonObject))
    (call : String × JsonObject) :
    usesOf sequence (calls ++ [call]) = usesOf sequence calls ++
      [⟨makeToolCallId { toolCallSequence := sequence + calls.length } call.1, call.1, call.2⟩] := by
  simp [usesOf, List.zipIdx_append]

theorem Collected.addToolUse (h : Collected sequence fragments calls m)
    (call : String × JsonObject) :
    Collected sequence fragments (calls ++ [call]) (m.addToolUse call.1 call.2) := by
  refine ⟨h.accumulated, h.nonempty, h.added, ?_, ?_⟩
  · have hid : m.makeToolCallId call.1 =
        makeToolCallId { toolCallSequence := sequence + calls.length } call.1 := by
      simp only [makeToolCallId, h.sequence]
    rw [usesOf_concat, ← h.uses, ← hid]
    simp [OllamaMessage.addToolUse, BaseMessage.addCurrentContent,
      BaseMessage.currentToolUseContent, BaseMessage.toolUses, List.filterMap_append,
      TurnContent.toolUse?]
  · show m.toolCallSequence + 1 = _
    rw [h.sequence, List.length_append, List.length_singleton, Nat.add_assoc]

/-- A structured call drops the content that is held back. -/
theorem Collected.call (h : Collected sequence fragments calls m) (toolCall : JsonObject) :
    Collected sequence (keep fragments (.call toolCall)) (calls ++ [calledOf toolCall])
      (m.handleToolCall toolCall) := by
  have hdrops : (!m.contentAddedToTextBlock && !(Text.trimmed m.accumulatedContent).isEmpty) = true ↔
      Special (fragments.head?.bind Text.lead) := by
    rw [Bool.and_eq_true, Bool.not_eq_true', Bool.not_eq_true', Text.trimmed_isEmpty,
      ← Bool.not_eq_true, h.added, h.accumulated, Option.isNone_eq_false_iff]
    cases fragments with
    | nil => exact iff_of_false (fun hlead => absurd hlead.2 (by decide)) (by decide)
    | cons first rest =>
        simp only [List.head?_cons, Option.some.injEq, exists_eq_left', Option.bind_some, not_not]
        refine and_iff_left_of_imp fun hfirst => ?_
        rw [lead_join_of_special hfirst]
        rcases hfirst with hfirst | hfirst <;> simp [hfirst]
  unfold handleToolCall keep
  dsimp only
  by_cases hspecial : Special (fragments.head?.bind Text.lead)
  · rw [if_pos hspecial, if_pos (hdrops.mpr hspecial)]
    have hempty : Collected sequence [] calls { m with accumulatedContent := "" } := by
      refine ⟨rfl, nofun, ?_, h.uses, h.sequence⟩
      have hadded := (Bool.and_eq_true_iff.mp (hdrops.mpr hspecial)).1
      simpa using hadded
    exact hempty.addToolUse (calledOf toolCall)
  · rw [if_neg hspecial, if_neg fun hdrop => hspecial (hdrops.mp hdrop)]
    exact h.addToolUse (calledOf toolCall)

/-- What the message does with an item. -/
def applyItem (m : OllamaMessage) : TurnItem → OllamaMessage
  | .content text => m.handleContentDelta text
  | .call toolCall => m.handleToolCall toolCall

theorem Collected.items (h : Collected sequence fragments calls m) {items : List TurnItem}
    (hitems : ∀ text, .content text ∈ items → text ≠ "") :
    Collected sequence (items.foldl keep fragments) (calls ++ items.filterMap TurnItem.call?)
      (items.foldl applyItem m) := by
  induction items generalizing fragments calls m with
  | nil => simpa using h
  | cons item rest ih =>
      have hrest : ∀ text, .content text ∈ rest → text ≠ "" :=
        fun text hmem => hitems text (.tail _ hmem)
      cases item with
      | content text =>
          have hcontent := ih (h.content (hitems text (.head _))) hrest
          rwa [List.foldl_cons, List.foldl_cons, List.filterMap_cons_none rfl, applyItem, keep]
      | call toolCall =>
          have hcall := ih (h.call toolCall) hrest
          rw [List.append_assoc, List.singleton_append] at hcall
          rwa [List.foldl_cons, List.foldl_cons, List.filterMap_cons_some (f := TurnItem.call?) rfl,
            applyItem]

theorem content_mem_lineItems {line : JsonObject} {text : String}
    (h : .content text ∈ lineItems line) : text ≠ "" := by
  have htext : ∀ s : String, .content text ∈ textItems s → text ≠ "" := by
    intro s hs
    unfold textItems at hs
    split at hs
    · cases hs
    · rename_i hne
      obtain rfl : text = s := by simpa using hs
      simpa using hne
  unfold lineItems at h
  dsimp only at h
  split at h
  · rcases List.mem_append.mp h with h | h
    · exact htext _ h
    · obtain ⟨toolCall, -, he⟩ := List.mem_map.mp h
      cases he
  · split at h
    · exact htext _ h
    · cases h

theorem applyItems_text (m : OllamaMessage) (text : String) :
    (textItems text).foldl applyItem m = if text.isEmpty then m else m.handleContentDelta text := by
  unfold textItems
  by_cases hempty : text.isEmpty = true
  · rw [if_pos hempty, if_pos hempty, List.foldl_nil]
  · rw [if_neg hempty, if_neg hempty, List.foldl_cons, List.foldl_nil, applyItem]

theorem Collected.line (h : Collected sequence fragments calls m) (line : JsonObject) :
    Collected sequence ((lineItems line).foldl keep fragments)
      (calls ++ (lineItems line).filterMap TurnItem.call?) (m.applyContent line).1 := by
  unfold applyContent
  dsimp only
  have hcontents : ∀ text, .content text ∈ lineItems line → text ≠ "" :=
    fun _ hmem => content_mem_lineItems hmem
  by_cases hmessage : line.contains "message" = true
  · have hitems := (h.thinking ((line.value "message").toObject.value "thinking").toString).items
      hcontents
    rw [if_pos hmessage]
    convert hitems using 1
    rw [lineItems, if_pos hmessage, List.foldl_append, applyItems_text, List.foldl_map]
    split
    · rfl
    · rfl
  · rw [if_neg hmessage]
    have hitems := h.items hcontents
    by_cases hresponse : line.contains "response" = true
    · rw [if_pos hresponse]
      convert hitems using 1
      rw [lineItems, if_neg hmessage, if_pos hresponse, applyItems_text]
    · rw [if_neg hresponse]
      convert hitems using 1
      rw [lineItems, if_neg hmessage, if_neg hresponse]
      rfl

end Collecting

/-! ### The end of a turn -/

section Turn

variable (codec : JsonCodec) {sequence : Nat} {fragments : List String}
  {calls : List (String × JsonObject)} {m : OllamaMessage}

theorem Collected.event (h : Collected sequence fragments calls m) {line : JsonObject}
    (hline : TurnLine false line) :
    Collected sequence ((lineItems line).foldl keep fragments)
      (calls ++ (lineItems line).filterMap TurnItem.call?) (m.applyEvent codec line).1 := by
  unfold applyEvent
  rw [hline.noError]
  dsimp only
  rw [hline.done]
  exact (h.thinking _).line line

theorem Collected.events (h : Collected sequence fragments calls m) {lines : List JsonObject}
    (hlines : ∀ line ∈ lines, TurnLine false line) :
    Collected sequence ((lines.flatMap lineItems).foldl keep fragments)
      (calls ++ (lines.flatMap lineItems).filterMap TurnItem.call?)
      (applyEvents (applyEvent codec) m lines).1 := by
  induction lines generalizing fragments calls m with
  | nil => simpa [applyEvents] using h
  | cons line rest ih =>
      rw [List.flatMap_cons, List.foldl_append, List.filterMap_append, ← List.append_assoc]
      exact ih (h.event codec (hlines line (.head _))) fun line hmem => hlines line (.tail _ hmem)

theorem Collected.thinkingComplete (h : Collected sequence fragments calls m)
    (signature : String) :
    Collected sequence fragments calls (m.handleThinkingComplete signature) := by
  unfold handleThinkingComplete
  split
  · exact h
  · refine ⟨h.accumulated, h.nonempty, h.added, ?_, h.sequence⟩
    exact (BaseMessage.toolUses_modify (TurnContent.toolUse?_onThinking _) _ _).trans h.uses

theorem releaseContent_uses (m : OllamaMessage) :
    m.releaseContent.toBaseMessage.currentToolUseContent =
      m.toBaseMessage.currentToolUseContent := by
  unfold releaseContent
  dsimp only
  split
  · rfl
  · split
    · refine BaseMessage.toolUses_keepBlocks (fun b hb => ?_) _ _
      cases b <;> first | rfl | cases hb
    · exact BaseMessage.currentToolUseContent_setText _ _

/-- The tool uses at the end of a turn: the calls that came, or the one that is written in what is
left of the content. -/
theorem Collected.done (h : Collected sequence fragments calls m) {last : JsonObject}
    (hlast : TurnLine true last) :
    (m.applyEvent codec last).1.toBaseMessage.currentToolUseContent =
      let calls := calls ++ (lineItems last).filterMap TurnItem.call?
      match legacyToolCall codec (String.join ((lineItems last).foldl keep fragments)) with
      | some call =>
          [⟨makeToolCallId { toolCallSequence := sequence + calls.length } call.1, call.1, call.2⟩]
      | none => usesOf sequence calls := by
  have hcollected : ∃ m', Collected sequence ((lineItems last).foldl keep fragments)
      (calls ++ (lineItems last).filterMap TurnItem.call?) m' ∧
        (m.applyEvent codec last).1 = m'.handleStopReason codec
          (last.value "done_reason").toString := by
    have hcontent := (h.thinking (last.value "thinking").toString).line last
    unfold applyEvent
    rw [hlast.noError]
    dsimp only
    rw [hlast.done, if_pos rfl]
    unfold applyDone
    dsimp only
    split
    · exact ⟨_, hcontent.thinkingComplete _, rfl⟩
    · exact ⟨_, hcontent, rfl⟩
  obtain ⟨m', hm', he⟩ := hcollected
  rw [he, handleStopReason, hm'.accumulated]
  generalize (lineItems last).foldl keep fragments = fragments' at hm' ⊢
  generalize calls ++ (lineItems last).filterMap TurnItem.call? = calls' at hm' ⊢
  cases legacyToolCall codec (String.join fragments') with
  | some call =>
      have hid : m'.makeToolCallId call.1 =
          makeToolCallId { toolCallSequence := sequence + calls'.length } call.1 := by
        simp only [makeToolCallId, hm'.sequence]
      dsimp only
      rw [← hid]
      rfl
  | none => exact (releaseContent_uses m').trans hm'.uses

end Turn

/-- No two of the names of a turn bring markers of a number below that of the template, and become
the same once the sequence numbers are put in their place. -/
def NamesApart (sequence : Nat) (names : List String) : Prop :=
  (names.zipIdx sequence).Pairwise fun a b =>
    ¬(callMarker a.1 ≠ 2 ∧ callMarker b.1 ≠ 2 ∧ filledName a.1 a.2 = filledName b.1 b.2)

instance (sequence : Nat) (names : List String) : Decidable (NamesApart sequence names) :=
  inferInstanceAs (Decidable (List.Pairwise _ _))

theorem pairwise_sequence {α : Type} (xs : List α) (sequence : Nat) :
    (xs.zipIdx sequence).Pairwise fun a b => a.2 < b.2 := by
  induction xs generalizing sequence with
  | nil => exact .nil
  | cons x rest ih =>
      refine .cons (fun b hb => ?_) (ih _)
      have hle := List.le_snd_of_mem_zipIdx hb
      exact hle

theorem usesOf_ids_nodup (sequence : Nat) (calls : List (String × JsonObject)) :
    ((usesOf sequence calls).map ToolUseContent.id).Nodup ↔
      NamesApart sequence (calls.map Prod.fst) := by
  have hids : (usesOf sequence calls).map ToolUseContent.id =
      ((calls.map Prod.fst).zipIdx sequence).map fun name =>
        makeToolCallId { toolCallSequence := name.2 } name.1 := by
    simp only [usesOf, List.map_map, List.zipIdx_map, Function.comp_def, Prod.map, id]
  rw [hids, List.Nodup, List.pairwise_map, NamesApart]
  refine ⟨fun h => ?_, fun h => ?_⟩
  · refine (h.and (pairwise_sequence _ _)).imp fun hpair hsame => hpair.1 ?_
    exact (makeToolCallId_eq_iff (Nat.ne_of_lt hpair.2) _ _).mpr hsame
  · refine (h.and (pairwise_sequence _ _)).imp fun hpair hid => hpair.1 ?_
    exact (makeToolCallId_eq_iff (Nat.ne_of_lt hpair.2) _ _).mp hid

theorem usesOf_calls (sequence : Nat) (calls : List (String × JsonObject)) :
    (usesOf sequence calls).map (fun use => (use.name, use.input)) = calls := by
  rw [usesOf, List.map_map]
  exact List.zipIdx_map_fst sequence calls

end OllamaMessage

open OllamaMessage

/-- **The structured tool calls of an Ollama turn are all there when it is done, in order and with
ids of their own, exactly where what is left of the content is no tool call but the one that came,
and no two names get in the way of the ids.** -/
theorem ollama_calls_kept_iff (codec : JsonCodec) (sequence : Nat) {lines : List JsonObject}
    {last : JsonObject} (hlines : ∀ line ∈ lines, TurnLine false line)
    (hlast : TurnLine true last) :
    let m := (applyEvents (applyEvent codec) { toolCallSequence := sequence }
      (lines ++ [last])).1
    let uses := m.toBaseMessage.currentToolUseContent
    let items := (lines ++ [last]).flatMap lineItems
    let calls := items.filterMap TurnItem.call?
    (calls.Sublist (uses.map fun use => (use.name, use.input)) ∧
        (uses.map ToolUseContent.id).Nodup) ↔
      match legacyToolCall codec (keptText items) with
      | some call => calls.Sublist [call]
      | none => NamesApart sequence (calls.map Prod.fst) := by
  have hfresh : Collected sequence [] [] { toolCallSequence := sequence } :=
    ⟨rfl, nofun, by simp, rfl, rfl⟩
  have huses := (hfresh.events codec hlines).done codec hlast
  rw [List.nil_append] at huses
  dsimp only at huses ⊢
  rw [applyEvents_append]
  dsimp only [applyEvents]
  rw [huses, List.flatMap_append, List.flatMap_singleton, List.filterMap_append, keptText,
    List.foldl_append]
  generalize (lineItems last).foldl keep _ = fragments
  generalize (lines.flatMap lineItems).filterMap TurnItem.call? ++ _ = calls
  cases legacyToolCall codec (String.join fragments) with
  | some call => simp
  | none =>
      dsimp only
      rw [usesOf_calls, usesOf_ids_nodup]
      exact and_iff_right (List.Sublist.refl calls)

def callLine (name : String) : JsonObject :=
  .ofFields
    [("message", .obj (JsonObject.ofFields
      [("tool_calls", .arr [.obj (JsonObject.ofFields
        [("function", .obj (JsonObject.ofFields
          [("name", .str name), ("arguments", .obj [])]))])])])),
      ("done", .bool false)]

/-- A tool call as content. -/
def writtenCall : String := "\x7b\"name\":\"b\",\"arguments\":\x7b\x7d\x7d"

/-- A codec that reads this one text. -/
def writtenCodec : JsonCodec where
  fromJson bytes :=
    if bytes = Bytes.ofString writtenCall then
      .object (JsonObject.ofFields [("name", .str "b"), ("arguments", .obj [])])
    else .null
  toJson _ := ""

/-- Two calls, and text between them. -/
theorem ollama_calls_kept_iff_two :
    let m := (applyEvents (applyEvent writtenCodec) {}
      [callLine "a", chatLine "Hi" false, callLine "a", chatLine "" true]).1
    let uses := m.toBaseMessage.currentToolUseContent
    [("a", ([] : JsonObject)), ("a", [])].Sublist (uses.map fun use => (use.name, use.input)) ∧
      (uses.map ToolUseContent.id).Nodup := by
  have hlines : ∀ line ∈ [callLine "a", chatLine "Hi" false, callLine "a"],
      TurnLine false line := by
    simp only [List.forall_mem_cons]
    exact ⟨⟨rfl, rfl⟩, ⟨rfl, rfl⟩, ⟨rfl, rfl⟩, nofun⟩
  have hdone : TurnLine true (chatLine "" true) := ⟨rfl, rfl⟩
  have hcall : legacyToolCall writtenCodec "Hi" = none := by decide
  refine (ollama_calls_kept_iff writtenCodec 0 hlines hdone).mpr ?_
  show match legacyToolCall writtenCodec "Hi" with
    | some call => [("a", ([] : JsonObject)), ("a", [])].Sublist [call]
    | none => NamesApart 0 ["a", "a"]
  rw [hcall]
  decide

/-- A structured call is lost when the content of the turn is a tool call. -/
theorem ollama_calls_lost :
    let lines := [callLine "a", chatLine writtenCall false, chatLine "" true]
    let m := (applyEvents (applyEvent writtenCodec) {} lines).1
    let uses := m.toBaseMessage.currentToolUseContent
    let calls := (lines.flatMap lineItems).filterMap TurnItem.call?
    calls = [("a", [])] ∧ uses.map ToolUseContent.name = ["b"] ∧
      ¬calls.Sublist (uses.map fun use => (use.name, use.input)) := by
  decide

end LLMQore
