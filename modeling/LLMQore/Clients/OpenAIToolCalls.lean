import Mathlib.Data.List.Sort
import LLMQore.Clients.OpenAIStreaming

/-!
# LLMQore.Clients.OpenAIToolCalls

Which calls `OpenAIMessage` makes of the entries of `tool_calls` it is streamed.

`calls` says what the entries mean: an entry starts a call or goes on with the call that is open on
its index. The message starts a call with every id, and keeps what is collected by the index alone,
so a call that is replaced on its index loses its arguments.
-/

namespace LLMQore

namespace OpenAIMessage

/-! ### What the entries mean -/

/-- An entry of `tool_calls` as it is read; without an id the `id` is empty. -/
structure CallDelta where
  index : Int
  id : String
  name : String
  arguments : Option String

def CallDelta.ofJson (toolCall : JsonObject) : CallDelta :=
  let function := (toolCall.value "function").toObject
  { index := (toolCall.value "index").toInt
    id := (toolCall.value "id").toString
    name := (function.value "name").toString
    arguments :=
      if function.contains "arguments" then some (function.value "arguments").toString else none }

/-- A call, and what has come of its arguments. -/
structure Call where
  index : Int
  id : String
  name : String
  arguments : String

/-- The tool use of a call. -/
def Call.toUse (codec : JsonCodec) (call : Call) : ToolUseContent :=
  ⟨call.id, call.name, parseToolArguments codec call.arguments⟩

/-- The call that is open on an index, where the newest call comes first. -/
def openOn (calls : List Call) (index : Int) : Option Call := calls.find? (·.index = index)

/-- An entry starts a call on a free index, or with another id than the call that is open there. -/
def Starts (calls : List Call) (d : CallDelta) : Prop :=
  match openOn calls d.index with
  | none => True
  | some call => d.id ≠ "" ∧ d.id ≠ call.id

instance (calls : List Call) (d : CallDelta) : Decidable (Starts calls d) := by
  unfold Starts
  exact match openOn calls d.index with
    | none => isTrue trivial
    | some call => inferInstanceAs (Decidable (d.id ≠ "" ∧ d.id ≠ call.id))

/-- A fragment goes to the call that is open on its index. -/
def addFragment (index : Int) (fragment : String) : List Call → List Call
  | [] => []
  | call :: older =>
      if call.index = index then { call with arguments := call.arguments ++ fragment } :: older
      else call :: addFragment index fragment older

/-- The calls after an entry, the newest first. -/
def takeDelta (calls : List Call) (d : CallDelta) : List Call :=
  addFragment d.index (d.arguments.getD "")
    (if Starts calls d then ⟨d.index, d.id, d.name, ""⟩ :: calls else calls)

/-- The calls of some entries, the newest first. -/
def callsOf (deltas : List CallDelta) : List Call := deltas.foldl takeDelta []

/-- The entries of an event. -/
def deltasOf (event : JsonObject) : List CallDelta :=
  match errorIn event, (event.value "choices").toArray with
  | none, choice :: _ =>
      (((choice.toObject.value "delta").toObject.value "tool_calls").toArray).map fun toolCall =>
        .ofJson toolCall.toObject
  | _, _ => []

/-- The finish reason of an event. -/
def finishReasonOf (event : JsonObject) : String :=
  match errorIn event, (event.value "choices").toArray with
  | none, choice :: _ => (choice.toObject.value "finish_reason").toString
  | _, _ => ""

/-- The event ends the message. -/
def Finishes (event : JsonObject) : Prop :=
  finishReasonOf event ≠ "" ∧ finishReasonOf event ≠ "null"

instance (event : JsonObject) : Decidable (Finishes event) :=
  inferInstanceAs (Decidable (_ ∧ _))

/-- Every entry has an id exactly where it starts a call. -/
def Marked (calls : List Call) : List CallDelta → Prop
  | [] => True
  | d :: rest => (d.id ≠ "" ↔ Starts calls d) ∧ Marked (takeDelta calls d) rest

instance decidableMarked (calls : List Call) : (deltas : List CallDelta) →
    Decidable (Marked calls deltas)
  | [] => isTrue trivial
  | d :: rest => @instDecidableAnd _ _ _ (decidableMarked (takeDelta calls d) rest)

/-- The entries keep their calls apart: they have ids exactly where they start calls, and a call that
is replaced on its index has no arguments. -/
structure Apart (codec : JsonCodec) (deltas : List CallDelta) : Prop where
  marked : Marked [] deltas
  replaced : (callsOf deltas).Pairwise fun newer older =>
    newer.index = older.index → parseToolArguments codec older.arguments = []

/-! ### The ids of the calls -/

/-- What a fragment leaves of the calls. -/
theorem map_addFragment {α : Type} {f : Call → α}
    (hf : ∀ (call : Call) arguments, f { call with arguments } = f call) (index : Int)
    (fragment : String) (calls : List Call) :
    (addFragment index fragment calls).map f = calls.map f := by
  induction calls with
  | nil => rfl
  | cons call older ih =>
      unfold addFragment
      split
      · rw [List.map_cons, List.map_cons, hf]
      · rw [List.map_cons, List.map_cons, ih]

theorem map_id_takeDelta (calls : List Call) (d : CallDelta) :
    (takeDelta calls d).map Call.id =
      if Starts calls d then d.id :: calls.map Call.id else calls.map Call.id := by
  rw [takeDelta, map_addFragment fun _ _ => rfl]
  split <;> rfl

/-- The ids the message makes blocks of, the newest first. -/
def takeId (ids : List String) (d : CallDelta) : List String :=
  if d.id = "" then ids else d.id :: ids

theorem mem_foldl_takeDelta {id : String} (deltas : List CallDelta) :
    ∀ {calls : List Call}, id ∈ calls.map Call.id →
      id ∈ (deltas.foldl takeDelta calls).map Call.id := by
  induction deltas with
  | nil => exact fun h => h
  | cons d rest ih =>
      intro calls h
      refine ih ?_
      rw [map_id_takeDelta]
      split
      · exact .tail _ h
      · exact h

theorem ne_empty_foldl_takeId (deltas : List CallDelta) :
    ∀ {ids : List String}, "" ∉ ids → "" ∉ deltas.foldl takeId ids := by
  induction deltas with
  | nil => exact fun h => h
  | cons d rest ih =>
      intro ids h
      refine ih ?_
      unfold takeId
      split
      · exact h
      · rename_i hd
        rw [List.mem_cons, not_or]
        exact ⟨fun he => hd he.symm, h⟩

/-- The message starts at least the calls that are to start, and no others only where the entries
are marked. -/
theorem length_takeId {deltas : List CallDelta} :
    ∀ {calls : List Call} {ids : List String}, calls.length ≤ ids.length →
      "" ∉ (deltas.foldl takeDelta calls).map Call.id →
      (deltas.foldl takeDelta calls).length ≤ (deltas.foldl takeId ids).length ∧
        ((deltas.foldl takeDelta calls).length = (deltas.foldl takeId ids).length →
          calls.length = ids.length ∧ Marked calls deltas) := by
  induction deltas with
  | nil => exact fun hle _ => ⟨hle, fun heq => ⟨heq, trivial⟩⟩
  | cons d rest ih =>
      intro calls ids hle hids
      have hlength : (takeDelta calls d).length =
          if Starts calls d then calls.length + 1 else calls.length := by
        rw [← List.length_map (f := Call.id), map_id_takeDelta]
        split <;> simp
      have htaken : (takeId ids d).length = if d.id = "" then ids.length else ids.length + 1 := by
        unfold takeId
        split <;> rfl
      have hstart : Starts calls d → d.id ≠ "" := by
        rintro hd hempty
        refine hids (mem_foldl_takeDelta rest ?_)
        rw [map_id_takeDelta, if_pos hd, hempty]
        exact .head _
      have hnext : (takeDelta calls d).length ≤ (takeId ids d).length := by
        rw [hlength, htaken]
        by_cases hd : Starts calls d
        · rw [if_pos hd, if_neg (hstart hd)]
          omega
        · rw [if_neg hd]
          split <;> omega
      obtain ⟨hrest, hequal⟩ := ih hnext hids
      refine ⟨hrest, fun heq => ?_⟩
      obtain ⟨hsame, hmarked⟩ := hequal heq
      rw [hlength, htaken] at hsame
      by_cases hd : Starts calls d
      · rw [if_pos hd, if_neg (hstart hd)] at hsame
        exact ⟨by omega, ⟨fun _ => hd, hstart⟩, hmarked⟩
      · rw [if_neg hd] at hsame
        split at hsame
        · rename_i hempty
          exact ⟨hsame, ⟨fun hne => absurd hempty hne, fun h => absurd h hd⟩, hmarked⟩
        · omega

/-! ### The tool uses of a message, by their positions -/

def useAt (blocks : List TurnContent) (p : Nat) : Option ToolUseContent :=
  blocks[p]?.bind TurnContent.toolUse?

theorem toolUses_eq_range (blocks : List TurnContent) :
    BaseMessage.toolUses blocks = (List.range blocks.length).filterMap (useAt blocks) := by
  induction blocks using List.reverseRecOn with
  | nil => rfl
  | append_singleton blocks block ih =>
      have hbefore : (List.range blocks.length).filterMap (useAt (blocks ++ [block])) =
          (List.range blocks.length).filterMap (useAt blocks) := by
        refine List.filterMap_congr fun p hp => ?_
        rw [useAt, useAt, List.getElem?_append_left (List.mem_range.mp hp)]
      have hlast : useAt (blocks ++ [block]) blocks.length = block.toolUse? := by simp [useAt]
      rw [BaseMessage.toolUses_append, ih, List.length_append, List.length_singleton,
        List.range_succ, List.filterMap_append, hbefore]
      simp [BaseMessage.toolUses, List.filterMap_cons, hlast]

/-- The tool uses stand at their positions, in order. -/
theorem toolUses_of_positions {blocks : List TurnContent} {positions : List Nat}
    (hsorted : positions.Pairwise (· < ·))
    (h : ∀ p, (useAt blocks p).isSome = true ↔ p ∈ positions) :
    BaseMessage.toolUses blocks = positions.filterMap (useAt blocks) := by
  have hrange : ((List.range blocks.length).filter fun p => (useAt blocks p).isSome) = positions := by
    refine (List.pairwise_lt_range.filter _).eq_of_mem_iff hsorted fun p => ?_
    rw [List.mem_filter, h, List.mem_range, and_iff_right_iff_imp]
    intro hp
    by_contra hlarge
    have hsome := (h p).mpr hp
    rw [useAt, List.getElem?_eq_none (Nat.le_of_not_lt hlarge)] at hsome
    cases hsome
  rw [toolUses_eq_range, ← hrange, List.filterMap_filter]
  refine List.filterMap_congr fun p _ => ?_
  cases useAt blocks p <;> rfl

theorem useAt_concat (blocks : List TurnContent) (content : TurnContent) (p : Nat) :
    useAt (blocks ++ [content]) p =
      if p = blocks.length then content.toolUse? else useAt blocks p := by
  unfold useAt
  split
  · subst p
    simp
  · rename_i hp
    rcases Nat.lt_or_ge p blocks.length with hlt | hge
    · rw [List.getElem?_append_left hlt]
    · rw [List.getElem?_eq_none (by simp; omega), List.getElem?_eq_none hge]

theorem useAt_modify {f : TurnContent → TurnContent} (hf : ∀ b, (f b).toolUse? = b.toolUse?)
    (blocks : List TurnContent) (index p : Nat) :
    useAt (blocks.modify index f) p = useAt blocks p := by
  rw [useAt, useAt, List.getElem?_modify]
  cases blocks[p]? with
  | none => rfl
  | some block =>
      simp only [Option.bind_some]
      split
      · exact hf block
      · rfl

/-- The tool uses stay as they are and where they are. -/
structure KeepsUses (m m' : OpenAIMessage) : Prop where
  toolCalls : m'.toolCalls = m.toolCalls
  uses : ∀ p, useAt m'.currentBlocks p = useAt m.currentBlocks p
  length : m.currentBlocks.length ≤ m'.currentBlocks.length

theorem KeepsUses.trans {m m₁ m₂ : OpenAIMessage} (h : KeepsUses m m₁) (h' : KeepsUses m₁ m₂) :
    KeepsUses m m₂ :=
  ⟨h'.toolCalls.trans h.toolCalls, fun p => (h'.uses p).trans (h.uses p), h.length.trans h'.length⟩

theorem keepsUses_addCurrentContent (m : OpenAIMessage) (content : TurnContent)
    (h : content.toolUse? = none) :
    KeepsUses m { m with toBaseMessage := (m.toBaseMessage.addCurrentContent content).2 } := by
  refine ⟨rfl, fun p => ?_, by simp [BaseMessage.addCurrentContent]⟩
  show useAt (m.currentBlocks ++ [content]) p = _
  rw [useAt_concat, h]
  split
  · subst p
    simp [useAt]
  · rfl

theorem keepsUses_changeBlock (m : OpenAIMessage) (index : Nat) {f : TurnContent → TurnContent}
    (hf : ∀ b, (f b).toolUse? = b.toolUse?) :
    KeepsUses m { m with toBaseMessage := m.toBaseMessage.changeBlock index f } :=
  ⟨rfl, useAt_modify hf _ _, by simp [BaseMessage.changeBlock]⟩

theorem keepsUses_handleContentDelta (m : OpenAIMessage) (content : String) :
    KeepsUses m (m.handleContentDelta content) := by
  have hensure : KeepsUses m { m with toBaseMessage := m.toBaseMessage.ensureTextContentIndex.2 } := by
    unfold BaseMessage.ensureTextContentIndex
    split
    · exact ⟨rfl, fun _ => rfl, Nat.le_refl _⟩
    · exact keepsUses_addCurrentContent m _ rfl
  exact hensure.trans (keepsUses_changeBlock _ _ (TurnContent.toolUse?_onText _))

theorem keepsUses_handleReasoningDelta (m : OpenAIMessage) (reasoning : String) :
    KeepsUses m (m.handleReasoningDelta reasoning) := by
  have hensure :
      KeepsUses m { m with toBaseMessage := m.toBaseMessage.ensureThinkingContentIndex.2 } := by
    unfold BaseMessage.ensureThinkingContentIndex
    split
    · exact ⟨rfl, fun _ => rfl, Nat.le_refl _⟩
    · split
      · exact ⟨rfl, fun _ => rfl, Nat.le_refl _⟩
      · have hadded := keepsUses_addCurrentContent m (.thinking {}) rfl
        exact ⟨rfl, hadded.uses, hadded.length⟩
  exact hensure.trans (keepsUses_changeBlock _ _ (TurnContent.toolUse?_onThinking _))

theorem keepsUses_takeReasoningAndText (m : OpenAIMessage) (source : JsonObject) :
    KeepsUses m (m.takeReasoningAndText source).1 := by
  have hreasoning : KeepsUses m (m.takeReasoning source) := by
    unfold takeReasoning
    dsimp only
    split
    · exact ⟨rfl, fun _ => rfl, Nat.le_refl _⟩
    · exact keepsUses_handleReasoningDelta m _
  refine hreasoning.trans ?_
  unfold takeReasoningAndText
  dsimp only
  split
  · exact ⟨rfl, fun _ => rfl, Nat.le_refl _⟩
  · split
    · exact ⟨rfl, fun _ => rfl, Nat.le_refl _⟩
    · exact keepsUses_handleReasoningDelta _ _

/-! ### The calls of a message -/

/-- A call the message has started, with the index of its block. -/
structure Begun where
  block : Nat
  index : Int
  id : String
  name : String

def openAt (begun : List Begun) (index : Int) : Option Begun := begun.find? (·.index = index)

/-- The message has started these calls, the newest first, and none of them is complete. -/
structure Collects (m : OpenAIMessage) (begun : List Begun) : Prop where
  uses : ∀ p, useAt m.currentBlocks p =
    (begun.find? (·.block = p)).map fun b => ⟨b.id, b.name, []⟩
  ordered : begun.Pairwise fun newer older => older.block < newer.block
  bound : ∀ b ∈ begun, b.block < m.currentBlocks.length
  placed : ∀ index, m.toolCalls.blockIndex.lookup index = (openAt begun index).map (·.block)
  collected : ∀ index, (m.toolCalls.pending.lookup index).isSome = (openAt begun index).isSome

theorem Collects.keeps {m m' : OpenAIMessage} {begun : List Begun} (h : Collects m begun)
    (hkeeps : KeepsUses m m') : Collects m' begun where
  uses p := (hkeeps.uses p).trans (h.uses p)
  ordered := h.ordered
  bound b hb := Nat.lt_of_lt_of_le (h.bound b hb) hkeeps.length
  placed index := hkeeps.toolCalls ▸ h.placed index
  collected index := hkeeps.toolCalls ▸ h.collected index

/-- The message takes an entry. -/
def takeCallDelta (m : OpenAIMessage) (d : CallDelta) : OpenAIMessage :=
  let m := if d.id.isEmpty then m else m.handleToolCallStart d.index d.id d.name
  match d.arguments with
  | some fragment => { m with toolCalls := m.toolCalls.delta d.index fragment }
  | none => m

theorem handleToolCall_eq (m : OpenAIMessage) (toolCall : JsonObject) :
    m.handleToolCall toolCall = m.takeCallDelta (.ofJson toolCall) := by
  unfold handleToolCall takeCallDelta CallDelta.ofJson
  dsimp only
  by_cases hargs : ((toolCall.value "function").toObject.contains "arguments") = true
  · rw [if_pos hargs, if_pos hargs]
  · rw [if_neg hargs, if_neg hargs]

/-- The calls after an entry. -/
def takeBegun (block : Nat) (begun : List Begun) (d : CallDelta) : List Begun :=
  if d.id = "" then begun else ⟨block, d.index, d.id, d.name⟩ :: begun

/-- What is collected under an index after an entry. -/
def takePending (pending : Int → Option String) (d : CallDelta) (index : Int) : Option String :=
  if index = d.index then
    (if d.id = "" then pending index else some "").map (· ++ d.arguments.getD "")
  else pending index

section Step

variable (m : OpenAIMessage) (d : CallDelta)

theorem blocks_takeCallDelta : (m.takeCallDelta d).currentBlocks =
    if d.id = "" then m.currentBlocks else m.currentBlocks ++ [.toolUse ⟨d.id, d.name, []⟩] := by
  have hstart : (if d.id.isEmpty then m else
        m.handleToolCallStart d.index d.id d.name).currentBlocks =
      if d.id = "" then m.currentBlocks
      else m.currentBlocks ++ [.toolUse ⟨d.id, d.name, []⟩] := by
    by_cases hid : d.id = ""
    · simp [hid]
    · simp [hid, handleToolCallStart, BaseMessage.addCurrentContent]
  rw [← hstart]
  unfold takeCallDelta
  cases d.arguments <;> rfl

theorem lookup_blockIndex_takeCallDelta (index : Int) :
    (m.takeCallDelta d).toolCalls.blockIndex.lookup index =
      if d.id ≠ "" ∧ index = d.index then some m.currentBlocks.length
      else m.toolCalls.blockIndex.lookup index := by
  have hstart : (m.takeCallDelta d).toolCalls.blockIndex =
      if d.id = "" then m.toolCalls.blockIndex
      else m.toolCalls.blockIndex.insert d.index m.currentBlocks.length := by
    unfold takeCallDelta
    by_cases hid : d.id = ""
    · cases d.arguments <;> simp [hid]
    · cases d.arguments <;>
        simp [hid, handleToolCallStart, BaseMessage.addCurrentContent, ToolCallAccumulator.start]
  rw [hstart]
  by_cases hid : d.id = ""
  · simp [hid]
  · by_cases hindex : index = d.index
    · subst hindex
      simp [hid]
    · rw [if_neg hid, if_neg (fun h => hindex h.2), AList.lookup_insert_ne hindex]

theorem lookup_pending_takeCallDelta (index : Int) :
    (m.takeCallDelta d).toolCalls.pending.lookup index =
      takePending (m.toolCalls.pending.lookup ·) d index := by
  unfold takeCallDelta takePending
  by_cases hindex : index = d.index
  · subst hindex
    by_cases hid : d.id = "" <;> cases d.arguments <;>
      simp [hid, handleToolCallStart, ToolCallAccumulator.start,
        ToolCallAccumulator.lookup_pending_delta]
  · by_cases hid : d.id = "" <;> cases d.arguments <;>
      simp [hid, hindex, handleToolCallStart, ToolCallAccumulator.start,
        ToolCallAccumulator.lookup_pending_delta, AList.lookup_insert_ne hindex]

variable {m} {begun : List Begun}

/-- The message starts a call with every id. -/
theorem Collects.takeCallDelta (h : Collects m begun) :
    Collects (m.takeCallDelta d) (takeBegun m.currentBlocks.length begun d) := by
  have hpending : ∀ index, ((m.takeCallDelta d).toolCalls.pending.lookup index).isSome =
      if d.id ≠ "" ∧ index = d.index then true
      else (m.toolCalls.pending.lookup index).isSome := by
    intro index
    rw [lookup_pending_takeCallDelta, takePending]
    by_cases hid : d.id = "" <;> by_cases hindex : index = d.index <;> simp [hid, hindex]
  by_cases hid : d.id = ""
  · have hbegun : takeBegun m.currentBlocks.length begun d = begun := if_pos hid
    rw [hbegun]
    refine ⟨fun p => ?_, h.ordered, fun b hb => ?_, fun index => ?_, fun index => ?_⟩
    · rw [blocks_takeCallDelta, if_pos hid, h.uses]
    · rw [blocks_takeCallDelta, if_pos hid]
      exact h.bound b hb
    · rw [lookup_blockIndex_takeCallDelta, if_neg (fun hne => hne.1 hid), h.placed]
    · rw [hpending, if_neg (fun hne => hne.1 hid), h.collected]
  · have hbegun : takeBegun m.currentBlocks.length begun d =
        ⟨m.currentBlocks.length, d.index, d.id, d.name⟩ :: begun := if_neg hid
    rw [hbegun]
    refine ⟨fun p => ?_, ?_, fun b hb => ?_, fun index => ?_, fun index => ?_⟩
    · rw [blocks_takeCallDelta, if_neg hid, useAt_concat, List.find?_cons]
      by_cases hp : p = m.currentBlocks.length
      · simp [hp, TurnContent.toolUse?]
      · rw [if_neg hp, h.uses]
        simp [Ne.symm hp]
    · exact List.pairwise_cons.mpr ⟨fun b hb => h.bound b hb, h.ordered⟩
    · rw [blocks_takeCallDelta, if_neg hid, List.length_append, List.length_singleton]
      rcases List.mem_cons.mp hb with rfl | hb
      · exact Nat.lt_succ_self _
      · exact Nat.lt_succ_of_lt (h.bound b hb)
    · rw [lookup_blockIndex_takeCallDelta, openAt, List.find?_cons]
      by_cases hindex : index = d.index
      · simp [hid, hindex]
      · simpa [openAt, hindex, Ne.symm hindex] using h.placed index
    · rw [hpending, openAt, List.find?_cons]
      by_cases hindex : index = d.index
      · simp [hid, hindex]
      · simpa [openAt, hindex, Ne.symm hindex] using h.collected index

end Step

/-! ### The entries and the calls -/

theorem openOn_addFragment (calls : List Call) (index : Int) (fragment : String) (i : Int) :
    openOn (addFragment index fragment calls) i =
      if i = index then
        (openOn calls i).map fun call => { call with arguments := call.arguments ++ fragment }
      else openOn calls i := by
  induction calls with
  | nil => simp [addFragment, openOn]
  | cons call older ih =>
      unfold openOn at ih ⊢
      unfold addFragment
      by_cases hcall : call.index = index
      · rw [if_pos hcall, List.find?_cons, List.find?_cons]
        by_cases hi : i = index
        · simp [hi, hcall]
        · simp [hi, hcall, Ne.symm hi]
      · rw [if_neg hcall, List.find?_cons, List.find?_cons, ih]
        by_cases hi : i = index
        · subst hi
          simp [hcall]
        · simp [hi]

/-- What sets calls apart. -/
def Call.key (call : Call) : Int × String × String := (call.index, call.id, call.name)
def Begun.key (b : Begun) : Int × String × String := (b.index, b.id, b.name)

theorem marked_concat (deltas : List CallDelta) (d : CallDelta) : ∀ calls : List Call,
    Marked calls (deltas ++ [d]) ↔
      Marked calls deltas ∧ (d.id ≠ "" ↔ Starts (deltas.foldl takeDelta calls) d) := by
  induction deltas with
  | nil => exact fun calls => by simp [Marked]
  | cons first rest ih =>
      intro calls
      rw [List.cons_append, Marked, Marked, ih, List.foldl_cons, and_assoc]

/-- The message has taken the entries: it has started a call with every id, and where the entries
are marked these are the calls, and it has collected the arguments of those that are open. -/
structure Follows (m : OpenAIMessage) (begun : List Begun) (deltas : List CallDelta) : Prop where
  collects : Collects m begun
  ids : begun.map Begun.id = deltas.foldl takeId []
  calls : Marked [] deltas → begun.map Begun.key = (callsOf deltas).map Call.key ∧
    ∀ index, m.toolCalls.pending.lookup index = (openOn (callsOf deltas) index).map Call.arguments

theorem Follows.takeCallDelta {m : OpenAIMessage} {begun : List Begun} {deltas : List CallDelta}
    (h : Follows m begun deltas) (d : CallDelta) :
    Follows (m.takeCallDelta d) (takeBegun m.currentBlocks.length begun d) (deltas ++ [d]) := by
  refine ⟨h.collects.takeCallDelta d, ?_, fun hmarked => ?_⟩
  · rw [List.foldl_append, ← h.ids]
    unfold takeBegun
    by_cases hid : d.id = "" <;> simp [takeId, hid]
  · obtain ⟨hbefore, hstarts⟩ := (marked_concat deltas d []).mp hmarked
    obtain ⟨hkeys, hpending⟩ := h.calls hbefore
    have hcalls : callsOf (deltas ++ [d]) = takeDelta (callsOf deltas) d := by
      rw [callsOf, List.foldl_append]
      rfl
    have hstarts : Starts (callsOf deltas) d ↔ d.id ≠ "" := hstarts.symm
    rw [hcalls]
    constructor
    · rw [takeDelta, map_addFragment fun _ _ => rfl]
      unfold takeBegun
      by_cases hid : d.id = ""
      · rw [if_pos hid, if_neg (fun hs => hstarts.mp hs hid), hkeys]
      · rw [if_neg hid, if_pos (hstarts.mpr hid), List.map_cons, List.map_cons, hkeys]
        rfl
    · intro index
      rw [lookup_pending_takeCallDelta, takePending, takeDelta, openOn_addFragment]
      by_cases hindex : index = d.index
      · rw [if_pos hindex, if_pos hindex]
        by_cases hid : d.id = ""
        · rw [if_pos hid, if_neg (fun hs => hstarts.mp hs hid), hpending]
          simp [Function.comp_def]
        · rw [if_neg hid, if_pos (hstarts.mpr hid)]
          simp [openOn, hindex]
      · rw [if_neg hindex, if_neg hindex, hpending]
        split
        · simp [openOn, Ne.symm hindex]
        · rfl

/-! ### The end of the message -/

theorem Collects.block_inj {m : OpenAIMessage} {begun : List Begun} (h : Collects m begun)
    {b b' : Begun} (hb : b ∈ begun) (hb' : b' ∈ begun) (heq : b.block = b'.block) : b = b' := by
  have hdistinct : (begun.map (·.block)).Nodup :=
    List.pairwise_map.mpr (h.ordered.imp fun hlt => (Nat.ne_of_lt hlt).symm)
  exact List.inj_on_of_nodup_map hdistinct hb hb' heq

theorem openAt_some {begun : List Begun} {index : Int} {b : Begun}
    (h : openAt begun index = some b) : b ∈ begun ∧ b.index = index :=
  ⟨List.mem_of_find?_eq_some h, by simpa using List.find?_some h⟩

/-- The input a call is given at the end of the message: only the newest call on its index has
one. -/
def inputOf (codec : JsonCodec) (m : OpenAIMessage) (begun : List Begun) (b : Begun) : JsonObject :=
  if (openAt begun b.index).map (·.block) = some b.block then
    parseToolArguments codec ((m.toolCalls.pending.lookup b.index).getD "")
  else []

theorem useAt_completed (codec : JsonCodec) (json : String) (block : TurnContent) :
    (ToolCallAccumulator.completed codec json block).toolUse? = block.toolUse?.map fun use =>
      if json.isEmpty then use else { use with input := parseToolArguments codec json } := by
  unfold ToolCallAccumulator.completed
  cases block <;> by_cases hempty : json.isEmpty = true <;>
    simp [hempty, TurnContent.toolUse?, TurnContent.onToolUse]

/-- At its end the message has a tool use for every call it has started. -/
theorem Collects.finish {m : OpenAIMessage} {begun : List Begun} (h : Collects m begun)
    (codec : JsonCodec) (reason : String) :
    (m.finish codec reason).currentToolUseContent =
      begun.reverse.map fun b => ⟨b.id, b.name, inputOf codec m begun b⟩ := by
  let keys := m.toolCalls.pending.keys
  let position := fun key : Int => ((openAt begun key).map (·.block)).getD 0
  let json := fun key : Int => (m.toolCalls.pending.lookup key).getD ""
  have hkey : ∀ key, key ∈ keys ↔ ∃ b, openAt begun key = some b := by
    intro key
    rw [← Option.isSome_iff_exists, ← h.collected, AList.lookup_isSome]
    exact AList.mem_keys.symm
  have hposition : ∀ {key b}, openAt begun key = some b → position key = b.block := by
    intro key b hb
    simp [position, hb]
  obtain ⟨hopen, hother⟩ := ToolCallAccumulator.foldl_complete codec json position keys
    m.toolCalls m.toBaseMessage (m.toolCalls.pending.keys_nodup)
    (List.Nodup.map_on (fun key hmem key' hmem' heq => by
      obtain ⟨b, hb⟩ := (hkey key).mp hmem
      obtain ⟨b', hb'⟩ := (hkey key').mp hmem'
      rw [hposition hb, hposition hb'] at heq
      have hsame := h.block_inj (openAt_some hb).1 (openAt_some hb').1 heq
      rw [← (openAt_some hb).2, ← (openAt_some hb').2, hsame]) (m.toolCalls.pending.keys_nodup))
    (fun key hmem => by
      obtain ⟨b, hb⟩ := (hkey key).mp hmem
      have hsome := h.collected key
      rw [hb, Option.isSome_some, Option.isSome_iff_exists] at hsome
      obtain ⟨collected, hcollected⟩ := hsome
      simp [json, hcollected])
    (fun key hmem => by
      obtain ⟨b, hb⟩ := (hkey key).mp hmem
      rw [h.placed, hb, hposition hb, Option.map_some])
  generalize hfinal : (keys.foldl (fun r key => r.1.complete codec r.2 key "")
    (m.toolCalls, m.toBaseMessage)).2 = final at hopen hother
  have huses : (m.finish codec reason).currentToolUseContent =
      BaseMessage.toolUses final.currentBlocks := by
    rw [← hfinal]
    rfl
  -- a call that is open is completed in its block, and nothing else changes
  have hat : ∀ b ∈ begun, useAt final.currentBlocks b.block =
      some ⟨b.id, b.name, inputOf codec m begun b⟩ := by
    intro b hb
    have hbefore : useAt m.currentBlocks b.block = some ⟨b.id, b.name, []⟩ := by
      rw [h.uses]
      cases hfind : begun.find? (·.block = b.block) with
      | none => exact absurd (List.find?_eq_none.mp hfind b hb) (by simp)
      | some b' =>
          have hblock : b'.block = b.block := by simpa using List.find?_some hfind
          rw [h.block_inj (List.mem_of_find?_eq_some hfind) hb hblock, Option.map_some]
    by_cases hcurrent : (openAt begun b.index).map (·.block) = some b.block
    · obtain ⟨b', hb', hblock⟩ := Option.map_eq_some_iff.mp hcurrent
      have hplace : position b.index = b.block := (hposition hb').trans hblock
      have hcompleted := hopen b.index ((hkey b.index).mpr ⟨b', hb'⟩)
      rw [hplace] at hcompleted
      rw [useAt, hcompleted, inputOf, if_pos hcurrent]
      rw [useAt] at hbefore
      obtain ⟨block, hblock, huse⟩ := Option.bind_eq_some_iff.mp hbefore
      rw [hblock, Option.map_some, Option.bind_some, useAt_completed, huse, Option.map_some]
      split
      · rename_i hempty
        show _ = some (ToolUseContent.mk b.id b.name (parseToolArguments codec (json b.index)))
        rw [parseToolArguments, if_pos hempty]
      · rfl
    · rw [inputOf, if_neg hcurrent, useAt, hother b.block ?_]
      · exact hbefore
      · intro hmem
        obtain ⟨key, hmem, hplace⟩ := List.mem_map.mp hmem
        obtain ⟨b', hb'⟩ := (hkey key).mp hmem
        obtain ⟨hb'mem, hindex⟩ := openAt_some hb'
        have hsame := h.block_inj hb'mem hb ((hposition hb').symm.trans hplace)
        exact hcurrent (by rw [← hsame, hindex, hb', Option.map_some])
  have hsome : ∀ p, (useAt final.currentBlocks p).isSome = true ↔
      p ∈ (begun.map (·.block)).reverse := by
    intro p
    have hkept : (useAt final.currentBlocks p).isSome = (useAt m.currentBlocks p).isSome := by
      by_cases hp : p ∈ keys.map position
      · obtain ⟨key, hmem, rfl⟩ := List.mem_map.mp hp
        rw [useAt, hopen key hmem, useAt]
        cases m.currentBlocks[position key]? with
        | none => rfl
        | some block => simp [useAt_completed]
      · rw [useAt, hother p hp]
        rfl
    rw [hkept, h.uses, Option.isSome_map, List.find?_isSome, List.mem_reverse, List.mem_map]
    simp
  have hsorted : (begun.map (·.block)).reverse.Pairwise (· < ·) := by
    rw [List.pairwise_reverse, List.pairwise_map]
    exact h.ordered
  rw [huses, toolUses_of_positions hsorted hsome, ← List.map_reverse, List.filterMap_map,
    ← List.filterMap_eq_map]
  refine List.filterMap_congr fun b hb => ?_
  exact hat b (List.mem_reverse.mp hb)

/-- Below the calls `newer`, the tool uses are those of the calls exactly where each call that is
replaced has no arguments. -/
theorem uses_eq_iff {m : OpenAIMessage} {codec : JsonCodec} {begun : List Begun}
    {calls : List Call} (hblocks : (begun.map (·.block)).Nodup)
    (hpending : ∀ index, m.toolCalls.pending.lookup index =
      (openOn calls index).map Call.arguments) :
    ∀ (newer older : List Begun) (newer' older' : List Call), begun = newer ++ older →
      calls = newer' ++ older' → newer.map Begun.key = newer'.map Call.key →
      older.map Begun.key = older'.map Call.key →
      (older.map (fun b => ToolUseContent.mk b.id b.name (inputOf codec m begun b)) =
          older'.map (Call.toUse codec) ↔
        (∀ call ∈ older', call.index ∈ newer'.map Call.index →
          parseToolArguments codec call.arguments = []) ∧
        older'.Pairwise fun newer older =>
          newer.index = older.index → parseToolArguments codec older.arguments = []) := by
  intro newer older
  induction older generalizing newer with
  | nil =>
      intro newer' older' _ _ _ hkeys
      have hnil : older' = [] := List.map_eq_nil_iff.mp hkeys.symm
      subst hnil
      simp
  | cons b older ih =>
      intro newer' older' hbegun hcalls hnewer hkeys
      cases older' with
      | nil => cases hkeys
      | cons call older' =>
          obtain ⟨hkey, hrest⟩ := List.cons.inj hkeys
          obtain ⟨hindex, hid, hname⟩ : b.index = call.index ∧ b.id = call.id ∧ b.name = call.name := by
            simpa [Begun.key, Call.key] using hkey
          have hindices : newer.map Begun.index = newer'.map Call.index := by
            have hfst := congrArg (List.map Prod.fst) hnewer
            rwa [List.map_map, List.map_map] at hfst
          have hhead : inputOf codec m begun b = parseToolArguments codec call.arguments ↔
              (call.index ∈ newer'.map Call.index →
                parseToolArguments codec call.arguments = []) := by
            rw [inputOf]
            by_cases htaken : call.index ∈ newer'.map Call.index
            · -- a newer call is open on the index
              have hclosed : (openAt begun b.index).map (·.block) ≠ some b.block := by
                rw [← hindices, ← hindex, List.mem_map] at htaken
                obtain ⟨b₁, hb₁, hsame⟩ := htaken
                intro hopen
                obtain ⟨b₂, hb₂, hblock⟩ := Option.map_eq_some_iff.mp hopen
                rw [openAt, hbegun, List.find?_append] at hb₂
                cases hfind : newer.find? (·.index = b.index) with
                | none => exact absurd (List.find?_eq_none.mp hfind b₁ hb₁) (by simpa using hsame)
                | some b₃ =>
                    rw [hfind, Option.some_or, Option.some.injEq] at hb₂
                    have hmem : b₂ ∈ newer := hb₂ ▸ List.mem_of_find?_eq_some hfind
                    rw [hbegun, List.map_append, List.map_cons] at hblocks
                    have hfresh := (List.nodup_append.mp hblocks).2.2 _
                      (List.mem_map_of_mem hmem) _ (.head _)
                    exact hfresh hblock
              rw [if_neg hclosed]
              exact ⟨fun heq _ => heq.symm, fun h => (h htaken).symm⟩
            · have hnone : ∀ c ∈ newer', ¬(c.index = call.index) := fun c hc he =>
                htaken (he ▸ List.mem_map_of_mem hc)
              have hfree : ∀ b' ∈ newer, ¬(b'.index = b.index) := by
                intro b' hb' he
                have hmem : b'.index ∈ newer.map Begun.index := List.mem_map_of_mem hb'
                rw [hindices, he, hindex] at hmem
                exact htaken hmem
              have hopen : openAt begun b.index = some b := by
                rw [openAt, hbegun, List.find?_append,
                  List.find?_eq_none.mpr (by simpa using hfree)]
                simp
              have hcurrent : openOn calls b.index = some call := by
                rw [openOn, hcalls, List.find?_append, hindex,
                  List.find?_eq_none.mpr (by simpa using hnone)]
                simp
              rw [hopen, Option.map_some, if_pos rfl, hpending, hcurrent]
              simp [htaken]
          have htail := ih (newer ++ [b]) (newer' ++ [call]) older' (by simpa using hbegun)
            (by simpa using hcalls) (by simp [hnewer, hkey]) hrest
          rw [List.map_cons, List.map_cons, List.cons.injEq, htail, List.pairwise_cons]
          have huse : (ToolUseContent.mk b.id b.name (inputOf codec m begun b) =
              call.toUse codec) ↔
                inputOf codec m begun b = parseToolArguments codec call.arguments := by
            rw [Call.toUse, hid, hname, ToolUseContent.mk.injEq]
            simp
          rw [huse, hhead]
          have hmore : ∀ index, index ∈ (newer' ++ [call]).map Call.index ↔
              index ∈ newer'.map Call.index ∨ index = call.index := fun index => by simp
          simp only [hmore, List.mem_cons, forall_eq_or_imp]
          constructor
          · rintro ⟨hcall, hmem, hpairs⟩
            exact ⟨⟨hcall, fun c hc ht => hmem c hc (.inl ht)⟩,
              fun c hc he => hmem c hc (.inr he.symm), hpairs⟩
          · rintro ⟨⟨hcall, hmem⟩, hpair, hpairs⟩
            exact ⟨hcall, fun c hc ht => ht.elim (hmem c hc) fun he => hpair c hc he.symm, hpairs⟩

/-! ### The events -/

/-- A message without blocks and without calls. -/
structure Fresh (m : OpenAIMessage) : Prop where
  blocks : m.currentBlocks = []
  toolCalls : m.toolCalls = {}

theorem Fresh.follows {m : OpenAIMessage} (h : Fresh m) : Follows m [] [] where
  collects :=
    { uses := fun p => by rw [h.blocks]; rfl
      ordered := .nil
      bound := nofun
      placed := fun index => by rw [h.toolCalls]; rfl
      collected := fun index => by rw [h.toolCalls]; rfl }
  ids := rfl
  calls _ := ⟨rfl, fun index => by rw [h.toolCalls]; rfl⟩

theorem Follows.keeps {m m' : OpenAIMessage} {begun : List Begun} {deltas : List CallDelta}
    (h : Follows m begun deltas) (hkeeps : KeepsUses m m') : Follows m' begun deltas where
  collects := h.collects.keeps hkeeps
  ids := h.ids
  calls hmarked := hkeeps.toolCalls ▸ h.calls hmarked

theorem Follows.foldl (more : List CallDelta) :
    ∀ {m : OpenAIMessage} {begun : List Begun} {deltas : List CallDelta}, Follows m begun deltas →
      ∃ begun', Follows (more.foldl OpenAIMessage.takeCallDelta m) begun' (deltas ++ more) := by
  induction more with
  | nil => exact fun h => ⟨_, by rwa [List.append_nil]⟩
  | cons d rest ih =>
      intro m begun deltas h
      obtain ⟨begun', hrest⟩ := ih (h.takeCallDelta d)
      exact ⟨begun', by rwa [List.append_assoc] at hrest⟩

theorem handleToolCalls_eq (m : OpenAIMessage) (toolCalls : List JsonValue) :
    m.handleToolCalls toolCalls =
      (toolCalls.map fun toolCall => CallDelta.ofJson toolCall.toObject).foldl
        OpenAIMessage.takeCallDelta m := by
  rw [handleToolCalls, List.foldl_map]
  simp only [handleToolCall_eq]

/-- An event changes the text, then takes its entries, and then perhaps ends the message. -/
theorem applyEvent_eq (codec : JsonCodec) (m : OpenAIMessage) (event : JsonObject) :
    ∃ m₁, KeepsUses m m₁ ∧
      (¬Finishes event →
        (m.applyEvent codec event).1 = (deltasOf event).foldl OpenAIMessage.takeCallDelta m₁) ∧
      (Finishes event → (m.applyEvent codec event).1 =
        ((deltasOf event).foldl OpenAIMessage.takeCallDelta m₁).finish codec
          (finishReasonOf event)) := by
  unfold applyEvent Finishes finishReasonOf deltasOf
  cases errorIn event with
  | some error => exact ⟨m, ⟨rfl, fun _ => rfl, Nat.le_refl _⟩, fun _ => rfl, fun h => absurd rfl h.1⟩
  | none =>
      cases (event.value "choices").toArray with
      | nil => exact ⟨m, ⟨rfl, fun _ => rfl, Nat.le_refl _⟩, fun _ => rfl, fun h => absurd rfl h.1⟩
      | cons choice rest =>
          dsimp only
          unfold applyChoice
          dsimp only
          generalize (choice.toObject.value "delta").toObject = delta
          generalize (choice.toObject.value "finish_reason").toString = reason
          have hread := keepsUses_takeReasoningAndText m delta
          generalize (m.takeReasoningAndText delta).2 = text
          rw [handleToolCalls_eq]
          refine ⟨if text.isEmpty then (m.takeReasoningAndText delta).1
            else (m.takeReasoningAndText delta).1.handleContentDelta text, ?_,
            fun hopen => ?_, fun hends => ?_⟩
          · split
            · exact hread
            · exact hread.trans (keepsUses_handleContentDelta _ _)
          · rw [if_pos]
            by_contra hreason
            simp only [Bool.or_eq_true, String.isEmpty_iff, decide_eq_true_eq, not_or] at hreason
            exact hopen hreason
          · rw [if_neg]
            simpa using hends

theorem Follows.events (codec : JsonCodec) {events : List JsonObject}
    (hopen : ∀ event ∈ events, ¬Finishes event) :
    ∀ {m : OpenAIMessage} {begun : List Begun} {deltas : List CallDelta}, Follows m begun deltas →
      ∃ begun', Follows (applyEvents (applyEvent codec) m events).1 begun'
        (deltas ++ events.flatMap deltasOf) := by
  induction events with
  | nil => exact fun h => ⟨_, by rwa [List.flatMap_nil, List.append_nil]⟩
  | cons event rest ih =>
      intro m begun deltas h
      obtain ⟨m₁, hkeeps, htaken, -⟩ := applyEvent_eq codec m event
      obtain ⟨begun₁, h₁⟩ := (h.keeps hkeeps).foldl (deltasOf event)
      rw [← htaken (hopen event (.head _))] at h₁
      obtain ⟨begun', h'⟩ := ih (fun event hmem => hopen event (.tail _ hmem)) h₁
      exact ⟨begun', by rwa [List.append_assoc] at h'⟩

/-- **A streamed message has one tool use for every call its entries start, with the arguments that
are for it, exactly where every entry has an id just if it starts a call, and a call that is replaced
on its index has no arguments.** -/
theorem openai_calls_kept_iff (codec : JsonCodec) {m : OpenAIMessage} (hm : Fresh m)
    {events : List JsonObject} {last : JsonObject} (hopen : ∀ event ∈ events, ¬Finishes event)
    (hlast : Finishes last) :
    (applyEvents (applyEvent codec) m (events ++ [last])).1.currentToolUseContent =
        (callsOf ((events ++ [last]).flatMap deltasOf)).reverse.map (Call.toUse codec) ↔
      Apart codec ((events ++ [last]).flatMap deltasOf) := by
  have hdeltas : (events ++ [last]).flatMap deltasOf =
      events.flatMap deltasOf ++ deltasOf last := by simp
  obtain ⟨begun₀, h₀⟩ := hm.follows.events codec hopen
  rw [List.nil_append] at h₀
  have happly : (applyEvents (applyEvent codec) m (events ++ [last])).1 =
      ((applyEvents (applyEvent codec) m events).1.applyEvent codec last).1 := by
    rw [applyEvents_append]
    rfl
  rw [happly]
  generalize (applyEvents (applyEvent codec) m events).1 = m₀ at h₀
  obtain ⟨m₁, hkeeps, -, hfinished⟩ := applyEvent_eq codec m₀ last
  obtain ⟨begun, h⟩ := (h₀.keeps hkeeps).foldl (deltasOf last)
  rw [hfinished hlast, ← hdeltas] at *
  generalize (deltasOf last).foldl OpenAIMessage.takeCallDelta m₁ = m₂ at h
  generalize (events ++ [last]).flatMap deltasOf = deltas at h
  rw [h.collects.finish, List.map_reverse, List.map_reverse, List.reverse_inj]
  have hblocks : (begun.map (·.block)).Nodup :=
    List.pairwise_map.mpr (h.collects.ordered.imp fun hlt => (Nat.ne_of_lt hlt).symm)
  constructor
  · intro huses
    have hids : begun.map Begun.id = (callsOf deltas).map Call.id := by
      have hid := congrArg (List.map ToolUseContent.id) huses
      rwa [List.map_map, List.map_map] at hid
    have hlength : (callsOf deltas).length = (deltas.foldl takeId []).length := by
      rw [← h.ids, hids, List.length_map]
    have hnamed : "" ∉ (callsOf deltas).map Call.id := by
      rw [← hids, h.ids]
      exact ne_empty_foldl_takeId deltas (by simp)
    have hshorter : ([] : List Call).length ≤ ([] : List String).length := Nat.le_refl 0
    have hmarked := ((length_takeId hshorter hnamed).2 hlength).2
    obtain ⟨hkeys, hpending⟩ := h.calls hmarked
    exact ⟨hmarked,
      ((uses_eq_iff hblocks hpending [] begun [] _ rfl rfl rfl hkeys).mp huses).2⟩
  · rintro ⟨hmarked, hreplaced⟩
    obtain ⟨hkeys, hpending⟩ := h.calls hmarked
    exact (uses_eq_iff hblocks hpending [] begun [] _ rfl rfl rfl hkeys).mpr
      ⟨fun _ _ hmem => absurd hmem (by simp), hreplaced⟩

/-- An event that brings one entry of `tool_calls`. -/
def callEvent (index : Int) (id : Option String) (arguments : String) (finishReason : String) :
    JsonObject :=
  JsonObject.ofFields [("choices", .arr [.obj (JsonObject.ofFields
    [("delta", .obj (JsonObject.ofFields [("tool_calls", .arr [.obj (JsonObject.ofFields
      ([("index", .num index),
        ("function", .obj (JsonObject.ofFields
          [("name", .str "look"), ("arguments", .str arguments)]))] ++
        match id with
        | some id => [("id", .str id)]
        | none => []))])])),
      ("finish_reason", .str finishReason)])])]

/-- A reader of two arguments texts, one of them of the empty object. -/
def placeCodec : JsonCodec where
  fromJson text :=
    if text = Bytes.ascii "\x7b\"q\":\"x\"\x7d" then
      .object (JsonObject.ofFields [("q", .str "x")])
    else if text = Bytes.ascii "\x7b\x7d" then .object []
    else .null
  toJson _ := "\x7b\x7d"

/-- Two calls on their own indices, with interleaved fragments. -/
theorem openai_calls_kept_iff_two :
    let events := [callEvent 0 (some "a") "\x7b\"q\"" "", callEvent 1 (some "b") "\x7b" "",
      callEvent 0 none ":\"x\"\x7d" ""]
    let last := callEvent 1 none "\x7d" "tool_calls"
    (applyEvents (applyEvent placeCodec) {} (events ++ [last])).1.currentToolUseContent =
      (callsOf ((events ++ [last]).flatMap deltasOf)).reverse.map (Call.toUse placeCodec) :=
  (openai_calls_kept_iff placeCodec ⟨rfl, rfl⟩ (by decide) (by decide)).mpr
    ⟨by decide, by decide⟩

/-- A call that takes over the index of another one costs that one its arguments. -/
theorem openai_calls_lost :
    let events := [callEvent 0 (some "a") "\x7b\"q\":\"x\"\x7d" ""]
    let last := callEvent 0 (some "b") "\x7b\"q\":\"x\"\x7d" "tool_calls"
    (applyEvents (applyEvent placeCodec) {} (events ++ [last])).1.currentToolUseContent ≠
      (callsOf ((events ++ [last]).flatMap deltasOf)).reverse.map (Call.toUse placeCodec) := by
  decide

end OpenAIMessage

end LLMQore
