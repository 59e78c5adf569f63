import LLMQore.Clients.Google

/-!
# LLMQore.Clients.GoogleSignatures

The thought signatures of Gemini, and the function calls they come with.

The message keeps a signature on the last thinking block there is when it comes, and
`serializeTurn` puts it on every function call after that block. So the parts fall into
stretches, each of which begins with a thinking block; the signature a call is replayed with is
the last one that came in its stretch, before the call or after it.
-/

namespace LLMQore

open GoogleMessage

/-- A function call of the Gemini API, with its signature, if any. -/
structure GeminiCall where
  name : String
  args : JsonObject
  thoughtSignature : String

/-- The function call of a part. -/
def geminiCall (part : JsonObject) : Option GeminiCall :=
  if part.contains "functionCall" then
    let functionCall := (part.value "functionCall").toObject
    some
      { name := (functionCall.value "name").toString
        args := (functionCall.value "args").toObject
        thoughtSignature := (part.value "thoughtSignature").toString }
  else none

/-- The function calls of the content a message is replayed as. -/
def replayedCalls (m : GoogleMessage) : List GeminiCall :=
  (m.toProviderFormat.value "parts").toArray.filterMap fun part => geminiCall part.toObject

/-! ### What comes with the parts -/

/-- What a part brings, one thing after the other. -/
inductive PartStep where
  | text (text : String)
  | thought (text : String)
  | signature (signature : String)
  | call (c : GeminiCall)

def textSteps (part : JsonObject) : List PartStep :=
  if !part.contains "text" then []
  else
    let text := (part.value "text").toString
    if (part.value "thought").toBool then
      if part.contains "signature" then
        [.thought text, .signature (part.value "signature").toString]
      else [.thought text]
    else [.text text]

def signatureSteps (part : JsonObject) : List PartStep :=
  if part.contains "thoughtSignature" then
    [.signature (part.value "thoughtSignature").toString]
  else []

def partSteps (part : JsonObject) : List PartStep :=
  textSteps part ++ signatureSteps part ++ (geminiCall part).toList.map .call

def PartStep.call? : PartStep → Option GeminiCall
  | .call c => some c
  | _ => none

/-- A stretch of what comes: a thinking block and all that follows it up to the next one. -/
structure Stretch where
  /-- Nothing but thought came since it began. -/
  thinking : Bool
  /-- The last signature that came in it. -/
  signature : String
  /-- The signature with which the stretches before it left off. -/
  before : String

namespace Stretch

def standing (s : Stretch) : String := if s.signature.isEmpty then s.before else s.signature

/-- The stretch after a step, and `none` before the first one. -/
def next : Option Stretch → PartStep → Option Stretch
  | none, .thought _ => some ⟨true, "", ""⟩
  | none, .signature signature => some ⟨true, signature, ""⟩
  | none, _ => none
  | some s, .thought _ => if s.thinking then some s else some ⟨true, "", s.standing⟩
  | some s, .signature signature => some { s with signature }
  | some s, _ => some { s with thinking := false }

/-- The signature that stands where the stretch ends. -/
def closing (s : Stretch) : List PartStep → String
  | [] => s.standing
  | .thought _ :: rest => if s.thinking then s.closing rest else s.standing
  | .signature signature :: rest => { s with signature }.closing rest
  | _ :: rest => { s with thinking := false }.closing rest

end Stretch

/-- Each call has a name, and the signature that stands where its stretch ends. -/
def SignaturesStand : Option Stretch → List PartStep → Prop
  | _, [] => True
  | stretch, .call c :: rest =>
      c.name ≠ "" ∧
        c.thoughtSignature = ((Stretch.next stretch (.call c)).map (·.closing rest)).getD "" ∧
        SignaturesStand (Stretch.next stretch (.call c)) rest
  | stretch, step :: rest => SignaturesStand (Stretch.next stretch step) rest

/-! ### The calls among blocks -/

/-- The calls that blocks are replayed as, after a signature. -/
def callsOf (last : String) : List TurnContent → List GeminiCall
  | [] => []
  | .toolUse c :: rest => ⟨c.name, c.input, last⟩ :: callsOf last rest
  | .thinking c :: rest => callsOf (if c.signature.isEmpty then last else c.signature) rest
  | _ :: rest => callsOf last rest

/-- The signature blocks leave off with. -/
def standingOf (last : String) : List TurnContent → String
  | [] => last
  | .thinking c :: rest => standingOf (if c.signature.isEmpty then last else c.signature) rest
  | _ :: rest => standingOf last rest

theorem callsOf_append (blocks more : List TurnContent) (last : String) :
    callsOf last (blocks ++ more) = callsOf last blocks ++ callsOf (standingOf last blocks) more := by
  induction blocks generalizing last with
  | nil => rfl
  | cons block rest ih =>
      cases block <;> simp [callsOf, standingOf, ih]

theorem standingOf_append (blocks more : List TurnContent) (last : String) :
    standingOf last (blocks ++ more) = standingOf (standingOf last blocks) more := by
  induction blocks generalizing last with
  | nil => rfl
  | cons block rest ih => cases block <;> simp [standingOf, ih]

theorem geminiCall_none {part : JsonObject} (h : part.contains "functionCall" = false) :
    geminiCall part = none := by
  rw [geminiCall, h, if_neg Bool.false_ne_true]

theorem geminiCall_functionCallPart (c : ToolUseContent) (last : String) :
    geminiCall (functionCallPart c last) = some ⟨c.name, c.input, last⟩ := by
  have hempty : last.isEmpty = true → last = "" := String.isEmpty_iff.mp
  have hcall : ∀ call : JsonObject,
      (JsonObject.insert [] "functionCall" (.obj call)).contains "functionCall" = true :=
    fun call => JsonObject.contains_insert [] _ _ rfl
  have hsigned : ∀ (o : JsonObject) (s : String),
      (o.insert "thoughtSignature" (.str s)).contains "functionCall" = o.contains "functionCall" :=
    fun o s => JsonObject.contains_insert_ne o _ (by decide)
  unfold functionCallPart geminiCall
  dsimp only
  split <;> simp_all [JsonObject.ofFields, JsonObject.value_insert]

theorem calls_parts (blocks : List TurnContent) (t : TurnParts) :
    ((blocks.foldl addBlock t).parts.filterMap fun part => geminiCall part.toObject) =
      (t.parts.filterMap fun part => geminiCall part.toObject) ++
        callsOf t.lastThoughtSignature blocks := by
  induction blocks generalizing t with
  | nil => simp [callsOf]
  | cons block rest ih =>
      have hnone : ∀ fields : List (String × JsonValue),
          (∀ f ∈ fields, f.2.isUndefined = false) → (fields.any fun f => f.1 == "functionCall") = false →
            geminiCall (JsonObject.ofFields fields) = none := fun fields hdefined hkeys =>
        geminiCall_none ((JsonObject.contains_ofFields _ hdefined).trans hkeys)
      rw [List.foldl_cons, ih]
      cases block with
      | toolUse c =>
          simp [addBlock, callsOf, geminiCall_functionCallPart]
      | thinking c =>
          by_cases hs : c.signature.isEmpty = true <;>
            simp [addBlock, callsOf, thinkingPart, hs, hnone]
      | text c => simp [addBlock, callsOf, hnone]
      | image c =>
          by_cases hu : c.isUrl = true <;> simp [addBlock, callsOf, imagePart, hu, hnone]
      | audio c => simp [addBlock, callsOf, hnone]
      | _ => rfl

/-- What a message is replayed as, read off its blocks. -/
theorem replayedCalls_eq (m : GoogleMessage) : replayedCalls m = callsOf "" m.currentBlocks := by
  have hparts : (m.toProviderFormat.value "parts").toArray =
      (m.currentBlocks.foldl addBlock {}).parts := by
    simp [toProviderFormat, serializeTurn, JsonObject.ofFields]
  rw [replayedCalls, hparts, calls_parts]
  rfl

/-! ### The blocks a part changes -/

section Blocks

variable {earlier later blocks : List TurnContent}

/-- Nothing in the blocks is thinking. -/
def NoThinking (blocks : List TurnContent) : Prop := ∀ b ∈ blocks, b.isThinking = false

theorem NoThinking.append_singleton (h : NoThinking blocks) {b : TurnContent}
    (hb : b.isThinking = false) : NoThinking (blocks ++ [b]) := by
  intro b' hb'
  rcases List.mem_append.mp hb' with hb' | hb'
  · exact h b' hb'
  · rw [List.mem_singleton.mp hb']
    exact hb

theorem standingOf_noThinking (h : NoThinking blocks) (last : String) :
    standingOf last blocks = last := by
  induction blocks with
  | nil => rfl
  | cons b rest ih =>
      have hrest := ih fun b hb => h b (.tail _ hb)
      cases b with
      | thinking c => cases h (.thinking c) (.head _)
      | _ => exact hrest

theorem modify_length (b : TurnContent) (f : TurnContent → TurnContent) :
    (earlier ++ b :: later).modify earlier.length f = earlier ++ f b :: later := by
  induction earlier with
  | nil => rfl
  | cons b' rest ih => simp [ih]

variable (m : GoogleMessage)

theorem lastThinkingIndex_eq (c : ThinkingContent)
    (hblocks : m.currentBlocks = earlier ++ .thinking c :: later) (hlater : NoThinking later) :
    m.toBaseMessage.lastThinkingIndex = some earlier.length := by
  unfold BaseMessage.lastThinkingIndex
  have hlen : m.currentBlocks.length = earlier.length + 1 + later.length := by
    rw [hblocks]
    simp
    omega
  have hself : m.currentBlocks[earlier.length]? = some (.thinking c) := by simp [hblocks]
  rw [hlen, List.range_add, List.filter_append, List.range_succ, List.filter_append]
  have hafter : ((List.range later.length).map (earlier.length + 1 + ·)).filter
      (fun i => (m.currentBlocks[i]?.map TurnContent.isThinking).getD false) = [] := by
    refine List.filter_eq_nil_iff.mpr fun i hi => ?_
    obtain ⟨k, hk, rfl⟩ := List.mem_map.mp hi
    have hblock : m.currentBlocks[earlier.length + 1 + k]? = later[k]? := by
      rw [hblocks, List.getElem?_append_right (by omega),
        show earlier.length + 1 + k - earlier.length = k + 1 from by omega, List.getElem?_cons_succ]
    rw [hblock, List.getElem?_eq_getElem (List.mem_range.mp hk)]
    simpa using hlater _ (List.getElem_mem _)
  rw [hafter]
  simp [hself, TurnContent.isThinking]

theorem lastThinkingIndex_none (h : NoThinking m.currentBlocks) :
    m.toBaseMessage.lastThinkingIndex = none := by
  unfold BaseMessage.lastThinkingIndex
  rw [List.getLast?_eq_none_iff, List.filter_eq_nil_iff]
  intro i hi
  rw [List.getElem?_eq_getElem (List.mem_range.mp hi)]
  simpa using h _ (List.getElem_mem _)

theorem handleContentDelta_text {init : List TurnContent} {c : TextContent} (text : String)
    (hblocks : m.currentBlocks = init ++ [.text c]) :
    (m.handleContentDelta text).currentBlocks = init ++ [.text ⟨c.text ++ text⟩] := by
  have hlast : m.currentBlocks.getLast?.any TurnContent.isText = true := by
    rw [hblocks, List.getLast?_concat]
    rfl
  unfold handleContentDelta ensureLast
  rw [if_pos hlast]
  simp [change, BaseMessage.changeBlock, hblocks, modify_length, TurnContent.onText]

theorem handleContentDelta_other (text : String)
    (hlast : m.currentBlocks.getLast?.any TurnContent.isText = false) :
    (m.handleContentDelta text).currentBlocks = m.currentBlocks ++ [.text ⟨text⟩] := by
  unfold handleContentDelta ensureLast
  rw [hlast, if_neg Bool.false_ne_true]
  simp [change, BaseMessage.changeBlock, BaseMessage.addCurrentContent, modify_length,
    TurnContent.onText]

theorem handleThoughtDelta_thinking {init : List TurnContent} {c : ThinkingContent} (text : String)
    (hblocks : m.currentBlocks = init ++ [.thinking c]) :
    (m.handleThoughtDelta text).currentBlocks =
      init ++ [.thinking { c with thinking := c.thinking ++ text }] := by
  have hlast : m.currentBlocks.getLast?.any TurnContent.isThinking = true := by
    rw [hblocks, List.getLast?_concat]
    rfl
  unfold handleThoughtDelta ensureLast
  rw [if_pos hlast]
  simp [change, BaseMessage.changeBlock, hblocks, modify_length, TurnContent.onThinking]

theorem handleThoughtDelta_other (text : String)
    (hlast : m.currentBlocks.getLast?.any TurnContent.isThinking = false) :
    (m.handleThoughtDelta text).currentBlocks =
      m.currentBlocks ++ [.thinking { thinking := text }] := by
  unfold handleThoughtDelta ensureLast
  rw [hlast, if_neg Bool.false_ne_true]
  simp [change, BaseMessage.changeBlock, BaseMessage.addCurrentContent, modify_length,
    TurnContent.onThinking]

theorem handleThoughtSignature_thinking {c : ThinkingContent} (signature : String)
    (hblocks : m.currentBlocks = earlier ++ .thinking c :: later) (hlater : NoThinking later) :
    (m.handleThoughtSignature signature).currentBlocks =
      earlier ++ .thinking { c with signature } :: later := by
  unfold handleThoughtSignature
  rw [lastThinkingIndex_eq m c hblocks hlater]
  simp [change, BaseMessage.changeBlock, hblocks, modify_length,
    TurnContent.onThinking]

theorem handleThoughtSignature_none (signature : String) (h : NoThinking m.currentBlocks) :
    (m.handleThoughtSignature signature).currentBlocks =
      m.currentBlocks ++ [.thinking { signature }] := by
  unfold handleThoughtSignature
  rw [lastThinkingIndex_none m h]
  rfl

/-- A text changes nothing about the calls of the blocks it is put behind. -/
theorem handleContentDelta_later (text : String) (hblocks : m.currentBlocks = earlier ++ later)
    (hearlier : earlier.getLast?.any TurnContent.isText = false) (hlater : NoThinking later) :
    ∃ later', (m.handleContentDelta text).currentBlocks = earlier ++ later' ∧ later' ≠ [] ∧
      NoThinking later' ∧ ∀ last, callsOf last later' = callsOf last later := by
  by_cases hlast : m.currentBlocks.getLast?.any TurnContent.isText = true
  · obtain ⟨b, hb, hkind⟩ := Option.any_eq_true _ _ |>.mp hlast
    obtain rfl | ⟨init, b', rfl⟩ := List.eq_nil_or_concat' later
    · rw [hblocks, List.append_nil, hearlier] at hlast
      cases hlast
    · rw [hblocks, ← List.append_assoc, List.getLast?_concat, Option.some.injEq] at hb
      subst hb
      cases b' with
      | text c =>
          refine ⟨init ++ [.text ⟨c.text ++ text⟩], ?_, by simp, ?_, fun last => ?_⟩
          · rw [handleContentDelta_text m text (hblocks.trans (List.append_assoc ..).symm),
              List.append_assoc]
          · exact NoThinking.append_singleton (fun b hb => hlater b (by simp [hb])) rfl
          · simp [callsOf_append, callsOf]
      | _ => cases hkind
  · refine ⟨later ++ [.text ⟨text⟩], ?_, by simp, hlater.append_singleton rfl, fun last => ?_⟩
    · rw [handleContentDelta_other m text (Bool.eq_false_iff.mpr hlast), hblocks, List.append_assoc]
    · simp [callsOf_append, callsOf]

end Blocks

/-! ### The steps of the parts -/

section Run

variable (codec : JsonCodec) (uuid : Nat → String)

/-- What the message does with a step. -/
def applyStep (m : GoogleMessage) : PartStep → GoogleMessage
  | .text text => m.handleContentDelta text
  | .thought text => m.handleThoughtDelta text
  | .signature signature => m.handleThoughtSignature signature
  | .call c =>
      ((m.handleToolCallStart c.name).handleToolCallDelta (codec.toJson c.args)).handleToolCallComplete
        codec uuid

theorem applyText_eq (r : GoogleMessage × MessageEffects) (part : JsonObject) :
    (applyText r part).1 = (textSteps part).foldl (applyStep codec uuid) r.1 := by
  unfold applyText textSteps
  dsimp only
  split
  · rfl
  · split
    · split <;> rfl
    · rfl

/-- A part is what it brings, one thing after the other. -/
theorem applyPart_eq (r : GoogleMessage × MessageEffects) (part : JsonObject) :
    (applyPart codec uuid r part).1 = (partSteps part).foldl (applyStep codec uuid) r.1 := by
  unfold applyPart partSteps signatureSteps applyFunctionCall geminiCall
  dsimp only
  rw [List.foldl_append, List.foldl_append, ← applyText_eq]
  by_cases hsignature : part.contains "thoughtSignature" = true <;>
    by_cases hcall : part.contains "functionCall" = true <;>
      simp [hsignature, hcall, applyStep]

theorem applyParts_eq (parts : List JsonValue) (r : GoogleMessage × MessageEffects) :
    (applyParts codec uuid r parts).1 =
      (parts.flatMap fun part => partSteps part.toObject).foldl (applyStep codec uuid) r.1 := by
  unfold applyParts
  induction parts generalizing r with
  | nil => rfl
  | cons part rest ih =>
      rw [List.foldl_cons, ih, applyPart_eq, List.flatMap_cons, List.foldl_append]

theorem filterMap_call? (part : JsonObject) :
    (partSteps part).filterMap PartStep.call? = (geminiCall part).toList := by
  have htext : (textSteps part).filterMap PartStep.call? = [] := by
    unfold textSteps
    dsimp only
    split
    · rfl
    · split
      · split <;> rfl
      · rfl
  have hsignature : (signatureSteps part).filterMap PartStep.call? = [] := by
    unfold signatureSteps
    split <;> rfl
  rw [partSteps, List.filterMap_append, List.filterMap_append, htext, hsignature]
  cases geminiCall part <;> rfl

/-- The object is read back from the text it is written as. -/
def ReadBack (o : JsonObject) : Prop :=
  codec.toJson o ≠ "" ∧ codec.fromJson (Bytes.ofString (codec.toJson o)) = .object o

/-- What a step makes the message replay: the call, with the signature of its stretch. -/
def stepCalls (stretch : Option Stretch) (rest : List PartStep) : PartStep → List GeminiCall
  | .call c => [⟨c.name, c.args, (stretch.map (·.closing rest)).getD ""⟩]
  | _ => []

/-- The calls that are replayed after steps. -/
def replayOf : Option Stretch → List PartStep → List GeminiCall
  | _, [] => []
  | stretch, step :: rest =>
      stepCalls (Stretch.next stretch step) rest step ++ replayOf (Stretch.next stretch step) rest

/-- The blocks replay these calls once the rest of the steps is through. -/
def StretchRecorded (stretch : Option Stretch) (rest : List PartStep) (blocks : List TurnContent)
    (calls : List GeminiCall) : Prop :=
  match stretch with
  | none => NoThinking blocks ∧ callsOf "" blocks = calls
  | some s => ∃ earlier c later, blocks = earlier ++ .thinking c :: later ∧ NoThinking later ∧
      s.thinking = later.isEmpty ∧ s.signature = c.signature ∧ s.before = standingOf "" earlier ∧
      callsOf "" earlier ++ callsOf (s.closing rest) later = calls

/-- A step the message can take: a call with a name, and arguments that are read back. -/
def Takes (step : PartStep) : Prop :=
  ∀ c, step = .call c → c.name ≠ "" ∧ ReadBack codec c.args

theorem handleToolCall_blocks (m : GoogleMessage) (c : GeminiCall) (hname : c.name ≠ "")
    (hread : ReadBack codec c.args) :
    ∃ id, (applyStep codec uuid m (.call c)).currentBlocks =
      m.currentBlocks ++ [.toolUse ⟨id, c.name, c.args⟩] := by
  refine ⟨uuid m.drawn, ?_⟩
  have hempty : c.name.isEmpty = false := by simpa using hname
  simp [applyStep, handleToolCallStart, handleToolCallDelta, handleToolCallComplete, hempty,
    BaseMessage.addCurrentContent, parseToolArguments, hread.1, hread.2, JsonDocument.toObject]

/-- One step keeps what is recorded, and adds its call. -/
theorem recorded_step {stretch : Option Stretch} {step : PartStep} {rest : List PartStep}
    {m : GoogleMessage} {calls : List GeminiCall}
    (h : StretchRecorded stretch (step :: rest) m.currentBlocks calls) (hstep : Takes codec step) :
    StretchRecorded (Stretch.next stretch step) rest (applyStep codec uuid m step).currentBlocks
      (calls ++ stepCalls (Stretch.next stretch step) rest step) := by
  cases stretch with
  | none =>
      obtain ⟨hblocks, hcalls⟩ := h
      cases step with
      | text text =>
          obtain ⟨later, hlater, -, hno, hsame⟩ :=
            @handleContentDelta_later [] _ m text rfl rfl hblocks
          refine ⟨?_, ?_⟩
          · simpa [applyStep, hlater] using hno
          · simpa [applyStep, hlater, stepCalls, hsame] using hcalls
      | thought text =>
          have hlast : m.currentBlocks.getLast?.any TurnContent.isThinking = false := by
            cases hb : m.currentBlocks.getLast? with
            | none => rfl
            | some b => exact hblocks b (List.mem_of_getLast? hb)
          refine ⟨m.currentBlocks, { thinking := text }, [], ?_, by simp [NoThinking], rfl, rfl, ?_, ?_⟩
          · exact handleThoughtDelta_other m text hlast
          · exact (standingOf_noThinking hblocks "").symm
          · simpa [callsOf, stepCalls] using hcalls
      | signature signature =>
          refine ⟨m.currentBlocks, { signature }, [], ?_, by simp [NoThinking], rfl, rfl, ?_, ?_⟩
          · exact handleThoughtSignature_none m signature hblocks
          · exact (standingOf_noThinking hblocks "").symm
          · simpa [callsOf, stepCalls] using hcalls
      | call c =>
          obtain ⟨hname, hread⟩ := hstep c rfl
          obtain ⟨id, hid⟩ := handleToolCall_blocks codec uuid m c hname hread
          refine ⟨?_, ?_⟩
          · rw [hid]
            exact hblocks.append_singleton rfl
          · rw [hid, callsOf_append, standingOf_noThinking hblocks, hcalls]
            rfl
  | some s =>
      obtain ⟨earlier, c, later, hblocks, hlater, hthinking, hsignature, hbefore, hcalls⟩ := h
      have happ : m.currentBlocks = (earlier ++ [.thinking c]) ++ later := by simp [hblocks]
      cases step with
      | text text =>
          obtain ⟨later', hlater', hne, hno, hsame⟩ :=
            handleContentDelta_later m text happ (by simp [TurnContent.isText]) hlater
          refine ⟨earlier, c, later', by simp [applyStep, hlater'], hno, ?_, hsignature, hbefore, ?_⟩
          · simp [hne]
          · simpa [stepCalls, hsame, Stretch.closing] using hcalls
      | thought text =>
          by_cases hlast : s.thinking = true
          · -- The stretch is still at its thinking block, which the thought goes to.
            have hnil : later = [] := List.isEmpty_iff.mp (hthinking.symm.trans hlast)
            subst hnil
            have hnext : Stretch.next (some s) (.thought text) = some s := if_pos hlast
            rw [hnext]
            refine ⟨earlier, { c with thinking := c.thinking ++ text }, [], ?_, hlater, hthinking,
              hsignature, hbefore, ?_⟩
            · exact handleThoughtDelta_thinking m text hblocks
            · simpa [stepCalls, Stretch.closing, hlast] using hcalls
          · -- Something came after it, so the thought begins a stretch of its own.
            have hnext : Stretch.next (some s) (.thought text) = some ⟨true, "", s.standing⟩ :=
              if_neg hlast
            have hclosing : s.closing (.thought text :: rest) = s.standing := by
              simp [Stretch.closing, hlast]
            have hne : later ≠ [] := by
              rintro rfl
              exact hlast hthinking
            have hother : m.currentBlocks.getLast?.any TurnContent.isThinking = false := by
              rw [happ, List.getLast?_append_of_ne_nil _ hne]
              cases hb : later.getLast? with
              | none => rfl
              | some b => exact hlater b (List.mem_of_getLast? hb)
            have hstanding : standingOf "" m.currentBlocks = s.standing := by
              rw [hblocks, standingOf_append, standingOf, standingOf_noThinking hlater, ← hbefore,
                ← hsignature]
              rfl
            rw [hnext]
            refine ⟨m.currentBlocks, { thinking := text }, [], ?_, by simp [NoThinking], rfl, rfl,
              hstanding.symm, ?_⟩
            · exact handleThoughtDelta_other m text hother
            · rw [hclosing] at hcalls
              have hlast : callsOf s.before (.thinking c :: later) = callsOf s.standing later := by
                rw [callsOf, ← hsignature]
                rfl
              rw [hblocks, callsOf_append, ← hbefore, hlast, hcalls]
              simp [callsOf, stepCalls]
      | signature signature =>
          refine ⟨earlier, { c with signature }, later, ?_, hlater, hthinking, rfl, hbefore, ?_⟩
          · exact handleThoughtSignature_thinking m signature hblocks hlater
          · simpa [stepCalls, Stretch.closing] using hcalls
      | call call =>
          obtain ⟨hname, hread⟩ := hstep call rfl
          obtain ⟨id, hid⟩ := handleToolCall_blocks codec uuid m call hname hread
          refine ⟨earlier, c, later ++ [.toolUse ⟨id, call.name, call.args⟩], ?_,
            hlater.append_singleton rfl, by simp, hsignature, hbefore, ?_⟩
          · rw [hid, hblocks, List.append_assoc, List.cons_append]
          · rw [callsOf_append, standingOf_noThinking hlater, ← hcalls, List.append_assoc]
            rfl

theorem replay_run {stretch : Option Stretch} {steps : List PartStep} {m : GoogleMessage}
    {calls : List GeminiCall} (h : StretchRecorded stretch steps m.currentBlocks calls)
    (hsteps : ∀ step ∈ steps, Takes codec step) :
    callsOf "" (steps.foldl (applyStep codec uuid) m).currentBlocks =
      calls ++ replayOf stretch steps := by
  induction steps generalizing stretch m calls with
  | nil =>
      rw [replayOf, List.append_nil]
      cases stretch with
      | none => exact h.2
      | some s =>
          obtain ⟨earlier, c, later, hblocks, -, -, hsignature, hbefore, hcalls⟩ := h
          rw [List.foldl_nil, hblocks, callsOf_append, callsOf, ← hbefore, ← hsignature, ← hcalls]
          rfl
  | cons step rest ih =>
      rw [List.foldl_cons, replayOf, ← List.append_assoc]
      exact ih (recorded_step codec uuid h (hsteps step (.head _)))
        fun step hstep => hsteps step (.tail _ hstep)

/-! ### Names -/

/-- Every call among the blocks has a name. -/
def Named (blocks : List TurnContent) : Prop := ∀ c ∈ BaseMessage.toolUses blocks, c.name ≠ ""

theorem callsOf_named {blocks : List TurnContent} (h : Named blocks) (last : String) :
    ∀ c ∈ callsOf last blocks, c.name ≠ "" := by
  induction blocks generalizing last with
  | nil => nofun
  | cons b rest ih =>
      have hrest : Named rest := fun c hc => h c <| by
        rw [← List.singleton_append, BaseMessage.toolUses_append]
        exact List.mem_append_right _ hc
      intro c hc
      cases b with
      | toolUse use =>
          rcases List.mem_cons.mp hc with rfl | hc
          · exact h use (.head _)
          · exact ih hrest last c hc
      | _ => exact ih hrest _ c hc

theorem Named.modify {blocks : List TurnContent} (h : Named blocks) (index : Nat)
    {f : TurnContent → TurnContent} (hf : ∀ b, (f b).toolUse? = b.toolUse?) :
    Named (blocks.modify index f) := by
  unfold Named
  rw [BaseMessage.toolUses_modify hf]
  exact h

theorem Named.concat {blocks : List TurnContent} (h : Named blocks) {b : TurnContent}
    (hb : ∀ c, b.toolUse? = some c → c.name ≠ "") : Named (blocks ++ [b]) := by
  intro c hc
  rw [BaseMessage.toolUses_append] at hc
  rcases List.mem_append.mp hc with hc | hc
  · exact h c hc
  · obtain ⟨b', hb', hc'⟩ := List.mem_filterMap.mp hc
    rw [List.mem_singleton.mp hb'] at hc'
    exact hb c hc'

theorem Named.ensureLast {m : GoogleMessage} (h : Named m.currentBlocks) (kind : TurnContent → Bool)
    {fresh : TurnContent} (hfresh : fresh.toolUse? = none) :
    Named (m.ensureLast kind fresh).2.currentBlocks := by
  unfold GoogleMessage.ensureLast
  split
  · exact h
  · exact h.concat fun c hc => nomatch hfresh.symm.trans hc

/-- A call without a name leaves no block behind. -/
theorem named_step {m : GoogleMessage} (h : Named m.currentBlocks) (step : PartStep) :
    Named (applyStep codec uuid m step).currentBlocks := by
  cases step with
  | text text => exact (h.ensureLast _ rfl).modify _ (TurnContent.toolUse?_onText _)
  | thought text => exact (h.ensureLast _ rfl).modify _ (TurnContent.toolUse?_onThinking _)
  | signature signature =>
      unfold applyStep handleThoughtSignature
      dsimp only
      split
      · exact h.modify _ (TurnContent.toolUse?_onThinking _)
      · exact h.concat fun c hc => nomatch hc
  | call c =>
      unfold applyStep handleToolCallComplete
      dsimp only
      split
      · exact h
      · rename_i hname
        refine h.concat fun c hc => ?_
        cases hc
        simpa using hname

theorem named_run {steps : List PartStep} {m : GoogleMessage} (h : Named m.currentBlocks) :
    Named (steps.foldl (applyStep codec uuid) m).currentBlocks := by
  induction steps generalizing m with
  | nil => exact h
  | cons step rest ih => exact ih (named_step codec uuid h step)

theorem SignaturesStand.named {stretch : Option Stretch} {steps : List PartStep}
    (h : SignaturesStand stretch steps) : ∀ c, .call c ∈ steps → c.name ≠ "" := by
  induction steps generalizing stretch with
  | nil => nofun
  | cons step rest ih =>
      intro c hc
      cases step with
      | call call =>
          rcases List.mem_cons.mp hc with hc | hc
          · cases hc
            exact h.1
          · exact ih h.2.2 c hc
      | _ =>
          rcases List.mem_cons.mp hc with hc | hc
          · cases hc
          · exact ih h c hc

theorem replayOf_eq_iff {steps : List PartStep} (stretch : Option Stretch)
    (hnames : ∀ c, .call c ∈ steps → c.name ≠ "") :
    replayOf stretch steps = steps.filterMap PartStep.call? ↔ SignaturesStand stretch steps := by
  induction steps generalizing stretch with
  | nil => simp [replayOf, SignaturesStand]
  | cons step rest ih =>
      have hrest := ih (Stretch.next stretch step) fun c hc => hnames c (.tail _ hc)
      cases step with
      | call c =>
          obtain ⟨name, args, signature⟩ := c
          have hname : name ≠ "" := hnames _ (.head _)
          simp only [replayOf, stepCalls, SignaturesStand, PartStep.call?, List.filterMap_cons,
            List.singleton_append, List.cons.injEq, hrest, GeminiCall.mk.injEq, true_and, ne_eq,
            hname, not_false_eq_true]
          exact and_congr_left' eq_comm
      | _ => exact hrest

/-- **The function calls of a turn are replayed with the signatures they came with exactly where
each call has the signature that stands at the end of its stretch.** -/
theorem signatures_replayed_iff (m : GoogleMessage) (effects : MessageEffects)
    (parts : List JsonValue) (hfresh : m.currentBlocks = [])
    (hread : ∀ part ∈ parts, ∀ c, geminiCall part.toObject = some c → ReadBack codec c.args) :
    replayedCalls (applyParts codec uuid (m, effects) parts).1 =
        parts.filterMap (fun part => geminiCall part.toObject) ↔
      SignaturesStand none (parts.flatMap fun part => partSteps part.toObject) := by
  have hcalls : parts.filterMap (fun part => geminiCall part.toObject) =
      (parts.flatMap fun part => partSteps part.toObject).filterMap PartStep.call? := by
    rw [List.filterMap_flatMap]
    simp only [filterMap_call?]
    rw [List.filterMap_eq_flatMap_toList]
  have hsteps : ∀ c, .call c ∈ (parts.flatMap fun part => partSteps part.toObject) →
      ReadBack codec c.args := by
    intro c hc
    obtain ⟨part, hpart, hc⟩ := List.mem_flatMap.mp hc
    have hsome : c ∈ (partSteps part.toObject).filterMap PartStep.call? :=
      List.mem_filterMap.mpr ⟨_, hc, rfl⟩
    rw [filterMap_call?, Option.mem_toList] at hsome
    exact hread part hpart c hsome
  rw [hcalls, replayedCalls_eq, applyParts_eq]
  generalize (parts.flatMap fun part => partSteps part.toObject) = steps at hsteps ⊢
  by_cases hnames : ∀ c, .call c ∈ steps → c.name ≠ ""
  · have hrecorded : StretchRecorded none steps m.currentBlocks [] := by
      rw [hfresh]
      exact ⟨nofun, rfl⟩
    rw [replay_run codec uuid hrecorded fun step hstep c hc =>
        ⟨hnames c (hc ▸ hstep), hsteps c (hc ▸ hstep)⟩, List.nil_append]
    exact replayOf_eq_iff none hnames
  · refine iff_of_false (fun h => hnames fun c hc => ?_) fun h => hnames h.named
    have hnamed : Named m.currentBlocks := by
      rw [hfresh]
      exact nofun
    refine callsOf_named (named_run codec uuid hnamed : Named (steps.foldl _ m).currentBlocks) "" c ?_
    rw [h]
    exact List.mem_filterMap.mpr ⟨_, hc, rfl⟩

end Run

/-! ### Parallel calls -/

def noArgsText : String := "\x7b\x7d"

/-- A codec that knows the object without fields. -/
def noArgsCodec : JsonCodec where
  fromJson bytes := if bytes = Bytes.ofString noArgsText then .object [] else .null
  toJson _ := noArgsText

def callPart (name : String) : JsonObject :=
  .ofFields [("functionCall", .obj (JsonObject.ofFields [("name", .str name)]))]

def signedCallPart (name signature : String) : JsonObject :=
  (callPart name).insert "thoughtSignature" (.str signature)

/-- Two parallel calls as Gemini sends them: only the first one has a signature. -/
def parallelParts : List JsonValue := [.obj (signedCallPart "a" "s"), .obj (callPart "b")]

/-- A thought after the first call begins a stretch of its own. -/
def thoughtParts : List JsonValue :=
  [.obj (signedCallPart "a" "s"),
    .obj (JsonObject.ofFields [("text", .str "next"), ("thought", .bool true)]),
    .obj (signedCallPart "b" "t")]

theorem signatures_replayed_iff_thought :
    replayedCalls (applyParts noArgsCodec (fun _ => "id") ({}, {}) thoughtParts).1 =
      thoughtParts.filterMap (fun part => geminiCall part.toObject) := by
  refine (signatures_replayed_iff noArgsCodec (fun _ => "id") {} {} thoughtParts rfl ?_).mpr ?_
  · intro part hpart c hc
    have hargs : c.args = [] := by
      simp only [thoughtParts, List.mem_cons, List.not_mem_nil, or_false] at hpart
      rcases hpart with rfl | rfl | rfl <;> cases hc <;> rfl
    rw [hargs]
    exact ⟨by decide, by simp [noArgsCodec]⟩
  · exact ⟨by decide, by decide, by decide, by decide, trivial⟩

/-- The second call is replayed with the signature of the first. -/
theorem signatures_not_replayed :
    replayedCalls (applyParts noArgsCodec (fun _ => "id") ({}, {}) parallelParts).1 ≠
      parallelParts.filterMap (fun part => geminiCall part.toObject) := by
  intro h
  have hsignatures := congrArg (List.map GeminiCall.thoughtSignature) h
  revert hsignatures
  decide

end LLMQore
