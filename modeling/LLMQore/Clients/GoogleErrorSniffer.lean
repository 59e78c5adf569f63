import Mathlib.Data.List.TakeWhile
import LLMQore.Clients.Google
import LLMQore.Core.Undisturbed
import LLMQore.Network.SSEChunking

/-!
# LLMQore.Clients.GoogleErrorSniffer

The sniffer of `GoogleAIClient`, which looks for an error body in front of the parser of events.

The sniffer belongs to the request and not to the turn. Once it has seen the first byte of a stream
of events it sleeps for the rest of the request, and an error body that answers a continuation goes
to the parser, which makes nothing of it.
-/

namespace LLMQore

open Reentrant Network Streaming Tools

namespace GoogleAIClient

/-! ### White space -/

/-- The first byte that is not white space. -/
def lead (bytes : Bytes) : Option UInt8 := bytes.find? fun b => !Bytes.isSpace b

theorem head?_trimmed (bytes : Bytes) : bytes.trimmed.head? = lead bytes := by
  have hdrop : lead bytes = (bytes.dropWhile Bytes.isSpace).head? := by
    unfold lead
    induction bytes with
    | nil => rfl
    | cons b rest ih => by_cases hb : Bytes.isSpace b = true <;> simp [hb, ih]
  rw [hdrop, Bytes.trimmed]
  cases hrest : bytes.dropWhile Bytes.isSpace with
  | nil => rfl
  | cons b rest =>
      have hb : Bytes.isSpace b = false := by
        have hnot := List.head?_dropWhile_not Bytes.isSpace bytes
        simpa [hrest] using hnot
      rw [List.reverse_cons, List.dropWhile_append]
      split <;> simp [hb]

theorem trimmed_eq_nil_iff (bytes : Bytes) : bytes.trimmed = [] ↔ lead bytes = none := by
  rw [← head?_trimmed, List.head?_eq_none_iff]

theorem lead_append (bytes more : Bytes) : lead (bytes ++ more) = (lead bytes).or (lead more) := by
  simp [lead, List.find?_append]

/-- White space before a text is trimmed. -/
theorem trimmed_append {blank : Bytes} (h : lead blank = none) (bytes : Bytes) :
    (blank ++ bytes).trimmed = bytes.trimmed := by
  have hblank : ∀ b ∈ blank, Bytes.isSpace b = true := by simpa [lead] using h
  rw [Bytes.trimmed, Bytes.trimmed, List.dropWhile_append_of_pos hblank]

/-- What does not change the text between white space is white space. -/
theorem lead_of_trimmed_append {bytes more : Bytes} (hbytes : lead bytes ≠ none)
    (h : bytes.trimmed = (bytes ++ more).trimmed) : lead more = none := by
  by_contra hmore
  have hdrop : (bytes ++ more).dropWhile Bytes.isSpace =
      bytes.dropWhile Bytes.isSpace ++ more := by
    have hne : bytes.dropWhile Bytes.isSpace ≠ [] := by
      intro hnil
      exact hbytes (by simpa [lead] using List.dropWhile_eq_nil_iff.mp hnil)
    rw [List.dropWhile_append]
    simp [hne]
  have hend : (bytes ++ more).trimmed.length > (bytes.dropWhile Bytes.isSpace).length := by
    have hne : more.reverse.dropWhile Bytes.isSpace ≠ [] := by
      intro hnil
      exact hmore (by simpa [lead] using List.dropWhile_eq_nil_iff.mp hnil)
    rw [Bytes.trimmed, hdrop, List.reverse_append, List.dropWhile_append]
    have hpos := List.length_pos_iff.mpr hne
    simp only [List.isEmpty_iff, hne, if_false, List.length_reverse, List.length_append]
    omega
  have hle : bytes.trimmed.length ≤ (bytes.dropWhile Bytes.isSpace).length := by
    rw [Bytes.trimmed, List.length_reverse]
    exact (List.dropWhile_sublist _).length_le.trans_eq (List.length_reverse ..)
  rw [h] at hle
  omega

/-! ### Bytes without data -/

/-- No line begins with the first letter of the field `data`. -/
def Dataless (p : SSEParser) (bytes : Bytes) : Prop :=
  ∀ line ∈ p.linesFrom bytes, line.head? ≠ some 0x64

theorem processLine_dataless {p : SSEParser} {line : Bytes} (hdata : p.current.data = [])
    (hline : line.head? ≠ some 0x64) :
    (p.processLine line).2 = [] ∧ (p.processLine line).1.current.data = [] := by
  have hfield : (SSEParser.splitField line).1 ≠ Bytes.ascii "data" := by
    intro he
    refine hline ?_
    have hhead : ((SSEParser.splitField line).1).head? = some 0x64 := by
      rw [he]
      decide
    unfold SSEParser.splitField at hhead
    split at hhead
    · rw [List.head?_take] at hhead
      split at hhead
      · cases hhead
      · exact hhead
    · exact hhead
  unfold SSEParser.processLine
  split
  · simp [SSEParser.dispatch, hdata]
  · split
    · exact ⟨rfl, hdata⟩
    · refine ⟨rfl, ?_⟩
      unfold SSEParser.processField
      rw [if_neg hfield]
      split
      · exact hdata
      · split
        · split <;> exact hdata
        · split
          · unfold SSEParser.setRetry
            split <;> exact hdata
          · exact hdata

theorem splitLines_line {bytes : Bytes} (h : ∀ c ∈ bytes, c ≠ Bytes.lf ∧ c ≠ Bytes.cr) :
    splitLines bytes = [bytes] := by
  induction bytes with
  | nil => rfl
  | cons c rest ih =>
      obtain ⟨hlf, hcr⟩ := h c (.head _)
      have hrest := ih fun c hc => h c (.tail _ hc)
      obtain ⟨line, lines, hline, hlines⟩ := splitLines_cons hlf hcr rest
      rw [hrest] at hline
      cases hline
      exact hlines

/-- A single line begins as its bytes do. -/
theorem dataless_line {bytes : Bytes} (h : ∀ c ∈ bytes, c ≠ Bytes.lf ∧ c ≠ Bytes.cr)
    (hhead : bytes.head? ≠ some 0x64) : Dataless {} bytes := by
  have hlines : ({} : SSEParser).linesFrom bytes = [bytes] :=
    SSEParser.linesFrom_eq (p := {}) (splitLines_line h)
  intro line hline
  rw [hlines] at hline
  obtain rfl := List.mem_singleton.mp hline
  exact hhead

theorem Dataless.buffer {p : SSEParser} {bytes : Bytes} (h : Dataless p bytes) :
    p.buffer.head? ≠ some 0x64 := by
  obtain ⟨l, ls, hl⟩ := List.exists_cons_of_ne_nil (splitLines_ne_nil
    (if p.skipLineFeed = true ∧ bytes.head? = some Bytes.lf then bytes.tail else bytes))
  have hline := h (p.buffer ++ l) (by rw [SSEParser.linesFrom_eq hl]; exact .head _)
  cases hbuffer : p.buffer with
  | nil => nofun
  | cons b rest =>
      rw [hbuffer] at hline
      exact hline

theorem step_dataless {p : SSEParser} (hdata : p.current.data = [])
    (hbuffer : p.buffer.head? ≠ some 0x64) (c : UInt8) :
    (SSEParser.step p c).2 = [] ∧ (SSEParser.step p c).1.current.data = [] := by
  unfold SSEParser.step
  split
  · exact ⟨rfl, hdata⟩
  · split
    · exact processLine_dataless hdata hbuffer
    · exact ⟨rfl, hdata⟩

/-- Bytes without data make no events. -/
theorem feed_dataless {p : SSEParser} {bytes after : Bytes} (hdata : p.current.data = [])
    (h : Dataless p (bytes ++ after)) :
    (feed SSEParser.step p bytes).2 = [] ∧
      (feed SSEParser.step p bytes).1.current.data = [] ∧
      Dataless (feed SSEParser.step p bytes).1 after := by
  induction bytes generalizing p with
  | nil => exact ⟨rfl, hdata, h⟩
  | cons c rest ih =>
      obtain ⟨hevents, hstep⟩ := step_dataless hdata h.buffer c
      have hrest : Dataless (SSEParser.step p c).1 (rest ++ after) := fun line hline =>
        h line (SSEParser.linesFrom_step p c (rest ++ after) line hline)
      obtain ⟨hevents', hdata', hafter⟩ := ih hstep hrest
      rw [feed_cons, hevents, emit_nil]
      exact ⟨hevents', hdata', hafter⟩

/-- White space makes no events. -/
theorem feed_blank {p : SSEParser} {bytes : Bytes} (hdata : p.current.data = [])
    (hbuffer : p.buffer.head? ≠ some 0x64) (h : lead bytes = none) :
    (feed SSEParser.step p bytes).2 = [] := by
  induction bytes generalizing p with
  | nil => rfl
  | cons c rest ih =>
      have hspace : Bytes.isSpace c = true := by
        by_contra hc
        simp [lead, hc] at h
      have hrest : lead rest = none := by simpa [lead, hspace] using h
      have hc : c ≠ 0x64 := by
        rintro rfl
        exact absurd hspace (by decide)
      obtain ⟨hevents, hstep⟩ := step_dataless hdata hbuffer c
      have hnext : (SSEParser.step p c).1.buffer.head? ≠ some 0x64 := by
        unfold SSEParser.step
        split
        · exact hbuffer
        · split
          · nofun
          · cases hb : p.buffer with
            | nil => simpa using hc
            | cons b bs => simpa [hb] using hbuffer
      rw [feed_cons, hevents, emit_nil]
      exact ih hstep hnext hrest

/-! ### A turn -/

/-- The chunks of a turn go through the sniffer; the second component is what goes on to the base
class. -/
def sniffChunks (codec : JsonCodec) (d : Sniffed) : List Bytes → Sniffed × List Bytes
  | [] => (d, [])
  | chunk :: rest =>
      let sniffed := processData codec d chunk
      let r := sniffChunks codec sniffed.1 rest
      (r.1, if sniffed.2 then chunk :: r.2 else r.2)

/-- The body is one JSON object, which reports an error. -/
structure ErrorBody (codec : JsonCodec) (body : Bytes) (error : JsonObject) : Prop where
  brace : lead body = some 0x7B
  reads : ∃ o, codec.fromJson body.trimmed = .object o ∧ errorIn o = some error
  /-- No beginning of an object is an object. -/
  whole : ∀ (part : Bytes) o, part <+: body → part.trimmed ≠ body.trimmed →
    codec.fromJson part.trimmed ≠ .object o
  /-- A line of an object begins with no letter `d`. -/
  dataless : Dataless {} body

/-- The body is a stream of events, which begins with no brace. -/
def StreamBody (body : Bytes) : Prop := lead body ≠ some 0x7B

/-- How many bytes have come with the chunk that completes the object. -/
def closedAt (body fed : Bytes) : List Bytes → Nat
  | [] => fed.length
  | chunk :: rest =>
      if (fed ++ chunk).trimmed = body.trimmed then (fed ++ chunk).length
      else closedAt body (fed ++ chunk) rest

theorem ErrorBody.nil_trimmed {codec : JsonCodec} {body : Bytes} {error : JsonObject}
    (h : ErrorBody codec body error) : Bytes.trimmed [] ≠ body.trimmed := by
  intro he
  have hhead := head?_trimmed body
  rw [← he, h.brace] at hhead
  cases hhead

section Sniffer

variable (codec : JsonCodec)

/-- A sniffer that sleeps lets everything through. -/
theorem sniffChunks_asleep {d : Sniffed} (h : d.active = false) (chunks : List Bytes) :
    sniffChunks codec d chunks = (d, chunks.filter (!·.isEmpty)) := by
  induction chunks with
  | nil => rfl
  | cons chunk rest ih =>
      have hstep : processData codec d chunk = (d, !chunk.isEmpty) := by
        unfold processData
        cases chunk.isEmpty <;> simp [h]
      rw [sniffChunks, hstep]
      dsimp only
      rw [ih, List.filter_cons]

variable {d : Sniffed} {data : Bytes}

theorem processData_blank (hactive : d.active = true) (hlead : lead (d.buffer ++ data) = none) :
    processData codec d data = ({ d with buffer := d.buffer ++ data }, !data.isEmpty) := by
  unfold processData
  cases data with
  | nil =>
      rw [List.isEmpty_nil, if_pos rfl, List.append_nil]
      rfl
  | cons b rest =>
      have htrimmed := (trimmed_eq_nil_iff _).mpr hlead
      simp [hactive, htrimmed]

theorem processData_asleep (hactive : d.active = true) (hdata : data ≠ []) {c : UInt8}
    (hlead : lead (d.buffer ++ data) = some c)
    (hother : c ≠ 0x7B ∨ kMaxBytes < (d.buffer ++ data).length) :
    processData codec d data = ({ d with active := false, buffer := [] }, true) := by
  have hempty : data.isEmpty = false := by simpa using hdata
  have hhead := (head?_trimmed _).trans hlead
  have htrimmed : (d.buffer ++ data).trimmed.isEmpty = false := by
    cases h : (d.buffer ++ data).trimmed with
    | nil => rw [h] at hhead; cases hhead
    | cons _ _ => rfl
  unfold processData
  dsimp only
  have hcond : (some c != some 0x7B || decide (kMaxBytes < (d.buffer ++ data).length)) = true := by
    rw [Bool.or_eq_true, decide_eq_true_eq]
    exact hother.imp_left fun hc => by simpa using hc
  rw [hempty, hactive, htrimmed, hhead, hcond]
  rfl

theorem processData_brace (hactive : d.active = true) (hdata : data ≠ [])
    (hlead : lead (d.buffer ++ data) = some 0x7B)
    (hfits : (d.buffer ++ data).length ≤ kMaxBytes) :
    processData codec d data =
      match codec.fromJson (d.buffer ++ data).trimmed with
      | .object o =>
          match errorIn o with
          | some error =>
              ({ active := false
                 buffer := []
                 failed := some (describeError codec errorAnnotations error) }, false)
          | none => ({ d with active := false, buffer := [] }, true)
      | _ => ({ d with buffer := d.buffer ++ data }, true) := by
  have hempty : data.isEmpty = false := by simpa using hdata
  have hhead := (head?_trimmed _).trans hlead
  have htrimmed : (d.buffer ++ data).trimmed.isEmpty = false := by
    cases h : (d.buffer ++ data).trimmed with
    | nil => rw [h] at hhead; cases hhead
    | cons _ _ => rfl
  have hcond : (some (0x7B : UInt8) != some 0x7B ||
      decide (kMaxBytes < (d.buffer ++ data).length)) = false := by
    simpa using hfits
  unfold processData
  dsimp only
  rw [hempty, hactive, htrimmed, hhead, hcond]
  rfl

/-- White space leaves the sniffer awake, and a stream of events puts it to sleep. -/
theorem sniffChunks_stream (hactive : d.active = true) (hblank : lead d.buffer = none)
    {chunks : List Bytes} (hstream : StreamBody chunks.flatten) :
    sniffChunks codec d chunks =
      (if lead chunks.flatten = none then { d with buffer := d.buffer ++ chunks.flatten }
        else { d with active := false, buffer := [] }, chunks.filter (!·.isEmpty)) := by
  induction chunks generalizing d with
  | nil => simp [sniffChunks, lead]
  | cons chunk rest ih =>
      rw [List.flatten_cons] at hstream ⊢
      cases hchunk : lead chunk with
      | none =>
          have hbuffer : lead (d.buffer ++ chunk) = none := by rw [lead_append, hblank, hchunk]; rfl
          have hrest : lead (chunk ++ rest.flatten) = lead rest.flatten := by
            rw [lead_append, hchunk, Option.none_or]
          have hstep := processData_blank codec hactive hbuffer
          rw [sniffChunks, hstep]
          dsimp only
          rw [@ih { d with buffer := d.buffer ++ chunk } hactive hbuffer
            (by rw [StreamBody, ← hrest]; exact hstream), hrest, List.filter_cons]
          split <;> simp
      | some c =>
          have hbuffer : lead (d.buffer ++ chunk) = some c := by
            rw [lead_append, hblank, hchunk]; rfl
          have hall : lead (chunk ++ rest.flatten) = some c := by
            rw [lead_append, hchunk, Option.some_or]
          have hne : chunk ≠ [] := by rintro rfl; cases hchunk
          have hc : c ≠ 0x7B := by
            rintro rfl
            exact hstream hall
          rw [sniffChunks, processData_asleep codec hactive hne hbuffer (.inl hc), hall]
          dsimp only
          rw [sniffChunks_asleep codec rfl, List.filter_cons]
          simp [hne]

theorem le_closedAt (body fed : Bytes) (chunks : List Bytes) :
    fed.length ≤ closedAt body fed chunks := by
  induction chunks generalizing fed with
  | nil => exact Nat.le_refl _
  | cons chunk rest ih =>
      have hle : fed.length ≤ (fed ++ chunk).length := by simp
      unfold closedAt
      split
      · exact hle
      · exact Nat.le_trans hle (ih (fed ++ chunk))

/-- An error is found where the sniffer is awake, and the object fits with what came before it. -/
theorem sniffChunks_error {body : Bytes} {error : JsonObject} (h : ErrorBody codec body error)
    {earlier : Bytes} (hearlier : lead earlier = none) {chunks : List Bytes} {fed : Bytes}
    (hfed : fed ++ chunks.flatten = body) (hactive : d.active = true)
    (hbuffer : d.buffer = earlier ++ fed) (hopen : fed.trimmed ≠ body.trimmed) :
    if earlier.length + closedAt body fed chunks ≤ kMaxBytes then
      (sniffChunks codec d chunks).1.failed = some (describeError codec errorAnnotations error) ∧
        ∃ before after, (sniffChunks codec d chunks).2.flatten = before ++ after ∧
          fed ++ before <+: body ∧ lead after = none
    else
      (sniffChunks codec d chunks).1.failed = d.failed ∧
        (sniffChunks codec d chunks).1.active = false := by
  induction chunks generalizing d fed with
  | nil => exact absurd (by rw [← hfed, List.flatten_nil, List.append_nil]) hopen
  | cons chunk rest ih =>
      have hrest : fed ++ chunk ++ rest.flatten = body := by
        rw [← hfed, List.flatten_cons, List.append_assoc]
      have hdata : d.buffer ++ chunk = earlier ++ (fed ++ chunk) := by
        rw [hbuffer, List.append_assoc]
      have hlead : lead (d.buffer ++ chunk) = lead (fed ++ chunk) := by
        rw [hdata, lead_append, hearlier, Option.none_or]
      have htrimmed : (d.buffer ++ chunk).trimmed = (fed ++ chunk).trimmed := by
        rw [hdata, trimmed_append hearlier]
      have hlength : (d.buffer ++ chunk).length = earlier.length + (fed ++ chunk).length := by
        rw [hdata, List.length_append]
      by_cases hempty : chunk = []
      · -- nothing is received
        subst hempty
        rw [List.append_nil] at hrest
        have hstep : processData codec d [] = (d, false) := rfl
        rw [sniffChunks, hstep, closedAt, List.append_nil, if_neg hopen]
        exact ih hrest hactive hbuffer hopen
      have hgoes : ∀ forwarded : List Bytes, (∃ before after, forwarded.flatten = before ++ after ∧
          fed ++ chunk ++ before <+: body ∧ lead after = none) →
            ∃ before after, (chunk :: forwarded).flatten = before ++ after ∧
              fed ++ before <+: body ∧ lead after = none := by
        rintro forwarded ⟨before, after, hflatten, hpart, hafter⟩
        refine ⟨chunk ++ before, after, ?_, by rwa [← List.append_assoc], hafter⟩
        rw [List.flatten_cons, hflatten, List.append_assoc]
      rw [sniffChunks]
      dsimp only
      by_cases hclosed : (fed ++ chunk).trimmed = body.trimmed
      · -- the chunk completes the object
        have hbrace : lead (d.buffer ++ chunk) = some 0x7B := by
          rw [hlead, ← head?_trimmed, hclosed, head?_trimmed, h.brace]
        obtain ⟨o, hreads, herror⟩ := h.reads
        rw [closedAt, if_pos hclosed, ← hlength]
        by_cases hfits : (d.buffer ++ chunk).length ≤ kMaxBytes
        · have hstep : processData codec d chunk =
              ({ active := false
                 buffer := []
                 failed := some (describeError codec errorAnnotations error) }, false) := by
            rw [processData_brace codec hactive hempty hbrace hfits, htrimmed, hclosed, hreads]
            dsimp only
            rw [herror]
          rw [if_pos hfits, hstep, sniffChunks_asleep codec rfl]
          refine ⟨rfl, [], rest.flatten, ?_, ?_, ?_⟩
          · simp [List.flatten_filter_not_isEmpty]
          · exact ⟨chunk ++ rest.flatten, by simpa using hrest⟩
          · refine lead_of_trimmed_append ?_ (by rw [hrest, hclosed])
            rw [← hlead, hbrace]
            nofun
        · rw [if_neg hfits, processData_asleep codec hactive hempty hbrace
            (.inr (Nat.lt_of_not_le hfits)), sniffChunks_asleep codec rfl]
          exact ⟨rfl, rfl⟩
      · rw [closedAt, if_neg hclosed]
        cases hopened : lead (d.buffer ++ chunk) with
        | none =>
            -- only white space has come
            have hne : chunk.isEmpty = false := by simpa using hempty
            have hnext := @ih { d with buffer := d.buffer ++ chunk } _ hrest hactive hdata hclosed
            rw [processData_blank codec hactive hopened, hne]
            simp only [Bool.not_false, if_true]
            split_ifs at hnext ⊢ with hfits
            · exact ⟨hnext.1, hgoes _ hnext.2⟩
            · exact hnext
        | some c =>
            have hc : c = 0x7B := by
              have hbody : lead body = some c := by
                rw [← hrest, lead_append, ← hlead, hopened, Option.some_or]
              exact Option.some.inj (hbody.symm.trans h.brace)
            subst hc
            by_cases hfits : (d.buffer ++ chunk).length ≤ kMaxBytes
            · -- the object is not complete
              have hnot : ∀ o, codec.fromJson (d.buffer ++ chunk).trimmed ≠ .object o := by
                rw [htrimmed]
                exact fun o => h.whole (fed ++ chunk) o ⟨_, hrest⟩ hclosed
              have hstep : processData codec d chunk =
                  ({ d with buffer := d.buffer ++ chunk }, true) := by
                rw [processData_brace codec hactive hempty hopened hfits]
                split
                · rename_i o ho
                  exact absurd ho (hnot o)
                · rfl
              have hnext :=
                @ih { d with buffer := d.buffer ++ chunk } _ hrest hactive hdata hclosed
              rw [hstep]
              simp only [if_true]
              split_ifs at hnext ⊢ with hfits
              · exact ⟨hnext.1, hgoes _ hnext.2⟩
              · exact hnext
            · have hlarge : ¬earlier.length + closedAt body (fed ++ chunk) rest ≤ kMaxBytes := by
                have hle := le_closedAt body (fed ++ chunk) rest
                omega
              rw [if_neg hlarge, processData_asleep codec hactive hempty hopened
                (.inr (Nat.lt_of_not_le hfits)), sniffChunks_asleep codec rfl]
              exact ⟨rfl, rfl⟩

theorem sniffChunks_length (d : Sniffed) (chunks : List Bytes) :
    (sniffChunks codec d chunks).2.flatten.length ≤ chunks.flatten.length := by
  induction chunks generalizing d with
  | nil => exact Nat.le_refl _
  | cons chunk rest ih =>
      have hrest := ih (processData codec d chunk).1
      simp only [sniffChunks, List.flatten_cons, List.length_append]
      split
      · rw [List.flatten_cons, List.length_append]
        omega
      · omega

end Sniffer

/-! ### The parser behind the sniffer -/

theorem enforceLimit_enforceLimit (p : SSEParser) : p.enforceLimit.enforceLimit = p.enforceLimit := by
  unfold SSEParser.enforceLimit
  split
  · rename_i h
    rw [if_neg]
    simp only [Bool.and_eq_true, decide_eq_true_eq, not_and, Int.not_lt] at h ⊢
    exact fun hpos => Int.le_of_lt hpos
  · rfl

/-- Nothing received is nothing read. -/
theorem appendAll_filter {p : SSEParser} (h : p.enforceLimit = p) (chunks : List Bytes) :
    appendAll SSEParser.append p (chunks.filter (!·.isEmpty)) =
      appendAll SSEParser.append p chunks := by
  induction chunks generalizing p with
  | nil => rfl
  | cons chunk rest ih =>
      cases chunk with
      | nil =>
          have hnone : p.append [] = (p, []) := by
            rw [SSEParser.append_eq_feed, feed_nil, h]
          rw [List.filter_cons_of_neg (by simp), appendAll, hnone, emit_nil]
          exact ih h
      | cons b bytes =>
          have hnext : (p.append (b :: bytes)).1.enforceLimit = (p.append (b :: bytes)).1 := by
            rw [SSEParser.append_eq_feed]
            exact enforceLimit_enforceLimit _
          rw [List.filter_cons_of_pos (by simp), appendAll, appendAll, ih hnext]

theorem feed_buffer_length (p : SSEParser) (bytes : Bytes) :
    (feed SSEParser.step p bytes).1.buffer.length ≤ p.buffer.length + bytes.length := by
  induction bytes generalizing p with
  | nil => exact Nat.le_refl _
  | cons c rest ih =>
      have hstep : (SSEParser.step p c).1.buffer.length ≤ p.buffer.length + 1 := by
        unfold SSEParser.step
        split
        · exact Nat.le_succ _
        · split
          · exact Nat.zero_le _
          · simp
      have hrest := ih (SSEParser.step p c).1
      rw [feed_cons, emit_fst, List.length_cons]
      omega

/-- A small stream is read as it stands. -/
theorem appendAll_events {chunks : List Bytes} (h : chunks.flatten.length ≤ kMaxBytes) :
    (appendAll SSEParser.append {} chunks).2 = (feed SSEParser.step {} chunks.flatten).2 := by
  refine congrArg Prod.snd (appendAll_eq_feed fun before chunk after he => ?_)
  rw [SSEParser.append_eq_feed, SSEParser.enforceLimit_eq]
  intro _
  have hbuffer := feed_buffer_length {} (before ++ chunk)
  have hlength : (before ++ chunk).length ≤ kMaxBytes := by
    rw [← he, List.length_append] at h
    exact Nat.le_trans (Nat.le_add_right _ _) h
  rw [feed_append, emit_fst] at hbuffer
  rw [SSEParser.feed_maxBufferBytes, SSEParser.feed_maxBufferBytes]
  have hmax : kMaxBytes ≤ 16 * 1024 * 1024 := by decide
  simp only [List.length_nil, Nat.zero_add] at hbuffer
  show ((feed SSEParser.step (feed SSEParser.step {} before).1 chunk).1.buffer.length : Int) ≤
    16 * 1024 * 1024
  omega

/-! ### A turn in the client -/

end GoogleAIClient

namespace BaseClient

variable {B : BaseClient}

/-- The stream of the request's turn is open, and its parser is where `p` is. -/
structure InTurn (id : String) (ref : StreamRef) (d : B.provider.Derived) (p : SSEParser)
    (s : B.State) : Prop where
  request : ∃ r, s.requests.lookup id = some r ∧ r.stream = some ref ∧ r.errorMode = false ∧
    r.framer = .sse p
  derived : s.derivedFor id = d

/-- The chunks of a turn arrive. -/
def receiveChunks (B : BaseClient) (id : String) (ref : StreamRef) : List Bytes → B.Slot
  | [] => return
  | chunk :: rest => do
      B.chunkReceived id ref chunk
      receiveChunks B id ref rest

/-- The chunks of a turn arrive, and its stream ends. -/
def receiveTurn (B : BaseClient) (id : String) (ref : StreamRef) (statusCode : Int)
    (chunks : List Bytes) : B.Slot := do
  B.receiveChunks id ref chunks
  B.streamFinished id ref statusCode

/-- The request fails. -/
structure Fails (id error : String) (s s' : B.State) : Prop where
  gone : s'.requests.lookup id = none
  told : ∃ later, s'.history = later ++ s.history ∧ .emitted (.requestFailed id error) ∈ later

section Steps

variable {id : String} {ref : StreamRef} {d : B.provider.Derived} {p : SSEParser} {s : B.State}

theorem ifCurrent_inTurn (h : InTurn id ref d p s) (ours other : B.Slot)
    {Q : Except ToolExn Unit → B.State → Prop} (hours : Yields ClientOut.returns ours.run Q s) :
    Yields ClientOut.returns (B.ifCurrent id ref ours other).run Q s := by
  obtain ⟨r, hl, hstream, -⟩ := h.request
  show Yields ClientOut.returns (if ((s.requests.lookup id).bind (·.stream)) = some ref then _
    else _ : B.Slot).run Q s
  rw [hl, Option.bind_some, if_pos hstream]
  exact hours

/-- A chunk that makes no events changes the sniffer and the parser only. -/
theorem chunkReceived_quiet (h : InTurn id ref d p s) {data : Bytes}
    {sniffed : B.provider.Derived × Bool} (hsniffed : B.provider.processData d data = sniffed)
    (hquiet : sniffed.2 = true → (p.append data).2 = []) :
    Yields ClientOut.returns (B.chunkReceived id ref data).run
      (fun result s' => result = .ok () ∧
        InTurn id ref sniffed.1 (if sniffed.2 then (p.append data).1 else p) s' ∧
        s'.history = .received ref data :: s.history) s := by
  obtain ⟨r, hl, hstream, hmode, hframer⟩ := h.request
  have hnoted : InTurn id ref d p (s.observe (.received ref data)) := ⟨h.request, h.derived⟩
  refine ifCurrent_inTurn hnoted _ _ ?_
  show Yields ClientOut.returns (if ((s.requests.lookup id).map (·.errorMode)).getD false then _
    else _ : B.Slot).run _ _
  rw [hl, Option.map_some, Option.getD_some, hmode]
  refine Yields.run_read ?_
  have hl' : (s.observe (.received ref data)).requests.lookup id = some r := hl
  rw [hl']
  dsimp only
  have hderived : B.provider.processData
      ((s.observe (.received ref data)).derivedFor id) data = sniffed := by
    rw [hnoted.derived, hsniffed]
  rw [hderived]
  have hkept : ∀ s' : B.State, s'.derived = s.derived.insert id sniffed.1 →
      s'.derivedFor id = sniffed.1 := fun s' hs' => by
    rw [ClientState.derivedFor, hs', AList.lookup_insert, Option.getD_some]
  cases hforwards : sniffed.2 with
  | false => exact ⟨rfl, ⟨⟨r, hl, hstream, hmode, hframer⟩, hkept _ rfl⟩, rfl⟩
  | true =>
      have hevents : (r.framer.append B.codec data).2 = [] := by
        rw [hframer, Framer.append, hquiet hforwards]
        rfl
      rw [hevents]
      let noted : B.State :=
        { s.observe (.received ref data) with derived := s.derived.insert id sniffed.1 }
      let framed : ActiveRequest B.provider → ActiveRequest B.provider := fun r' =>
        { r' with framer := (r.framer.append B.codec data).1 }
      have hlookup : (noted.update id framed).requests.lookup id = some (framed r) := by
        rw [ClientState.lookup_update]
        exact congrArg (Option.map framed) hl
      have hframed : (framed r).framer = .sse (p.append data).1 := by
        show (r.framer.append B.codec data).1 = _
        rw [hframer]
        rfl
      refine ⟨rfl, ⟨⟨framed r, hlookup, hstream, hmode, hframed⟩, hkept _ ?_⟩, ?_⟩
      · exact congrArg ClientState.derived (ClientState.update_eq noted id framed)
      · exact ClientState.history_update noted id framed

theorem failRequest_fails {r : ActiveRequest B.provider} (hl : s.requests.lookup id = some r)
    (error : String) :
    Yields ClientOut.returns (B.failRequest id error) (fun _ s' => Fails id error s s') s := by
  show Yields ClientOut.returns (if (s.requests.lookup id).isSome then _ else _ :
    Proc B.Sig Unit) _ s
  rw [hl]
  let gone : B.State := (s.cleanupFullRequest id).cleanupRequest id
  have hhistory : gone.history = s.history := by
    rw [history_cleanupRequest]
    exact ClientState.history_update s id _
  refine (yields_bind (S := B.Sig)).mpr (emit_undisturbed (s := gone) ?_)
  refine ⟨?_, ?_⟩
  · refine (lookup_finishOneShot (gone.observe _) id id _).trans ?_
    exact ClientState.lookup_cleanupRequest _ id
  · show ∃ later, (ClientState.finishOneShot (gone.observe _) id _).history = _ ∧ _
    unfold ClientState.finishOneShot
    split
    · exact ⟨[_], congrArg (_ :: ·) hhistory, .head _⟩
    · exact ⟨[_, _], congrArg (_ :: _ :: ·) hhistory, .tail _ (.head _)⟩

/-- An error that is pending at the end of the stream fails the request. -/
theorem streamFinished_fails (h : InTurn id ref d p s) (statusCode : Int) {error : String}
    (hpending : (B.provider.takePendingStreamError d).1 = some error) :
    Yields ClientOut.returns (B.streamFinished id ref statusCode).run
      (fun result s' => result = .ok () ∧ Fails id error s s') s := by
  obtain ⟨r, hl, hstream, hmode, -⟩ := h.request
  have hnoted : InTurn id ref d p (s.observe (.ended ref)) := ⟨h.request, h.derived⟩
  refine ifCurrent_inTurn hnoted _ _ ?_
  let closed : B.State := { (s.observe (.ended ref)).update id ActiveRequest.closeStream with
    streams := s.streams.erase ref }
  have hclosed : closed.requests.lookup id = some r.closeStream := by
    show ((s.observe (.ended ref)).update id ActiveRequest.closeStream).requests.lookup id = _
    rw [ClientState.lookup_update]
    exact congrArg (Option.map _) hl
  have hderived : closed.derivedFor id = d := by
    have hkept : ((s.observe (.ended ref)).update id ActiveRequest.closeStream).derived =
        s.derived := by
      rw [ClientState.update_eq]
      rfl
    refine Eq.trans ?_ h.derived
    show (((s.observe (.ended ref)).update id ActiveRequest.closeStream).derived.lookup id).getD _ = _
    rw [hkept]
    rfl
  show Yields ClientOut.returns (B.onStreamFinished id (some ref)
    ((s.requests.lookup id).bind fun r => B.streamError r statusCode)).run _ closed
  have hnone : (s.requests.lookup id).bind (fun r => B.streamError r statusCode) = none := by
    rw [hl, Option.bind_some, streamError, hmode]
    rfl
  rw [hnone]
  obtain ⟨derived, hpair⟩ : ∃ derived,
      B.provider.takePendingStreamError (closed.derivedFor id) = (some error, derived) := by
    rw [hderived]
    exact ⟨_, Prod.ext hpending rfl⟩
  refine Yields.run_read ?_
  rw [hpair]
  have hhistory : closed.history = .ended ref :: s.history :=
    ClientState.history_update _ id ActiveRequest.closeStream
  refine Yields.run_lift (failRequest_fails
    (s := { closed with derived := closed.derived.insert id derived }) hclosed error) |>.mono ?_
  rintro result s' ⟨hresult, hgone, later, hlater, hmem⟩
  refine ⟨hresult, hgone, later ++ [.ended ref], ?_, List.mem_append_left _ hmem⟩
  rw [hlater, List.append_assoc]
  exact congrArg (later ++ ·) hhistory

end Steps

end BaseClient

namespace GoogleAIClient

/-! ### The turns of a request -/

/-- The client of Gemini. -/
abbrev googleClient (codec : JsonCodec) (uuid : Nat → String)
    (definitions : ToolsManager → List JsonValue) : BaseClient :=
  ⟨googleAIClient codec uuid definitions, codec⟩

/-- A turn ends: the error that is pending, and the sniffer as it is left. -/
def turnEnd (codec : JsonCodec) (d : Sniffed) (chunks : List Bytes) : Option String × Sniffed :=
  takePendingStreamError (sniffChunks codec d chunks).1

/-- The turns of a request that goes on, and the sniffer they leave. -/
inductive GoesOn (codec : JsonCodec) : List (List Bytes) → Sniffed → Prop
  | start : GoesOn codec [] {}
  | turn {earlier : List (List Bytes)} {d d' : Sniffed} {chunks : List Bytes}
      (before : GoesOn codec earlier d)
      (body : StreamBody chunks.flatten ∨ ∃ error, ErrorBody codec chunks.flatten error)
      (ends : turnEnd codec d chunks = (none, d')) : GoesOn codec (earlier ++ [chunks]) d'

/-- A turn is read right: an error body that is small enough is told as no event, and at the end of
the turn the request fails with its description; and a stream of events is read as the parser reads
it. -/
structure TurnKept (codec : JsonCodec) (uuid : Nat → String)
    (definitions : ToolsManager → List JsonValue) (d : Sniffed) (chunks : List Bytes) : Prop where
  error : ∀ error, ErrorBody codec chunks.flatten error → chunks.flatten.length ≤ kMaxBytes →
    (turnEnd codec d chunks).1 = some (describeError codec errorAnnotations error) ∧
      (appendAll SSEParser.append {} (sniffChunks codec d chunks).2).2 = [] ∧
      ∀ (id : String) (ref : StreamRef) (statusCode : Int)
        (s : (googleClient codec uuid definitions).State), BaseClient.InTurn id ref d {} s →
          Yields ClientOut.returns
            ((googleClient codec uuid definitions).receiveTurn id ref statusCode chunks).run
            (fun result s' => result = .ok () ∧
              BaseClient.Fails id (describeError codec errorAnnotations error) s s') s
  stream : StreamBody chunks.flatten →
    (turnEnd codec d chunks).1 = none ∧
      appendAll SSEParser.append {} (sniffChunks codec d chunks).2 =
        appendAll SSEParser.append {} chunks

section Turns

variable {codec : JsonCodec} {earlier : List (List Bytes)} {d : Sniffed} {chunks : List Bytes}

/-- All the bytes of some turns. -/
def bytesOf (turns : List (List Bytes)) : Bytes := turns.flatten.flatten

/-- The sniffer is awake as long as only white space has come. -/
theorem GoesOn.sniffer (h : GoesOn codec earlier d) :
    d.failed = none ∧
      if lead (bytesOf earlier) = none then d.active = true ∧ d.buffer = bytesOf earlier
      else d.active = false := by
  induction h with
  | start => exact ⟨rfl, rfl, rfl⟩
  | @turn earlier d d' chunks before body ends ih =>
      obtain ⟨hfailed, hstate⟩ := ih
      have hbytes : bytesOf (earlier ++ [chunks]) = bytesOf earlier ++ chunks.flatten := by
        simp [bytesOf]
      have hsniffed : (sniffChunks codec d chunks).1.failed = none := congrArg Prod.fst ends
      have hleft : d' = (sniffChunks codec d chunks).1 := by
        have hsnd : { (sniffChunks codec d chunks).1 with failed := none } = d' :=
          congrArg Prod.snd ends
        rw [← hsnd, ← hsniffed]
      rw [hleft, hbytes, lead_append]
      refine ⟨hsniffed, ?_⟩
      by_cases hblank : lead (bytesOf earlier) = none
      · rw [if_pos hblank] at hstate
        obtain ⟨hactive, hbuffer⟩ := hstate
        rw [hblank, Option.none_or]
        rcases body with hstream | ⟨error, herror⟩
        · rw [sniffChunks_stream codec hactive (hbuffer ▸ hblank) hstream]
          by_cases hnone : lead chunks.flatten = none
          · rw [if_pos hnone, if_pos hnone, hbuffer]
            exact ⟨hactive, rfl⟩
          · rw [if_neg hnone, if_neg hnone]
        · have hfound := sniffChunks_error codec herror hblank (List.nil_append _) hactive
            (by rw [hbuffer, List.append_nil]) herror.nil_trimmed
          rw [if_neg (by rw [herror.brace]; nofun)]
          split at hfound
          · rw [hsniffed] at hfound
            cases hfound.1
          · exact hfound.2
      · rw [if_neg hblank] at hstate
        obtain ⟨c, hc⟩ := Option.ne_none_iff_exists'.mp hblank
        rw [sniffChunks_asleep codec hstate, hc, Option.some_or]
        exact hstate

theorem closedAt_le (body fed : Bytes) (chunks : List Bytes) :
    closedAt body fed chunks ≤ (fed ++ chunks.flatten).length := by
  induction chunks generalizing fed with
  | nil => simp [closedAt]
  | cons chunk rest ih =>
      unfold closedAt
      split
      · simp
      · have hrest := ih (fed ++ chunk)
        rwa [List.append_assoc, ← List.flatten_cons] at hrest

/-- The chunks of a turn that makes no events change the sniffer and the parser only. -/
theorem receiveChunks_quiet {uuid : Nat → String}
    {definitions : ToolsManager → List JsonValue} {id : String} {ref : StreamRef} :
    ∀ {d : Sniffed} {p : SSEParser} {s : (googleClient codec uuid definitions).State}
      (chunks : List Bytes), BaseClient.InTurn id ref d p s →
      (appendAll SSEParser.append p (sniffChunks codec d chunks).2).2 = [] →
      Yields ClientOut.returns ((googleClient codec uuid definitions).receiveChunks id ref chunks).run
        (fun result s' => result = .ok () ∧
          (∃ p', BaseClient.InTurn id ref (sniffChunks codec d chunks).1 p' s') ∧
          ∃ later, s'.history = later ++ s.history) s := by
  intro d p s chunks
  induction chunks generalizing d p s with
  | nil => exact fun h _ => ⟨rfl, ⟨p, h⟩, [], rfl⟩
  | cons chunk rest ih =>
      intro h hquiet
      have hrest : (appendAll SSEParser.append
            (if (processData codec d chunk).2 then (p.append chunk).1 else p)
            (sniffChunks codec (processData codec d chunk).1 rest).2).2 = [] ∧
          ((processData codec d chunk).2 = true → (p.append chunk).2 = []) := by
        rw [sniffChunks] at hquiet
        dsimp only at hquiet
        split at hquiet
        · rename_i hforwards
          obtain ⟨hchunk, hrest⟩ := List.append_eq_nil_iff.mp hquiet
          rw [if_pos hforwards]
          exact ⟨hrest, fun _ => hchunk⟩
        · rename_i hkeeps
          rw [if_neg hkeeps]
          exact ⟨hquiet, fun hforwards => absurd hforwards hkeeps⟩
      refine Yields.run_bind (BaseClient.chunkReceived_quiet h rfl hrest.2) fun s' hs' => ?_
      refine (ih hs'.1 hrest.1).mono fun result s'' h'' => ⟨h''.1, h''.2.1, ?_⟩
      obtain ⟨later, hlater⟩ := h''.2.2
      exact ⟨later ++ [.received ref chunk], by rw [hlater, hs'.2, List.append_assoc]; rfl⟩

/-- An error that is pending after a turn without events fails the request. -/
theorem receiveTurn_fails {uuid : Nat → String} {definitions : ToolsManager → List JsonValue}
    {id : String} {ref : StreamRef} {p : SSEParser} (statusCode : Int)
    {s : (googleClient codec uuid definitions).State} (h : BaseClient.InTurn id ref d p s)
    (hquiet : (appendAll SSEParser.append p (sniffChunks codec d chunks).2).2 = []) {error : String}
    (hpending : (turnEnd codec d chunks).1 = some error) :
    Yields ClientOut.returns
      ((googleClient codec uuid definitions).receiveTurn id ref statusCode chunks).run
      (fun result s' => result = .ok () ∧ BaseClient.Fails id error s s') s := by
  refine Yields.run_bind (receiveChunks_quiet chunks h hquiet) fun s' hs' => ?_
  obtain ⟨⟨p', hturn⟩, later, hlater⟩ := hs'
  refine (BaseClient.streamFinished_fails hturn statusCode hpending).mono ?_
  rintro result s'' ⟨hresult, hgone, told, htold, hmem⟩
  refine ⟨hresult, hgone, told ++ later, ?_, List.mem_append_left _ hmem⟩
  rw [htold, hlater, List.append_assoc]

/-- **A turn of a Gemini request is read right exactly where it brings no error body, or nothing but
white space came in the earlier turns, and with that the object still fits.** -/
theorem google_turn_kept_iff (uuid : Nat → String) (definitions : ToolsManager → List JsonValue)
    (h : GoesOn codec earlier d) :
    TurnKept codec uuid definitions d chunks ↔
      ∀ error, ErrorBody codec chunks.flatten error → chunks.flatten.length ≤ kMaxBytes →
        lead (bytesOf earlier) = none ∧
          (bytesOf earlier).length + closedAt chunks.flatten [] chunks ≤ kMaxBytes := by
  obtain ⟨hfailed, hstate⟩ := h.sniffer
  have hfresh : ({} : SSEParser).enforceLimit = {} := by decide
  have hstream : StreamBody chunks.flatten → (turnEnd codec d chunks).1 = none ∧
      appendAll SSEParser.append {} (sniffChunks codec d chunks).2 =
        appendAll SSEParser.append {} chunks := by
    intro hbody
    have hpassed : (sniffChunks codec d chunks).1.failed = none ∧
        (sniffChunks codec d chunks).2 = chunks.filter (!·.isEmpty) := by
      split at hstate
      · rename_i hblank
        rw [sniffChunks_stream codec hstate.1 (hstate.2 ▸ hblank) hbody]
        dsimp only
        split <;> exact ⟨hfailed, rfl⟩
      · rw [sniffChunks_asleep codec hstate]
        exact ⟨hfailed, rfl⟩
    exact ⟨hpassed.1, by rw [hpassed.2, appendAll_filter hfresh]⟩
  have hstart : ∀ error, ErrorBody codec chunks.flatten error → lead (bytesOf earlier) = none →
      d.active = true → d.buffer = bytesOf earlier → _ := fun error herror hblank hactive hbuffer =>
    sniffChunks_error codec herror hblank (List.nil_append _) hactive
      (by rw [hbuffer, List.append_nil]) herror.nil_trimmed
  refine ⟨fun hkept error herror hsize => ?_, fun hcond => ⟨fun error herror hsize => ?_, hstream⟩⟩
  · -- the error is not found where the sniffer sleeps, or the object is too large
    have hfound : (sniffChunks codec d chunks).1.failed = some _ :=
      (hkept.error error herror hsize).1
    split at hstate
    · rename_i hblank
      refine ⟨hblank, ?_⟩
      by_contra hlarge
      have hlost := hstart error herror hblank hstate.1 hstate.2
      rw [if_neg hlarge, hfound, hfailed] at hlost
      cases hlost.1
    · rw [sniffChunks_asleep codec hstate, hfailed] at hfound
      cases hfound
  · obtain ⟨hblank, hfits⟩ := hcond error herror hsize
    rw [if_pos hblank] at hstate
    have hfound := hstart error herror hblank hstate.1 hstate.2
    rw [if_pos hfits] at hfound
    obtain ⟨hpending, before, after, hflatten, ⟨rest, hpart⟩, hafter⟩ := hfound
    have hquiet : (appendAll SSEParser.append {} (sniffChunks codec d chunks).2).2 = [] := by
      rw [appendAll_events (Nat.le_trans (sniffChunks_length codec d chunks) hsize), hflatten,
        feed_append]
      rw [List.nil_append] at hpart
      obtain ⟨hevents, hdata, hline⟩ := feed_dataless (p := {}) rfl (hpart ▸ herror.dataless)
      rw [hevents, emit_nil]
      exact feed_blank hdata hline.buffer hafter
    exact ⟨hpending, hquiet, fun id ref statusCode s hturn =>
      receiveTurn_fails statusCode hturn hquiet hpending⟩

/-- The error of the examples. -/
def refused : JsonObject := JsonObject.ofFields [("message", .str "no")]

/-- Its body. -/
def refusal : Bytes := Bytes.ascii "\x7b\"error\":\x7b\"message\":\"no\"\x7d\x7d"

/-- It reads the body of the examples, and the empty object. -/
def refusalCodec : JsonCodec where
  fromJson bytes :=
    if bytes = refusal then .object (JsonObject.ofFields [("error", .obj refused)])
    else if bytes = Bytes.ascii "\x7b\x7d" then .object []
    else .null
  toJson _ := "\x7b\x7d"

/-- No beginning of the body is the empty object. -/
theorem trimmed_part_refusal {part : Bytes} (hpart : part <+: refusal) :
    part.trimmed ≠ Bytes.ascii "\x7b\x7d" := by
  have htaken : ∀ n ≤ refusal.length, Bytes.trimmed (refusal.take n) ≠ Bytes.ascii "\x7b\x7d" := by
    decide +kernel
  rw [List.prefix_iff_eq_take.mp hpart]
  exact htaken _ hpart.length_le

theorem errorBody_refusal : ErrorBody refusalCodec refusal refused where
  brace := by decide
  reads := by
    have htrimmed : refusal.trimmed = refusal := by decide
    refine ⟨JsonObject.ofFields [("error", .obj refused)], ?_, rfl⟩
    simp [htrimmed, refusalCodec]
  whole part o hpart hother hread := by
    have htrimmed : refusal.trimmed = refusal := by decide
    rw [htrimmed] at hother
    have hnull : refusalCodec.fromJson part.trimmed = .null := by
      simp [refusalCodec, hother, trimmed_part_refusal hpart]
    rw [hnull] at hread
    cases hread
  dataless := dataless_line (by decide +kernel) (by decide)

/-- An error body that answers the first turn fails the request, in pieces too. -/
theorem google_turn_kept_iff_first :
    TurnKept refusalCodec (fun _ => "") (fun _ => []) {} [refusal.take 3, refusal.drop 3] :=
  (google_turn_kept_iff (fun _ => "") (fun _ => []) .start).mpr fun _ _ _ =>
    ⟨rfl, Nat.le_trans (Nat.add_le_add_left (closedAt_le _ [] _) _) (by decide)⟩

/-- After a stream of events an error body that answers the continuation goes unseen. -/
theorem google_error_unseen :
    ∃ earlier d error, GoesOn refusalCodec earlier d ∧
      ErrorBody refusalCodec refusal error ∧ refusal.length ≤ kMaxBytes ∧
      ¬TurnKept refusalCodec (fun _ => "") (fun _ => []) d [refusal] := by
  have hstream : StreamBody [Bytes.ascii "data: \x7b\x7d\n\n"].flatten := by
    unfold StreamBody
    decide
  refine ⟨[[Bytes.ascii "data: \x7b\x7d\n\n"]], { active := false }, refused,
    .turn .start (.inl hstream) ?_, errorBody_refusal, by decide, fun hkept => ?_⟩
  · rw [turnEnd, sniffChunks_stream _ rfl rfl hstream, if_neg (by decide)]
    rfl
  · have htold := (hkept.error refused errorBody_refusal (by decide)).1
    rw [turnEnd, sniffChunks_asleep _ rfl] at htold
    cases htold

end Turns

end GoogleAIClient

end LLMQore
