import Mathlib.Algebra.GroupWithZero.Nat
import LLMQore.Network.SSEChunking

/-!
# LLMQore.Network.SSEFormat

What the parser reads of an event that `format` wrote.

Each line of the text is processed as it was written (`feed_line`, `processLine_field`), so
the event is what the fields of the lines make of it. The parser puts a line feed between
two lines of data only where it has data already, so the line feeds the data starts with
are lost (`joinData_splitOn`); and reading the type skips a byte order mark.
-/

namespace LLMQore.Network

open Bytes Streaming

namespace SSEParser

/-! ### Lines -/

/-- A line that ends in CRLF is processed. -/
theorem feed_line (p : SSEParser) (line : Bytes) (hlf : lf ∉ line) (hcr : cr ∉ line)
    (rest : Bytes) :
    feed step (p.withLine [] false) (line ++ crlf ++ rest) =
      emit (p.processLine line).2 (feed step ((p.processLine line).1.withLine [] false) rest) := by
  have hread : ∀ before, feed step (p.withLine before false) (line ++ crlf ++ rest) =
      feed step (p.withLine (before ++ line) false) (crlf ++ rest) := by
    induction line with
    | nil => simp
    | cons c line ih =>
        intro before
        obtain ⟨hclf, hlf⟩ := List.ne_and_not_mem_of_not_mem_cons hlf
        obtain ⟨hccr, hcr⟩ := List.ne_and_not_mem_of_not_mem_cons hcr
        rw [List.cons_append, List.cons_append, feed_cons,
          step_other p before false (Ne.symm hclf) (Ne.symm hccr), emit_nil, ih hlf hcr,
          List.append_assoc, List.singleton_append]
  rw [hread, List.nil_append, crlf, List.cons_append, List.cons_append, List.nil_append, feed_cons,
    step_end p line (.inr rfl)]
  show emit _ (feed step ((p.processLine line).1.withLine [] true) (lf :: rest)) = _
  rw [feed_cons, step_skip, emit_nil]

/-- A line that `format` writes is read as its field and value. -/
theorem processLine_field (p : SSEParser) (field value : Bytes) (hne : field ≠ [])
    (hcolon : colon ∉ field) :
    p.processLine (field ++ [colon, space] ++ value) = (p.processField field value, []) := by
  have hidx : (field ++ [colon, space] ++ value).idxOf colon = field.length := by
    rw [List.append_assoc, List.idxOf_append_of_notMem hcolon]
    simp
  have hdrop : (field ++ [colon, space] ++ value).drop (field.length + 1) = space :: value := by
    rw [show field ++ [colon, space] ++ value = (field ++ [colon]) ++ (space :: value) from by simp]
    exact List.drop_left' (by simp)
  have hsplit : splitField (field ++ [colon, space] ++ value) = (field, value) := by
    unfold splitField
    rw [if_pos (by simp), hidx, hdrop]
    simp
  obtain ⟨c, rest, rfl⟩ := List.exists_cons_of_ne_nil hne
  have hc : c ≠ colon := fun h => hcolon (h ▸ List.mem_cons_self)
  rw [processLine, hsplit, if_neg (by simp), if_neg (by simpa using hc)]

/-! ### Data -/

/-- The data after some lines of data. -/
def joinData (data : Bytes) (lines : List Bytes) : Bytes :=
  lines.foldl (fun data line => (if data.isEmpty then data else data ++ [lf]) ++ line) data

def withData (p : SSEParser) (data : Bytes) : SSEParser :=
  { p with current := { p.current with data } }

/-- The room some lines take, each with a separator. -/
def roomOf (lines : List Bytes) : Nat := (lines.map fun line => line.length + 1).sum

/-- Within the limit the lines of data are joined. -/
theorem feed_dataLines (lines : List Bytes) (rest : Bytes) :
    ∀ p : SSEParser, (∀ line ∈ lines, lf ∉ line ∧ cr ∉ line) → p.droppingEvent = false →
      (0 < p.maxBufferBytes → (p.current.data.length + roomOf lines : Nat) ≤ p.maxBufferBytes) →
      feed step (p.withLine [] false)
          ((lines.flatMap fun line => ascii "data: " ++ line ++ crlf) ++ rest) =
        feed step ((p.withData (joinData p.current.data lines)).withLine [] false) rest := by
  induction lines with
  | nil => exact fun p _ _ _ => rfl
  | cons line lines ih =>
      intro p hlines hdropping hlimit
      obtain ⟨⟨hlf, hcr⟩, hlines⟩ := List.forall_mem_cons.mp hlines
      have hlead : lf ∉ ascii "data: " ∧ cr ∉ ascii "data: " := by decide
      have hroom : roomOf (line :: lines) = line.length + 1 + roomOf lines := by
        simp [roomOf]
      have hadd : p.addData line = p.withData (joinData p.current.data [line]) := by
        unfold addData
        rw [if_neg (by simp [hdropping]), if_neg]
        · rfl
        · simp only [Bool.and_eq_true, decide_eq_true_eq, not_and, Int.not_lt]
          intro hpos
          have := hlimit hpos
          omega
      have hline : p.processLine (ascii "data: " ++ line) =
          (p.withData (joinData p.current.data [line]), []) := by
        have hread := processLine_field p (ascii "data") line (by decide) (by decide)
        rw [processField, if_neg (by decide), if_pos rfl, hadd] at hread
        exact hread
      rw [List.flatMap_cons, List.append_assoc, feed_line p _
        (fun h => (List.mem_append.mp h).elim hlead.1 hlf)
        (fun h => (List.mem_append.mp h).elim hlead.2 hcr), hline, emit_nil]
      refine (ih (p.withData (joinData p.current.data [line])) hlines hdropping ?_).trans rfl
      · intro hpos
        have hle := hlimit hpos
        have hlen : (joinData p.current.data [line]).length ≤
            p.current.data.length + (line.length + 1) := by
          simp only [joinData, List.foldl_cons, List.foldl_nil]
          split <;> simp
        show (((joinData p.current.data [line]).length + roomOf lines : Nat) : Int) ≤ _
        rw [hroom] at hle
        exact Int.le_trans (Int.ofNat_le.mpr (by omega)) hle

/-- Lines after data are put back together with line feeds. -/
theorem joinData_cons (lines : List Bytes) :
    ∀ {data : Bytes}, data ≠ [] → joinData data lines = [lf].intercalate (data :: lines) := by
  induction lines with
  | nil => intro data _; simp [joinData]
  | cons line lines ih =>
      intro data hdata
      have hne : data ++ [lf] ++ line ≠ [] := by simp
      rw [joinData, List.foldl_cons, if_neg (by simpa using hdata)]
      refine (ih hne).trans ?_
      cases lines with
      | nil => simp
      | cons l ls => simp [List.append_assoc]

/-- The pieces of the data are joined to it, but for the line feeds it starts with. -/
theorem joinData_splitOn (data : Bytes) :
    joinData [] (data.splitOn lf) = data.dropWhile (· == lf) := by
  induction data with
  | nil => rfl
  | cons c rest ih =>
      rw [List.splitOn_cons_eq_if_modifyHead, List.dropWhile_cons]
      by_cases hc : (c == lf) = true
      · rw [if_pos hc, if_pos hc]
        exact ih
      · rw [if_neg hc, if_neg hc]
        obtain ⟨line, lines, hsplit⟩ := List.exists_cons_of_ne_nil (List.splitOn_ne_nil lf rest)
        rw [hsplit, List.modifyHead_cons, joinData, List.foldl_cons]
        refine (joinData_cons lines (List.cons_ne_nil c line)).trans ?_
        have hwhole : [lf].intercalate (rest.splitOn lf) = rest := List.intercalate_splitOn lf
        rw [hsplit] at hwhole
        rw [← hwhole]
        cases lines with
        | nil => simp
        | cons l ls => simp

theorem roomOf_splitOn (data : Bytes) : roomOf (data.splitOn lf) = data.length + 1 := by
  induction data with
  | nil => rfl
  | cons c rest ih =>
      obtain ⟨line, lines, hsplit⟩ := List.exists_cons_of_ne_nil (List.splitOn_ne_nil lf rest)
      rw [List.splitOn_cons_eq_if_modifyHead]
      rw [hsplit] at ih ⊢
      unfold roomOf at ih ⊢
      split
      · simp only [List.map_cons, List.sum_cons, List.length_nil, List.length_cons] at ih ⊢
        omega
      · simp only [List.modifyHead_cons, List.map_cons, List.sum_cons, List.length_cons] at ih ⊢
        omega

/-! ### The event -/

/-- The type the parser collects before it dispatches. -/
def writtenType (type : Bytes) : String :=
  if !type.isEmpty && type != ascii "message" then type.toUtf8String else ""

/-- The parser that has read the fields of an event. -/
def collected (maxBufferBytes : Int) (type data id : Bytes) : SSEParser :=
  { maxBufferBytes, current := { type := writtenType type, data }, idBuffer := id }

/-- A line that `format` writes for a value is within one line. -/
theorem feed_field (p : SSEParser) (field : Bytes) {value : Bytes} (hne : field ≠ [])
    (hfield : colon ∉ field ∧ lf ∉ field ∧ cr ∉ field) (hvalue : lf ∉ value ∧ cr ∉ value)
    (rest : Bytes) :
    feed step (p.withLine [] false) (field ++ [colon, space] ++ value ++ crlf ++ rest) =
      feed step ((p.processField field value).withLine [] false) rest := by
  have hsep : (lf ≠ colon ∧ lf ≠ space) ∧ cr ≠ colon ∧ cr ≠ space := by decide
  rw [feed_line p _ (by simp [hfield, hvalue, hsep]) (by simp [hfield, hvalue, hsep]),
    processLine_field p field value hne hfield.1, emit_nil]

theorem feed_type (maxBufferBytes : Int) {type : Bytes} (htype : lf ∉ type ∧ cr ∉ type)
    (rest : Bytes) :
    feed step { maxBufferBytes }
        ((if !type.isEmpty && type != ascii "message" then ascii "event: " ++ type ++ crlf else [])
          ++ rest) =
      feed step (collected maxBufferBytes type [] []) rest := by
  unfold collected writtenType
  split
  · have hread := feed_field { maxBufferBytes } (ascii "event") (by decide) (by decide)
      htype rest
    rw [processField, if_pos rfl] at hread
    exact hread
  · rfl

theorem feed_data {maxBufferBytes : Int} {type data : Bytes} (hdata : data ≠ [])
    (hcr : cr ∉ data) (hlimit : 0 < maxBufferBytes → (data.length + 1 : Nat) ≤ maxBufferBytes)
    (rest : Bytes) :
    feed step (collected maxBufferBytes type [] []) (formatData data ++ rest) =
      feed step (collected maxBufferBytes type (data.dropWhile (· == lf)) []) rest := by
  have hlines : ∀ line ∈ data.splitOn lf, lf ∉ line ∧ cr ∉ line := fun line hline =>
    ⟨fun h => (mem_splitOn hline h).2 rfl, fun h => hcr (mem_splitOn hline h).1⟩
  rw [formatData, if_neg (by simpa using hdata)]
  refine (feed_dataLines _ rest (collected maxBufferBytes type [] []) hlines rfl ?_).trans ?_
  · intro hpos
    rw [roomOf_splitOn]
    simpa [collected] using hlimit hpos
  · rw [show (collected maxBufferBytes type [] []).current.data = [] from rfl, joinData_splitOn]
    rfl

theorem feed_id (maxBufferBytes : Int) (type data : Bytes) {id : Bytes}
    (hid : lf ∉ id ∧ cr ∉ id ∧ 0 ∉ id) (rest : Bytes) :
    feed step (collected maxBufferBytes type data [])
        ((if !id.isEmpty then ascii "id: " ++ id ++ crlf else []) ++ rest) =
      feed step (collected maxBufferBytes type data id) rest := by
  split
  · have hread := feed_field (collected maxBufferBytes type data []) (ascii "id")
      (by decide) (by decide) ⟨hid.1, hid.2.1⟩ rest
    rw [processField, if_neg (by decide), if_neg (by decide), if_pos rfl, if_neg hid.2.2] at hread
    exact hread
  · rename_i he
    obtain rfl : id = [] := by simpa using he
    rfl

theorem length_formatData (data : Bytes) : data.length + 1 ≤ (formatData data).length := by
  have hcrlf : crlf.length = 2 := rfl
  have hlines : ∀ lines : List Bytes, roomOf lines ≤
      (lines.flatMap fun line => ascii "data: " ++ line ++ crlf).length := by
    intro lines
    induction lines with
    | nil => exact Nat.le_refl _
    | cons line rest ih =>
        unfold roomOf at ih ⊢
        rw [List.flatMap_cons, List.map_cons, List.sum_cons]
        simp only [List.length_append]
        omega
  unfold formatData
  split
  · rename_i he
    have hnil : data.length = 0 := by simpa using he
    rw [List.length_append]
    omega
  · rw [← roomOf_splitOn]
    exact hlines _

theorem length_format (data type id : Bytes) :
    data.length + 1 ≤ (format data type id).length := by
  have := length_formatData data
  unfold format
  simp only [List.length_append]
  omega

/-- The events of the text `format` writes. -/
theorem append_format {maxBufferBytes : Int} {data type id : Bytes} (hdata : data ≠ [])
    (hcr : cr ∉ data) (htype : lf ∉ type ∧ cr ∉ type) (hid : lf ∉ id ∧ cr ∉ id ∧ 0 ∉ id)
    (hlimit : 0 < maxBufferBytes → ((format data type id).length : Int) ≤ maxBufferBytes) :
    (SSEParser.append { maxBufferBytes } (format data type id)).2 =
      (collected maxBufferBytes type (data.dropWhile (· == lf)) id).dispatch.2 := by
  have hroom : 0 < maxBufferBytes → (data.length + 1 : Nat) ≤ maxBufferBytes := fun hpos =>
    Int.le_trans (Int.ofNat_le.mpr (length_format data type id)) (hlimit hpos)
  have hend := feed_line (collected maxBufferBytes type (data.dropWhile (· == lf)) id)
    [] (by decide) (by decide) []
  rw [append_eq_feed]
  unfold format
  rw [feed_type maxBufferBytes htype, feed_data hdata hcr hroom, feed_id _ _ _ hid]
  exact congrArg Prod.snd hend |>.trans (by simp [emit, processLine])

end SSEParser

/-- The parser gives back the event it is sent, and nothing else. -/
def ReadsBack (maxBufferBytes : Int) (data : Bytes) (type : String) (id : Bytes) : Prop :=
  ∃ event, (SSEParser.append { maxBufferBytes }
      (SSEParser.format data (ofString type) id)).2 = [event] ∧
    event.data = data ∧ event.type = (if type = "" then "message" else type) ∧
    (id ≠ [] → event.id = id)

/-- The type the parser gives an event of a type: a byte order mark is lost. -/
theorem readType (type : String) :
    (if (SSEParser.writtenType (ofString type)).isEmpty then "message"
      else SSEParser.writtenType (ofString type)) = (if type = "" then "message" else type) ↔
      ¬ utf8Bom <+: ofString type := by
  have hmessage : ofString "message" = ascii "message" := by
    rw [ofString_eq]
    decide
  unfold SSEParser.writtenType
  by_cases hwritten : (!(ofString type).isEmpty && ofString type != ascii "message") = true
  · rw [if_pos hwritten, toUtf8String_ofString]
    obtain ⟨hne, hnm⟩ := Bool.and_eq_true_iff.mp hwritten
    have htype : type ≠ "" := by
      rintro rfl
      rw [ofString_eq] at hne
      exact absurd hne (by decide)
    have hnot : type ≠ "message" := by
      rintro rfl
      rw [hmessage] at hnm
      exact absurd hnm (by decide)
    have hlist : type.toList ≠ [] := fun h => htype (String.toList_inj.mp h)
    rw [if_neg htype]
    by_cases hbom : utf8Bom <+: ofString type
    · rw [if_pos (List.isPrefixOf_iff_prefix.mpr hbom)]
      refine ⟨fun h => ?_, fun h => absurd hbom h⟩
      split at h
      · exact absurd h.symm hnot
      · have hlen := congrArg (fun s => s.toList.length) h
        simp only [String.toList_ofList, List.length_tail] at hlen
        have := List.length_pos_of_ne_nil hlist
        omega
    · rw [if_neg fun h => hbom (List.isPrefixOf_iff_prefix.mp h), if_neg (by simpa using htype)]
      exact iff_of_true rfl hbom
  · rw [if_neg hwritten, if_pos (by decide)]
    have hcases : ofString type = [] ∨ ofString type = ascii "message" :=
      or_iff_not_imp_left.mpr (by simpa using hwritten)
    rcases hcases with hnil | hm
    · have htype : type = "" := by
        have := toUtf8String_ofString type
        rw [hnil] at this
        exact this.symm
      rw [if_pos htype, hnil]
      decide
    · have htype : type = "message" := by
        have hread := toUtf8String_ofString type
        rw [hm, ← hmessage, toUtf8String_ofString, hmessage] at hread
        exact hread.symm
      rw [hm, htype]
      decide

/-- A formatted event is read back exactly where its data starts with no line feed and its
type with no byte order mark. -/
theorem sse_format_read_back (maxBufferBytes : Int) (data : Bytes) (type : String) (id : Bytes)
    (hdata : data ≠ []) (hcr : cr ∉ data) (htype : lf ∉ ofString type ∧ cr ∉ ofString type)
    (hid : lf ∉ id ∧ cr ∉ id ∧ 0 ∉ id)
    (hlimit : 0 < maxBufferBytes →
      ((SSEParser.format data (ofString type) id).length : Int) ≤ maxBufferBytes) :
    ReadsBack maxBufferBytes data type id ↔
      data.head? ≠ some lf ∧ ¬ utf8Bom <+: ofString type := by
  unfold ReadsBack
  rw [SSEParser.append_format hdata hcr htype hid hlimit, ← readType]
  have hdrop : data.dropWhile (· == lf) = data ↔ data.head? ≠ some lf := by
    obtain ⟨c, rest, rfl⟩ := List.exists_cons_of_ne_nil hdata
    rw [List.dropWhile_cons]
    by_cases hc : c = lf
    · have hlen := (List.dropWhile_sublist (l := rest) (· == lf)).length_le
      subst hc
      simp
      intro h
      have := congrArg List.length h
      simp at this
      omega
    · simp [hc]
  rw [← hdrop]
  unfold SSEParser.dispatch SSEParser.collected
  constructor
  · rintro ⟨event, hevents, hd, ht, -⟩
    dsimp only at hevents
    split at hevents
    · obtain rfl := List.singleton_inj.mp hevents
      exact ⟨hd, ht⟩
    · cases hevents
  · rintro ⟨hd, ht⟩
    rw [hd]
    exact ⟨_, if_pos (by simpa using hdata), rfl, ht, fun _ => rfl⟩

/-- Repeated and trailing line feeds are read back. -/
theorem sse_format_read_back_lines :
    ReadsBack 64 (ascii "one\n\ntwo\n") "custom" (ascii "42") := by
  have htype : ofString "custom" = ascii "custom" := by
    rw [ofString_eq]
    decide
  refine (sse_format_read_back 64 (ascii "one\n\ntwo\n") "custom" (ascii "42") (by decide)
    (by decide) ?_ (by decide) ?_).mpr ⟨by decide, ?_⟩
  · rw [htype]
    decide
  · rw [htype]
    decide
  · rw [htype]
    decide

/-- A line feed the data starts with is lost. -/
theorem sse_format_leading_line_feed : ¬ ReadsBack 64 (ascii "\na") "" [] := by
  have hevents : (SSEParser.append { maxBufferBytes := 64 }
      (SSEParser.format (ascii "\na") (ofString "") [])).2 =
      [{ type := "message", data := ascii "a" }] := by
    rw [show ofString "" = [] from rfl,
      SSEParser.append_format (by decide) (by decide) (by decide) (by decide) fun _ => by decide]
    rfl
  rintro ⟨event, hread, hdata, -⟩
  rw [hevents, List.singleton_inj] at hread
  rw [← hread] at hdata
  exact absurd hdata (by decide)

end LLMQore.Network
