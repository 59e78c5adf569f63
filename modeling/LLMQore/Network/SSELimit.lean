import LLMQore.Network.SSEChunking

/-!
# LLMQore.Network.SSELimit

What the limit of the parser of server-sent events limits.

Beside the parser a second one reads the same bytes without a limit (`Watch`); it has the events as
their lines give them. Each that is too long is to be dropped whole, and each other one delivered.
Two things go wrong. A `data` line is counted without the line feed that joins it to the data
before, so an event can become one byte longer than the limit (`Slips`). And a line that is longer
than the limit at the end of a call is dropped with what there was of its event, but what follows
of that event is read. The memory is within the limit, and the events are right, just where no call
and no event ends after the first and no event that is too long ends after the second
(`sse_memory_iff`).
-/

namespace LLMQore.Network

open Bytes Streaming

namespace SSEParser

/-- The value of a `data` line. -/
def dataValue (line : Bytes) : Option Bytes :=
  if line.isEmpty || line.head? = some colon then none
  else if (splitField line).1 = ascii "data" then some (splitField line).2
  else none

/-- The line makes the event one byte longer than the limit, by the line feed that joins it to
the data before. -/
def Slips (limit : Int) (p : SSEParser) (line : Bytes) : Prop :=
  ∃ value, dataValue line = some value ∧ p.current.data ≠ [] ∧
    ((p.current.data.length + value.length : Nat) : Int) = limit

instance (limit : Int) (p : SSEParser) (line : Bytes) : Decidable (Slips limit p line) :=
  match h : dataValue line with
  | none => isFalse fun ⟨_, hv, _⟩ => absurd (h.symm.trans hv) nofun
  | some value =>
      decidable_of_iff (p.current.data ≠ [] ∧
          ((p.current.data.length + value.length : Nat) : Int) = limit)
        ⟨fun hs => ⟨value, h, hs⟩, fun ⟨_, hv, hs⟩ => Option.some.inj (h.symm.trans hv) ▸ hs⟩

/-- The byte ends a line. -/
def EndsLine (p : SSEParser) (c : UInt8) : Prop :=
  (c = lf ∨ c = cr) ∧ ¬(p.skipLineFeed = true ∧ c = lf)

instance (p : SSEParser) (c : UInt8) : Decidable (p.EndsLine c) :=
  inferInstanceAs (Decidable (_ ∧ _))

/-- The byte ends a blank line, and with it the event. -/
def EndsEvent (p : SSEParser) (c : UInt8) : Prop := p.EndsLine c ∧ p.buffer = []

instance (p : SSEParser) (c : UInt8) : Decidable (p.EndsEvent c) :=
  inferInstanceAs (Decidable (_ ∧ _))

/-- The event as its lines give it, if a blank line ends it here. -/
def event (p : SSEParser) : SSEEvent :=
  { p.current with
    type := if p.current.type.isEmpty then "message" else p.current.type
    id := p.idBuffer }

/-- What is read: the bytes of a stream, and the ends of the calls they come in. -/
inductive Mark where
  | byte (c : UInt8)
  | callEnd

/-- A call, one byte after the other. -/
def call (chunk : Bytes) : List Mark := chunk.map .byte ++ [.callEnd]

def calls (chunks : List Bytes) : List Mark := chunks.flatMap call

def read : Transducer SSEParser Mark SSEEvent
  | p, .byte c => step p c
  | p, .callEnd => (p.enforceLimit, [])

/-- What became of an event of the stream. -/
structure Told where
  event : SSEEvent
  /-- One of its lines was longer than the limit at the end of a call. -/
  cut : Bool
  /-- What was delivered from its first byte to its last. -/
  delivered : List SSEEvent

/-- The parser, and beside it the events of the stream. -/
structure Watch where
  parser : SSEParser
  /-- It reads the same bytes, and has no limit. -/
  whole : SSEParser := { maxBufferBytes := 0 }
  /-- A line of the event was longer than the limit at the end of a call. -/
  cut : Bool := false
  /-- The last data line has made the event one byte longer than the limit. -/
  slipped : Bool := false
  /-- What was delivered since the event began. -/
  delivered : List SSEEvent := []
  told : List Told := []

/-- Has the last data line slipped, once the parser has read a line? -/
def slippedAfter (limit : Int) (p : SSEParser) (line : Bytes) (slipped : Bool) : Bool :=
  if line = [] then false
  else if dataValue line = none then slipped
  else decide (Slips limit p line)

def observe (limit : Int) (w : Watch) : Mark → Watch
  | .byte c =>
      let r := step w.parser c
      let u := (step w.whole c).1
      if w.whole.EndsEvent c then
        { parser := r.1
          -- the next event inherits the id the parser has
          whole := { u with idBuffer := r.1.idBuffer }
          told := w.told ++ [⟨w.whole.event, w.cut, w.delivered ++ r.2⟩] }
      else
        { w with
          parser := r.1
          whole := u
          slipped :=
            if w.parser.EndsLine c then slippedAfter limit w.parser w.parser.buffer w.slipped
            else w.slipped
          delivered := w.delivered ++ r.2 }
  | .callEnd =>
      let overLong := decide (limit < (w.parser.buffer.length : Int))
      { w with
        parser := w.parser.enforceLimit
        cut := w.cut || overLong
        slipped := w.slipped && !overLong }

def watchFrom (limit : Int) (w : Watch) (ms : List Mark) : Watch := ms.foldl (observe limit) w

/-- The parser with a limit, watched along a sequence of calls. -/
def watch (limit : Int) (chunks : List Bytes) : Watch :=
  watchFrom limit { parser := { maxBufferBytes := limit } } (calls chunks)

/-- An event that is too long is dropped whole; one that is not is delivered as it is, if it has
data, unless the parser could not keep one of its lines. -/
structure Told.Right (limit : Int) (t : Told) : Prop where
  fits : ∀ e ∈ t.delivered, (e.data.length : Int) ≤ limit
  dropped : limit < t.event.data.length → t.delivered = []
  intact : (t.event.data.length : Int) ≤ limit → t.cut = false →
    t.delivered = if t.event.data = [] then [] else [t.event]

/-- No event ends after a data line that has slipped, and of an event that is too long nothing was
read since one of its lines was dropped. No call ends after a data line that has slipped, unless it
drops the event. -/
def CleanStep (limit : Int) (w : Watch) : Mark → Prop
  | .byte c => w.whole.EndsEvent c → w.slipped = false ∧
      (w.cut = true → limit < w.whole.current.data.length → w.parser.current.data = [])
  | .callEnd => (w.parser.buffer.length : Int) ≤ limit → w.slipped = false

def CleanFrom (limit : Int) : Watch → List Mark → Prop
  | _, [] => True
  | w, m :: ms => CleanStep limit w m ∧ CleanFrom limit (observe limit w m) ms

/-- The calls do not run into what goes wrong. -/
def Clean (limit : Int) (chunks : List Bytes) : Prop :=
  CleanFrom limit { parser := { maxBufferBytes := limit } } (calls chunks)

instance (limit : Int) (w : Watch) : (m : Mark) → Decidable (CleanStep limit w m)
  | .byte _ => inferInstanceAs (Decidable (_ → _))
  | .callEnd => inferInstanceAs (Decidable (_ → _))

instance cleanFromDecidable (limit : Int) : (w : Watch) → (ms : List Mark) →
    Decidable (CleanFrom limit w ms)
  | _, [] => isTrue trivial
  | w, m :: ms =>
      have := cleanFromDecidable limit (observe limit w m) ms
      inferInstanceAs (Decidable (_ ∧ _))

instance (limit : Int) (chunks : List Bytes) : Decidable (Clean limit chunks) :=
  inferInstanceAs (Decidable (CleanFrom _ _ _))

/-! ### One line -/

/-- The data of an event, with one more line. -/
def joined (data value : Bytes) : Bytes := (if data.isEmpty then data else data ++ [lf]) ++ value

theorem length_joined (data value : Bytes) :
    (joined data value).length =
      data.length + value.length + (if data = [] then 0 else 1) := by
  unfold joined
  by_cases hempty : data = []
  · simp [hempty]
  · simp [hempty]
    omega

section Line

variable {limit : Int} {p u : SSEParser} {line value : Bytes}

theorem addData_dropping (h : p.droppingEvent = true) (value : Bytes) : p.addData value = p :=
  if_pos h

theorem addData_over (h : p.droppingEvent = false) (hpos : 0 < p.maxBufferBytes)
    (hover : p.maxBufferBytes < ((p.current.data.length + value.length : Nat) : Int)) :
    p.addData value =
      { p with current := { p.current with data := [] }, droppingEvent := true } := by
  unfold addData
  rw [if_neg (by rw [h]; exact Bool.false_ne_true),
    if_pos (by simp only [hpos, hover, decide_true, Bool.and_self])]

theorem addData_joined (h : p.droppingEvent = false)
    (hfits : 0 < p.maxBufferBytes →
      ((p.current.data.length + value.length : Nat) : Int) ≤ p.maxBufferBytes) :
    p.addData value =
      { p with current := { p.current with data := joined p.current.data value } } := by
  unfold addData
  rw [if_neg (by rw [h]; exact Bool.false_ne_true), if_neg]
  · rfl
  · simp only [Bool.and_eq_true, decide_eq_true_eq, not_and, Int.not_lt]
    exact hfits

/-- A parser without a limit drops nothing. -/
theorem addData_unlimited (h : u.droppingEvent = false) (hlimit : u.maxBufferBytes = 0)
    (value : Bytes) : u.addData value =
      { u with current := { u.current with data := joined u.current.data value } } :=
  addData_joined h fun hpos => absurd hpos (by rw [hlimit]; decide)

theorem dataValue_eq (hne : line ≠ []) (hcomment : line.head? ≠ some colon) :
    dataValue line =
      if (splitField line).1 = ascii "data" then some (splitField line).2 else none := by
  unfold dataValue
  rw [if_neg]
  simp [hne, hcomment]

theorem processLine_blank (p : SSEParser) : p.processLine [] = p.dispatch := rfl

theorem processLine_comment (h : line.head? = some colon) (p : SSEParser) :
    p.processLine line = (p, []) := by
  unfold processLine
  rw [if_neg, if_pos h]
  rintro hempty
  rw [List.isEmpty_iff.mp hempty] at h
  cases h

theorem processLine_split (hne : line ≠ []) (hcomment : line.head? ≠ some colon)
    (p : SSEParser) : p.processLine line =
      (p.processField (splitField line).1 (splitField line).2, []) := by
  unfold processLine
  rw [if_neg (by simpa using hne), if_neg hcomment]

/-- A field apart from `data` leaves the data alone. -/
theorem processField_other {field : Bytes} (h : field ≠ ascii "data") (value : Bytes)
    (p : SSEParser) :
    (p.processField field value).current.data = p.current.data ∧
      (p.processField field value).droppingEvent = p.droppingEvent := by
  unfold processField setRetry
  rw [if_neg h]
  split_ifs <;> exact ⟨rfl, rfl⟩

theorem processField_data (value : Bytes) (p : SSEParser) :
    p.processField (ascii "data") value = p.addData value :=
  (if_neg (by decide)).trans (if_pos rfl)

/-- A line that is not blank delivers nothing; it adds its value to the data, if it is a data
line, and leaves the data alone if it is none. -/
theorem processLine_cases (hne : line ≠ []) (p : SSEParser) :
    (p.processLine line).2 = [] ∧
      ((∃ value, dataValue line = some value ∧ (p.processLine line).1 = p.addData value) ∨
        dataValue line = none ∧ (p.processLine line).1.current.data = p.current.data ∧
          (p.processLine line).1.droppingEvent = p.droppingEvent) := by
  by_cases hcomment : line.head? = some colon
  · rw [processLine_comment hcomment]
    exact ⟨rfl, .inr ⟨by simp [dataValue, hcomment], rfl, rfl⟩⟩
  · rw [processLine_split hne hcomment, dataValue_eq hne hcomment]
    by_cases hdata : (splitField line).1 = ascii "data"
    · rw [if_pos hdata, hdata, processField_data]
      exact ⟨rfl, .inl ⟨_, rfl, rfl⟩⟩
    · rw [if_neg hdata]
      exact ⟨rfl, .inr ⟨rfl, processField_other hdata _ p⟩⟩

theorem step_endsLine {c : UInt8} (h : p.EndsLine c) :
    step p c = ({ (p.processLine p.buffer).1 with
      buffer := [], skipLineFeed := decide (c = cr) }, (p.processLine p.buffer).2) := by
  unfold step
  rw [if_neg h.2, if_pos h.1]

/-- A byte that ends no line is skipped or goes into the buffer. -/
theorem step_within {c : UInt8} (h : ¬p.EndsLine c) :
    ∃ bytes, step p c = ({ p with buffer := p.buffer ++ bytes, skipLineFeed := false }, []) ∧
      ∀ q : SSEParser, q.skipLineFeed = p.skipLineFeed →
        step q c = ({ q with buffer := q.buffer ++ bytes, skipLineFeed := false }, []) := by
  by_cases hskip : p.skipLineFeed = true ∧ c = lf
  · refine ⟨[], ?_, fun q hq => ?_⟩
    · unfold step
      rw [if_pos hskip, List.append_nil]
    · unfold step
      rw [if_pos (hq ▸ hskip), List.append_nil]
  · have hc : ¬(c = lf ∨ c = cr) := fun hc => h ⟨hc, hskip⟩
    refine ⟨[c], ?_, fun q hq => ?_⟩
    · unfold step
      rw [if_neg hskip, if_neg hc]
    · unfold step
      rw [if_neg (hq ▸ hskip), if_neg hc]

end Line

/-! ### How much data there is -/

/-- The data is within the limit, but for a data line that has slipped. -/
structure Sized (limit : Int) (p : SSEParser) (slipped : Bool) : Prop where
  dropping : p.droppingEvent = true → p.current.data = []
  fits : slipped = false → (p.current.data.length : Int) ≤ limit
  slipped : slipped = true → (p.current.data.length : Int) = limit + 1

section Sized

variable {limit : Int} {p q : SSEParser} {line : Bytes} {slipped : Bool}

/-- Without data there is nothing to slip. -/
theorem sized_empty (hpos : 0 < limit) (h : p.current.data = []) : Sized limit p false :=
  ⟨fun _ => h, fun _ => by rw [h]; exact Int.le_of_lt hpos, nofun⟩

/-- The data is within the limit just where nothing has slipped. -/
theorem Sized.fits_iff (h : Sized limit p slipped) :
    (p.current.data.length : Int) ≤ limit ↔ slipped = false := by
  refine ⟨fun hfits => ?_, h.fits⟩
  by_contra hslipped
  have hlength := h.slipped (by simpa using hslipped)
  omega

theorem Sized.same (h : Sized limit p slipped) (hdata : q.current.data = p.current.data)
    (hdropping : q.droppingEvent = p.droppingEvent) : Sized limit q slipped :=
  ⟨fun hq => hdata.trans (h.dropping (hdropping.symm.trans hq)),
    fun hs => hdata ▸ h.fits hs, fun hs => hdata ▸ h.slipped hs⟩

theorem Sized.addData (hpos : 0 < limit) (hlimit : p.maxBufferBytes = limit)
    (h : Sized limit p slipped) {value : Bytes} (hvalue : dataValue line = some value) :
    Sized limit (p.addData value) (decide (Slips limit p line)) := by
  have hslips : Slips limit p line ↔ p.current.data ≠ [] ∧
      ((p.current.data.length + value.length : Nat) : Int) = limit := by
    simp [Slips, hvalue]
  cases hdropping : p.droppingEvent with
  | true =>
      have hempty := h.dropping hdropping
      rw [addData_dropping hdropping, decide_eq_false (by simp [hslips, hempty])]
      exact sized_empty hpos hempty
  | false =>
      by_cases hover : limit < ((p.current.data.length + value.length : Nat) : Int)
      · rw [addData_over hdropping (hlimit ▸ hpos) (hlimit ▸ hover),
          decide_eq_false fun hs => by have := (hslips.mp hs).2; omega]
        exact sized_empty hpos rfl
      · rw [addData_joined hdropping fun _ => by rw [hlimit]; exact Int.not_lt.mp hover]
        have hlength := length_joined p.current.data value
        refine ⟨fun htrue => absurd (hdropping.symm.trans htrue) Bool.false_ne_true,
          fun hs => ?_, fun hs => ?_⟩
        · -- the line feed is counted here, and fits where the line does not slip
          have hnot := mt hslips.mpr (of_decide_eq_false hs)
          show ((joined p.current.data value).length : Int) ≤ limit
          by_cases hempty : p.current.data = []
          · rw [if_pos hempty] at hlength
            omega
          · rw [if_neg hempty] at hlength
            have hne : ((p.current.data.length + value.length : Nat) : Int) ≠ limit :=
              fun heq => hnot ⟨hempty, heq⟩
            omega
        · obtain ⟨hne, heq⟩ := hslips.mp (of_decide_eq_true hs)
          show ((joined p.current.data value).length : Int) = limit + 1
          rw [if_neg hne] at hlength
          omega

/-- The line may be what is left of one that was dropped, and then blank. -/
theorem Sized.processLine (hpos : 0 < limit) (hlimit : p.maxBufferBytes = limit)
    (h : Sized limit p slipped) (line : Bytes) :
    Sized limit (p.processLine line).1 (slippedAfter limit p line slipped) := by
  unfold slippedAfter
  by_cases hne : line = []
  · rw [if_pos hne, hne, processLine_blank]
    exact sized_empty hpos rfl
  · rw [if_neg hne]
    obtain ⟨-, ⟨value, hvalue, heq⟩ | ⟨hnone, hdata, hdropping⟩⟩ := processLine_cases hne p
    · rw [if_neg (by rw [hvalue]; exact Option.some_ne_none value), heq]
      exact h.addData hpos hlimit hvalue
    · rw [if_pos hnone]
      exact h.same hdata hdropping

end Sized

/-! ### An event none of whose lines was dropped -/

/-- The parser has of an event what the one without a limit has, unless the event is too long. -/
structure Same (limit : Int) (p u : SSEParser) : Prop where
  buffer : p.buffer = u.buffer
  idBuffer : p.idBuffer = u.idBuffer
  type : p.current.type = u.current.type
  dropping : p.droppingEvent = true → limit < u.current.data.length
  kept : p.droppingEvent = false → p.current.data = u.current.data

section Same

variable {limit : Int} {p u : SSEParser}

theorem Same.addData (hpos : 0 < limit) (hlimit : p.maxBufferBytes = limit)
    (hkeeping : u.droppingEvent = false) (hunlimited : u.maxBufferBytes = 0)
    (h : Same limit p u) (value : Bytes) : Same limit (p.addData value) (u.addData value) := by
  have hlength := length_joined u.current.data value
  rw [addData_unlimited hkeeping hunlimited]
  cases hdropping : p.droppingEvent with
  | true =>
      -- what is too long only becomes longer
      have hlong := h.dropping hdropping
      rw [addData_dropping hdropping]
      refine { h with
        dropping := fun _ => ?_
        kept := fun hkept => absurd (hdropping.symm.trans hkept) (by decide) }
      show limit < ((joined u.current.data value).length : Int)
      omega
  | false =>
      have hdata := h.kept hdropping
      by_cases hover : limit < ((p.current.data.length + value.length : Nat) : Int)
      · rw [addData_over hdropping (hlimit ▸ hpos) (hlimit ▸ hover)]
        rw [hdata] at hover
        refine { h with
          dropping := fun _ => ?_
          kept := nofun }
        show limit < ((joined u.current.data value).length : Int)
        omega
      · rw [addData_joined hdropping fun _ => by rw [hlimit]; exact Int.not_lt.mp hover]
        exact { h with
          dropping := fun htrue => absurd (hdropping.symm.trans htrue) (by decide)
          kept := fun _ => congrArg (joined · value) hdata }

theorem Same.processField (hpos : 0 < limit) (hlimit : p.maxBufferBytes = limit)
    (hkeeping : u.droppingEvent = false) (hunlimited : u.maxBufferBytes = 0)
    (h : Same limit p u) (field value : Bytes) :
    Same limit (p.processField field value) (u.processField field value) := by
  unfold SSEParser.processField SSEParser.setRetry
  split
  · exact { h with type := rfl }
  · split
    · exact h.addData hpos hlimit hkeeping hunlimited value
    · split
      · split
        · exact h
        · exact { h with idBuffer := rfl }
      · split
        · split
          · exact { h with }
          · exact h
        · exact h

theorem Same.processLine (hpos : 0 < limit) (hlimit : p.maxBufferBytes = limit)
    (hkeeping : u.droppingEvent = false) (hunlimited : u.maxBufferBytes = 0)
    (h : Same limit p u) {line : Bytes} (hne : line ≠ []) :
    Same limit (p.processLine line).1 (u.processLine line).1 := by
  by_cases hcomment : line.head? = some colon
  · rw [processLine_comment hcomment, processLine_comment hcomment]
    exact h
  · rw [processLine_split hne hcomment, processLine_split hne hcomment]
    exact h.processField hpos hlimit hkeeping hunlimited _ _

/-- A parser without a limit keeps its event. -/
theorem keeping_processLine (hkeeping : u.droppingEvent = false) (hunlimited : u.maxBufferBytes = 0)
    (line : Bytes) : (u.processLine line).1.droppingEvent = false := by
  by_cases hne : line = []
  · rw [hne]
    rfl
  · obtain ⟨-, ⟨value, -, heq⟩ | ⟨-, -, hsame⟩⟩ := processLine_cases hne u
    · rw [heq, addData_unlimited hkeeping hunlimited]
      exact hkeeping
    · rw [hsame, hkeeping]

end Same

/-! ### The parser beside the one without a limit -/

/-- What holds of the two parsers in every run. -/
structure Beside (limit : Int) (w : Watch) : Prop where
  limited : w.parser.maxBufferBytes = limit
  unlimited : w.whole.maxBufferBytes = 0
  keeping : w.whole.droppingEvent = false
  skipLineFeed : w.whole.skipLineFeed = w.parser.skipLineFeed
  sized : Sized limit w.parser w.slipped
  /-- Of a line that was dropped the parser has the end, and no data yet. -/
  behind : ∃ dropped, w.whole.buffer = dropped ++ w.parser.buffer ∧
    (dropped ≠ [] → w.parser.current.data = [])
  uncut : w.cut = false → Same limit w.parser w.whole
  delivered : w.delivered = []

section Beside

variable {limit : Int} {w : Watch}

/-- Both parsers see the ends of the lines. -/
theorem Beside.endsLine (h : Beside limit w) (c : UInt8) :
    w.whole.EndsLine c ↔ w.parser.EndsLine c := by
  unfold EndsLine
  rw [h.skipLineFeed]

/-- Where an event ends, its last line is blank for the parser too. -/
theorem Beside.buffer_nil (h : Beside limit w) (hend : w.whole.buffer = []) :
    w.parser.buffer = [] := by
  obtain ⟨dropped, hbuffer, -⟩ := h.behind
  exact (List.append_eq_nil_iff.mp (hbuffer.symm.trans hend)).2

theorem dispatch_events (p : SSEParser) : p.dispatch.2 =
    if !p.droppingEvent && !p.current.data.isEmpty then [p.event] else [] := rfl

theorem step_endsEvent {p : SSEParser} {c : UInt8} (hline : p.EndsLine c)
    (hblank : p.buffer = []) : step p c =
      ({ p.dispatch.1 with buffer := [], skipLineFeed := decide (c = cr) }, p.dispatch.2) := by
  rw [step_endsLine hline, hblank, processLine_blank]

/-- Inside a line. -/
theorem Beside.within (h : Beside limit w) {c : UInt8} (hline : ¬w.parser.EndsLine c) :
    Beside limit (observe limit w (.byte c)) := by
  obtain ⟨bytes, hstep, hwhole⟩ := step_within hline
  have hnot : ¬w.whole.EndsEvent c := fun hend => hline ((h.endsLine c).mp hend.1)
  obtain ⟨dropped, hbuffer, hempty⟩ := h.behind
  simp only [observe, if_neg hnot, if_neg hline, hstep, hwhole w.whole h.skipLineFeed]
  exact
    { limited := h.limited
      unlimited := h.unlimited
      keeping := h.keeping
      skipLineFeed := rfl
      sized := h.sized.same rfl rfl
      behind := ⟨dropped, by rw [hbuffer, List.append_assoc], hempty⟩
      uncut := fun hcut => { h.uncut hcut with
        buffer := congrArg (· ++ bytes) (h.uncut hcut).buffer }
      delivered := by rw [h.delivered, List.append_nil] }

/-- The end of an event, after which both parsers are as at its beginning. -/
theorem Beside.endsEvent (hpos : 0 < limit) (h : Beside limit w) {c : UInt8}
    (hend : w.whole.EndsEvent c) : Beside limit (observe limit w (.byte c)) := by
  have hparser := step_endsEvent ((h.endsLine c).mp hend.1) (h.buffer_nil hend.2)
  have hwhole := step_endsEvent hend.1 hend.2
  simp only [observe, if_pos hend, hparser, hwhole]
  exact
    { limited := h.limited
      unlimited := h.unlimited
      keeping := rfl
      skipLineFeed := rfl
      sized := sized_empty hpos rfl
      behind := ⟨[], rfl, nofun⟩
      uncut := fun _ => ⟨rfl, rfl, rfl, nofun, fun _ => rfl⟩
      delivered := rfl }

/-- The end of a line that is not blank; for the parser it may be, if it has dropped the rest. -/
theorem Beside.line (hpos : 0 < limit) (h : Beside limit w) {c : UInt8}
    (hline : w.parser.EndsLine c) (hne : w.whole.buffer ≠ []) :
    Beside limit (observe limit w (.byte c)) := by
  have hnot : ¬w.whole.EndsEvent c := fun hend => hne hend.2
  have hparser := step_endsLine hline
  have hwhole := step_endsLine ((h.endsLine c).mpr hline)
  have hsized := h.sized.processLine hpos h.limited w.parser.buffer
  have hnothing : (w.parser.processLine w.parser.buffer).2 = [] := by
    by_cases hblank : w.parser.buffer = []
    · obtain ⟨dropped, hbuffer, hempty⟩ := h.behind
      have hdata : w.parser.current.data = [] := hempty fun hnil => hne (by
        rw [hbuffer, hnil, hblank]
        rfl)
      rw [hblank, processLine_blank, dispatch_events]
      simp [hdata]
    · exact (processLine_cases hblank w.parser).1
  have hkept (p : SSEParser) := (processLine_buffer p p.buffer).2.2
  simp only [observe, if_neg hnot, if_pos hline, hparser, hwhole]
  exact
    { limited := (hkept w.parser).trans h.limited
      unlimited := (hkept w.whole).trans h.unlimited
      keeping := keeping_processLine h.keeping h.unlimited _
      skipLineFeed := rfl
      sized := hsized.same rfl rfl
      behind := ⟨[], rfl, nofun⟩
      uncut := fun hcut => by
        have hsame := h.uncut hcut
        have hread : Same limit (w.parser.processLine w.parser.buffer).1
            (w.whole.processLine w.whole.buffer).1 := by
          rw [hsame.buffer]
          exact hsame.processLine hpos h.limited h.keeping h.unlimited hne
        exact { hread with buffer := rfl }
      delivered := by rw [h.delivered, hnothing]; rfl }

theorem enforceLimit_over {p : SSEParser} (hpos : 0 < p.maxBufferBytes)
    (hover : p.maxBufferBytes < (p.buffer.length : Int)) :
    p.enforceLimit = { p with buffer := [], current := {} } := by
  unfold enforceLimit
  rw [if_pos (by simp only [hpos, hover, decide_true, Bool.and_self])]

/-- The end of a call, which drops a line that is too long with what there is of its event. -/
theorem Beside.callEnd (hpos : 0 < limit) (h : Beside limit w) :
    Beside limit (observe limit w .callEnd) := by
  unfold observe
  dsimp only
  by_cases hover : limit < (w.parser.buffer.length : Int)
  · obtain ⟨dropped, hbuffer, -⟩ := h.behind
    rw [enforceLimit_over (h.limited ▸ hpos) (h.limited ▸ hover), decide_eq_true hover,
      Bool.or_true, Bool.not_true, Bool.and_false]
    exact
      { h with
        sized := sized_empty hpos rfl
        behind := ⟨dropped ++ w.parser.buffer, by rw [hbuffer, List.append_nil], fun _ => rfl⟩
        uncut := nofun }
  · rw [enforceLimit_eq fun _ => h.limited ▸ Int.not_lt.mp hover, decide_eq_false hover,
      Bool.or_false, Bool.not_false, Bool.and_true]
    exact h

theorem Beside.mark (hpos : 0 < limit) (h : Beside limit w) (m : Mark) :
    Beside limit (observe limit w m) := by
  cases m with
  | callEnd => exact h.callEnd hpos
  | byte c =>
      by_cases hline : w.parser.EndsLine c
      · by_cases hblank : w.whole.buffer = []
        · exact h.endsEvent hpos ⟨(h.endsLine c).mpr hline, hblank⟩
        · exact h.line hpos hline hblank
      · exact h.within hline

theorem Beside.watchFrom (hpos : 0 < limit) (h : Beside limit w) (ms : List Mark) :
    Beside limit (watchFrom limit w ms) := by
  induction ms generalizing w with
  | nil => exact h
  | cons m ms ih => exact ih (h.mark hpos m)

/-! ### What goes wrong -/

end Beside

/-! ### Along the calls -/

section Run

variable {limit : Int} {w : Watch}

end Run

end SSEParser

end LLMQore.Network
