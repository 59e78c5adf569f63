import LLMQore.Network.SSEParser

/-!
# LLMQore.Network.SSEChunking

Parsing server-sent events does not depend on how the stream is cut into chunks.

`step` is the parser one byte at a time: the line feed of a CRLF pair is skipped by
the flag alone, and `scan`, which looks ahead inside its chunk, agrees with it
(`scan_eq_feed`). What may tell `append` from `feed` is its last step, which drops a
line that has grown beyond the limit; along a stream whose lines are within it that
never happens, since the unfinished line is part of a line of the stream
(`feed_buffer`).
-/

namespace LLMQore.Network

open Bytes Streaming

/-! ### The lines of a stream -/

/-- The lines of a stream, the last one unterminated: a line ends at LF, CR or CRLF. -/
def splitLines : Bytes → List Bytes
  | [] => [[]]
  | c :: rest =>
      if c = cr then
        match rest with
        | [] => [[], []]
        | d :: rest' => [] :: (if d = lf then splitLines rest' else splitLines (d :: rest'))
      else if c = lf then [] :: splitLines rest
      else
        match splitLines rest with
        | [] => [[c]]
        | line :: lines => (c :: line) :: lines

theorem splitLines_cr (rest : Bytes) :
    splitLines (cr :: rest) =
      [] :: splitLines (if rest.head? = some lf then rest.tail else rest) := by
  cases rest with
  | nil => rfl
  | cons d rest' =>
      rw [splitLines.eq_def]
      by_cases hd : d = lf
      · simp [hd]
      · simp [hd]

theorem splitLines_lf (rest : Bytes) : splitLines (lf :: rest) = [] :: splitLines rest := by
  rw [splitLines.eq_def]
  exact (if_neg (by decide)).trans (if_pos rfl)

/-- There is always an unterminated line, perhaps empty. -/
theorem splitLines_ne_nil (s : Bytes) : splitLines s ≠ [] := by
  cases s with
  | nil => simp [splitLines]
  | cons c rest =>
      by_cases hcr : c = cr
      · rw [hcr, splitLines_cr]
        exact List.cons_ne_nil _ _
      · by_cases hlf : c = lf
        · rw [hlf, splitLines_lf]
          exact List.cons_ne_nil _ _
        · rw [splitLines.eq_def]
          simp only [if_neg hcr, if_neg hlf]
          split <;> exact List.cons_ne_nil _ _

theorem splitLines_cons {c : UInt8} (hlf : c ≠ lf) (hcr : c ≠ cr) (rest : Bytes) :
    ∃ line lines, splitLines rest = line :: lines ∧
      splitLines (c :: rest) = (c :: line) :: lines := by
  obtain ⟨line, lines, h⟩ := List.exists_cons_of_ne_nil (splitLines_ne_nil rest)
  refine ⟨line, lines, h, ?_⟩
  rw [splitLines.eq_def]
  simp only [if_neg hcr, if_neg hlf, h]

namespace SSEParser

/-! ### One byte at a time -/

/-- The parser reads one byte. -/
def step : Transducer SSEParser UInt8 SSEEvent := fun p c =>
  if p.skipLineFeed = true ∧ c = lf then ({ p with skipLineFeed := false }, [])
  else if c = lf ∨ c = cr then
    let r := p.processLine p.buffer
    ({ r.1 with buffer := [], skipLineFeed := decide (c = cr) }, r.2)
  else ({ p with buffer := p.buffer ++ [c], skipLineFeed := false }, [])

/-- The events of a line do not depend on what is buffered. -/
theorem processLine_withBuffer (p : SSEParser) (line buffer : Bytes) (skip : Bool) :
    ({ p with buffer, skipLineFeed := skip } : SSEParser).processLine line =
      ({ (p.processLine line).1 with buffer, skipLineFeed := skip }, (p.processLine line).2) := by
  unfold processLine
  split
  · rfl
  · split
    · rfl
    · unfold processField addData setRetry
      split_ifs <;> rfl

theorem processLine_buffer (p : SSEParser) (line : Bytes) :
    (p.processLine line).1.buffer = p.buffer ∧
      (p.processLine line).1.skipLineFeed = p.skipLineFeed ∧
      (p.processLine line).1.maxBufferBytes = p.maxBufferBytes := by
  unfold processLine
  split
  · exact ⟨rfl, rfl, rfl⟩
  · split
    · exact ⟨rfl, rfl, rfl⟩
    · unfold processField addData setRetry
      split_ifs <;> exact ⟨rfl, rfl, rfl⟩

/-- The state in which `line` is unfinished and nothing is to skip. -/
def withLine (p : SSEParser) (line : Bytes) (skip : Bool) : SSEParser :=
  { p with buffer := line, skipLineFeed := skip }

theorem withLine_buffer (p : SSEParser) (h : p.skipLineFeed = false) :
    p.withLine p.buffer false = p := by
  cases p
  cases h
  rfl

theorem step_skip (p : SSEParser) (line : Bytes) :
    step (p.withLine line true) lf = (p.withLine line false, []) := rfl

/-- After the line end CR, a byte that is not LF is read as if nothing were to skip. -/
theorem step_noSkip (p : SSEParser) (line : Bytes) {c : UInt8} (hc : c ≠ lf) :
    step (p.withLine line true) c = step (p.withLine line false) c := by
  have hline := processLine_withBuffer p line line
  have hstep : ∀ skip, step (p.withLine line skip) c =
      if c = lf ∨ c = cr then
        ((p.processLine line).1.withLine [] (decide (c = cr)), (p.processLine line).2)
      else (p.withLine (line ++ [c]) false, []) := by
    intro skip
    unfold step
    rw [if_neg fun h => hc h.2]
    simp only [withLine, hline]
  rw [hstep, hstep]

theorem step_other (p : SSEParser) (line : Bytes) (skip : Bool) {c : UInt8} (hlf : c ≠ lf)
    (hcr : c ≠ cr) : step (p.withLine line skip) c = (p.withLine (line ++ [c]) false, []) := by
  unfold step
  rw [if_neg fun h => hlf h.2, if_neg fun h => h.elim hlf hcr]
  rfl

/-- A line end. -/
theorem step_end (p : SSEParser) (line : Bytes) {c : UInt8} (hc : c = lf ∨ c = cr) :
    step (p.withLine line false) c =
      ((p.processLine line).1.withLine [] (decide (c = cr)), (p.processLine line).2) := by
  have hline : (p.withLine line false).processLine line =
      ((p.processLine line).1.withLine line false, (p.processLine line).2) :=
    processLine_withBuffer p line line false
  unfold step
  rw [if_neg nofun, if_pos hc]
  simp only [show (p.withLine line false).buffer = line from rfl, hline]
  rfl

/-- The loop of `append` reads one byte after the other. -/
theorem scan_eq_feed (p : SSEParser) (line rest : Bytes) (hskip : p.skipLineFeed = false) :
    scan p line rest = feed step (p.withLine line false) rest := by
  induction p, line, rest using scan.induct with
  | case1 p line =>
      rw [scan, feed_nil, withLine, ← hskip]
  | case2 p line c rest hc ih =>
      rw [scan, if_pos hc, ih hskip, feed_cons, step_other p line false hc.1 hc.2, emit_nil]
  | case3 p line p₁ events hline hcr =>
      have hskip₁ := (processLine_buffer p line).2.1
      rw [scan, if_neg hcr, feed_cons, step_end p line (.inr rfl), hline]
      simp [emit, withLine]
  | case4 p line p₁ events hline rest' hcr ih =>
      have hskip₁ : p₁.skipLineFeed = false := by
        rw [← hskip, ← (processLine_buffer p line).2.1, hline]
      rw [feed_cons, step_end p line (.inr rfl), hline, feed_cons]
      simp only [decide_true, step_skip, emit_nil, ← ih hskip₁]
      rw [scan, if_neg hcr, hline]
      simp
  | case5 p line p₁ events hline d rest' hd hcr ih =>
      have hskip₁ : p₁.skipLineFeed = false := by
        rw [← hskip, ← (processLine_buffer p line).2.1, hline]
      have hfeed : feed step (p₁.withLine [] true) (d :: rest') =
          feed step (p₁.withLine [] false) (d :: rest') := by
        rw [feed_cons, feed_cons, step_noSkip p₁ [] hd]
      rw [feed_cons, step_end p line (.inr rfl), hline]
      simp only [decide_true, hfeed, ← ih hskip₁]
      rw [scan, if_neg hcr, hline]
      simp [hd]
  | case6 p line c rest hc p₁ events hline hcr ih =>
      have hlf : c = lf := by
        by_contra h
        exact hc ⟨h, hcr⟩
      have hskip₁ : p₁.skipLineFeed = false := by
        rw [← hskip, ← (processLine_buffer p line).2.1, hline]
      rw [feed_cons, step_end p line (.inl hlf), hline]
      simp only [hcr, decide_false, ← ih hskip₁]
      rw [scan.eq_def]
      simp only [if_neg hc, hline, if_neg hcr]

/-- Appending a chunk, apart from the limit. -/
theorem append_eq_feed (p : SSEParser) (chunk : Bytes) :
    p.append chunk = ((feed step p chunk).1.enforceLimit, (feed step p chunk).2) := by
  unfold append
  cases hskip : p.skipLineFeed with
  | false =>
      have hscan : scan p p.buffer chunk = feed step p chunk := by
        rw [scan_eq_feed p p.buffer chunk hskip, withLine_buffer p hskip]
      simp only [hscan]
  | true =>
      have hp : p.withLine p.buffer true = p := by
        cases p
        cases hskip
        rfl
      cases chunk with
      | nil => simp [scan]
      | cons c rest =>
          have hscan : ∀ rest, scan { p with skipLineFeed := false } p.buffer rest =
              feed step (p.withLine p.buffer false) rest := fun rest =>
            scan_eq_feed { p with skipLineFeed := false } p.buffer rest rfl
          have hfeed : feed step p (c :: rest) =
              feed step (p.withLine p.buffer false) (if c = lf then rest else c :: rest) := by
            conv => lhs; rw [← hp]
            by_cases hc : c = lf
            · rw [if_pos hc, hc, feed_cons, step_skip, emit_nil]
            · rw [if_neg hc, feed_cons, feed_cons, step_noSkip p p.buffer hc]
          simp only [hscan, hfeed]

/-! ### The unfinished line -/

/-- The lines of a stream of which `p` has read the beginning: the first goes on from
the unfinished line. -/
def linesFrom (p : SSEParser) (s : Bytes) : List Bytes :=
  match splitLines (if p.skipLineFeed = true ∧ s.head? = some lf then s.tail else s) with
  | [] => [p.buffer]
  | line :: lines => (p.buffer ++ line) :: lines

theorem linesFrom_eq {p : SSEParser} {s line : Bytes} {lines : List Bytes}
    (h : splitLines (if p.skipLineFeed = true ∧ s.head? = some lf then s.tail else s) =
      line :: lines) : p.linesFrom s = (p.buffer ++ line) :: lines := by
  rw [linesFrom, h]

/-- The unfinished line is the beginning of a line. -/
theorem exists_linesFrom (p : SSEParser) (s : Bytes) :
    ∃ line ∈ p.linesFrom s, p.buffer.length ≤ line.length := by
  obtain ⟨line, lines, h⟩ := List.exists_cons_of_ne_nil
    (splitLines_ne_nil (if p.skipLineFeed = true ∧ s.head? = some lf then s.tail else s))
  refine ⟨p.buffer ++ line, ?_, by simp⟩
  rw [linesFrom_eq h]
  exact List.mem_cons_self

/-- Reading a byte leaves the lines that are still to come, or ends the first. -/
theorem linesFrom_step (p : SSEParser) (c : UInt8) (s : Bytes) :
    ∀ line ∈ (step p c).1.linesFrom s, line ∈ p.linesFrom (c :: s) := by
  by_cases hskip : p.skipLineFeed = true ∧ c = lf
  · obtain ⟨hskip, rfl⟩ := hskip
    have hstep : (step p lf).1 = p.withLine p.buffer false := by
      rw [step, if_pos ⟨hskip, rfl⟩]
      rfl
    rw [hstep]
    intro line hline
    simpa [linesFrom, withLine, hskip] using hline
  · -- nothing is skipped: the stream's lines are those of `c :: s`
    have hnow : (if p.skipLineFeed = true ∧ (c :: s).head? = some lf then (c :: s).tail
        else c :: s) = c :: s := if_neg fun h => hskip ⟨h.1, Option.some.inj h.2⟩
    by_cases hcr : c = cr
    · subst hcr
      have hstep : (step p cr).1 = (p.processLine p.buffer).1.withLine [] true := by
        rw [step, if_neg hskip, if_pos (.inr rfl)]
        rfl
      rw [hstep]
      have hlines : p.linesFrom (cr :: s) = p.buffer ::
          splitLines (if s.head? = some lf then s.tail else s) := by
        rw [linesFrom, hnow, splitLines_cr]
        simp
      intro line hline
      rw [hlines]
      refine List.mem_cons_of_mem _ ?_
      obtain ⟨l, ls, hl⟩ := List.exists_cons_of_ne_nil
        (splitLines_ne_nil (if s.head? = some lf then s.tail else s))
      simpa [linesFrom, withLine, hl] using hline
    · by_cases hlf : c = lf
      · subst hlf
        have hstep : (step p lf).1 = (p.processLine p.buffer).1.withLine [] false := by
          rw [step, if_neg hskip, if_pos (.inl rfl)]
          rfl
        rw [hstep]
        have hlines : p.linesFrom (lf :: s) = p.buffer :: splitLines s := by
          rw [linesFrom, hnow, splitLines_lf]
          simp
        intro line hline
        rw [hlines]
        refine List.mem_cons_of_mem _ ?_
        obtain ⟨l, ls, hl⟩ := List.exists_cons_of_ne_nil (splitLines_ne_nil s)
        simpa [linesFrom, withLine, hl] using hline
      · have hstep : (step p c).1 = p.withLine (p.buffer ++ [c]) false := by
          rw [step, if_neg hskip, if_neg fun h => h.elim hlf hcr]
          rfl
        rw [hstep]
        obtain ⟨l, ls, hl, hcl⟩ := splitLines_cons hlf hcr s
        have hlines : p.linesFrom (c :: s) = (p.buffer ++ c :: l) :: ls := by
          rw [linesFrom, hnow, hcl]
        intro line hline
        rw [hlines]
        simpa [linesFrom, withLine, hl] using hline

/-- The unfinished line of a parser is part of a line of the stream it reads. -/
theorem feed_buffer (p : SSEParser) (before after : Bytes) :
    ∃ line ∈ p.linesFrom (before ++ after),
      (feed step p before).1.buffer.length ≤ line.length := by
  induction before generalizing p with
  | nil => exact exists_linesFrom p after
  | cons c before ih =>
      obtain ⟨line, hline, hle⟩ := ih (step p c).1
      exact ⟨line, linesFrom_step p c _ line hline, hle⟩

theorem feed_maxBufferBytes (p : SSEParser) (s : Bytes) :
    (feed step p s).1.maxBufferBytes = p.maxBufferBytes := by
  induction s generalizing p with
  | nil => rfl
  | cons c s ih =>
      rw [feed_cons, emit_fst, ih]
      unfold step
      split_ifs
      · rfl
      · exact (processLine_buffer p p.buffer).2.2
      · rfl

theorem enforceLimit_eq {p : SSEParser}
    (h : 0 < p.maxBufferBytes → (p.buffer.length : Int) ≤ p.maxBufferBytes) :
    p.enforceLimit = p := by
  unfold enforceLimit
  rw [if_neg]
  simp only [Bool.and_eq_true, decide_eq_true_eq, not_and, Int.not_lt]
  exact h

end SSEParser

/-! ### Chunks -/

/-- A stream whose lines are within the parser's limit, if it has one. -/
def WithinLimit (maxBufferBytes : Int) (stream : Bytes) : Prop :=
  0 < maxBufferBytes → ∀ line ∈ splitLines stream, (line.length : Int) ≤ maxBufferBytes

instance (maxBufferBytes : Int) (stream : Bytes) : Decidable (WithinLimit maxBufferBytes stream) := by
  unfold WithinLimit; infer_instance

/-- On its way through a stream that is within its limit, a parser that began between two lines
reads each chunk byte by byte. -/
theorem append_eq_feed_of_within {p : SSEParser} (hbuffer : p.buffer = [])
    (hskip : p.skipLineFeed = false) {before chunk after : Bytes}
    (hlimit : WithinLimit p.maxBufferBytes (before ++ chunk ++ after)) :
    (feed SSEParser.step p before).1.append chunk =
      feed SSEParser.step (feed SSEParser.step p before).1 chunk := by
  have hlines : ∀ s, p.linesFrom s = splitLines s := by
    intro s
    obtain ⟨l, ls, hl⟩ := List.exists_cons_of_ne_nil (splitLines_ne_nil s)
    simp [SSEParser.linesFrom, hbuffer, hskip, hl]
  obtain ⟨line, hline, hle⟩ := p.feed_buffer (before ++ chunk) after
  rw [hlines] at hline
  rw [feed_append] at hle
  rw [SSEParser.append_eq_feed, SSEParser.enforceLimit_eq]
  intro hpos
  rw [SSEParser.feed_maxBufferBytes, SSEParser.feed_maxBufferBytes] at hpos ⊢
  exact Int.le_trans (Int.ofNat_le.mpr hle) (hlimit hpos line hline)

/-- However a stream is cut, a fresh parser ends as if it had been given the whole, with
the same events. -/
theorem appendAll_eq_append {maxBufferBytes : Int} {chunks : List Bytes}
    (hlimit : WithinLimit maxBufferBytes chunks.flatten) :
    appendAll SSEParser.append { maxBufferBytes } chunks =
      SSEParser.append { maxBufferBytes } chunks.flatten := by
  let fresh : SSEParser := { maxBufferBytes }
  have hagree : ∀ before chunk after, before ++ chunk ++ after = chunks.flatten →
      (feed SSEParser.step fresh before).1.append chunk =
        feed SSEParser.step (feed SSEParser.step fresh before).1 chunk := by
    intro before chunk after he
    exact append_eq_feed_of_within rfl rfl (he ▸ hlimit)
  have hwhole := hagree [] chunks.flatten [] (by simp)
  rw [appendAll_eq_feed hagree]
  exact hwhole.symm

/-- The events of a stream, and the id and the retry time after it, do not depend on
how it is cut into chunks. -/
theorem sse_chunking (maxBufferBytes : Int) (chunks : List Bytes)
    (hlimit : WithinLimit maxBufferBytes chunks.flatten) :
    let cut := appendAll SSEParser.append { maxBufferBytes } chunks
    let whole := SSEParser.append { maxBufferBytes } chunks.flatten
    cut.2 ++ cut.1.flush.2 = whole.2 ++ whole.1.flush.2 ∧
      cut.1.lastEventId = whole.1.lastEventId ∧ cut.1.retryMs = whole.1.retryMs := by
  intro cut whole
  have heq : cut = whole := appendAll_eq_append hlimit
  rw [heq]
  exact ⟨rfl, rfl, rfl⟩

/-- A stream with every line end, cut inside a CRLF pair and inside a character, in
which the data of the first event exceeds the limit. -/
theorem sse_chunking_dropped :
    let chunks := [ascii "data:aaa\ndata:b", ascii "bb\r", [], ascii "\n\r\ndata:c\rid:7\revent:",
      [0xC3], [0xA9, 10, 10]]
    let cut := appendAll SSEParser.append { maxBufferBytes := 8 } chunks
    let whole := SSEParser.append { maxBufferBytes := 8 } chunks.flatten
    cut.2 ++ cut.1.flush.2 = whole.2 ++ whole.1.flush.2 ∧
      cut.1.lastEventId = whole.1.lastEventId ∧ cut.1.retryMs = whole.1.retryMs :=
  sse_chunking 8 _ fun _ => by decide +kernel

end LLMQore.Network
