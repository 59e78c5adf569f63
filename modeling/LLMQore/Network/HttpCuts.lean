import LLMQore.Network.HttpWire

/-!
# LLMQore.Network.HttpCuts

What the parser of HTTP requests makes of a stream, and whether it depends on how the stream is
cut.

What `parseNext` reports of a beginning of the stream it reports of more of it too, and where it
asks for more it goes on as if it had not been called (`parseNext_persists`). The exception is a
header section whose end has not come: it is measured where the chunk ends, and one whose end has
come is not measured at all.
-/

namespace LLMQore.Network

open Bytes

/-- Of the request line something is empty. -/
def HttpRequest.lacksLine (req : HttpRequest) : Bool :=
  req.method.isEmpty || req.target.isEmpty || req.httpVersion.isEmpty

namespace HttpRequestParser

/-! ### Reading chunks -/

/-- `parseNext` and `takeRequest` until there is no further request, with what `parseNext` then
returns. -/
def drain : Nat → HttpRequestParser → List HttpRequest × Status × HttpRequestParser
  | 0, p => ([], p.parseNext)
  | fuel + 1, p =>
      match p.parseNext with
      | (.complete, p) =>
          let (req, p) := p.takeRequest
          let r := drain fuel p
          (req :: r.1, r.2)
      | r => ([], r)

/-- What stops the reading: `NeedMoreData` does not. -/
def Status.error? : Status → Option Status
  | .needMoreData => none
  | status => some status

/-- `drain`, after a chunk. There are at most as many requests as bytes, and one that waits. -/
def readChunk (p : HttpRequestParser) (chunk : Bytes) :
    List HttpRequest × Status × HttpRequestParser :=
  drain (p.buffer.length + chunk.length + 1) (p.feed chunk)

/-- The requests of a stream that comes in chunks, and the error that ends it, if any. -/
def readAll (p : HttpRequestParser) : List Bytes → List HttpRequest × Option Status
  | [] => ([], none)
  | chunk :: chunks =>
      match p.readChunk chunk with
      | (reqs, .needMoreData, p) =>
          let r := readAll p chunks
          (reqs ++ r.1, r.2)
      | (reqs, error, _) => (reqs, some error)

/-- The parser after chunks of which none ended in an error. -/
def afterAll (p : HttpRequestParser) (chunks : List Bytes) : HttpRequestParser :=
  chunks.foldl (fun p chunk => (p.readChunk chunk).2.2) p

/-- The run of `drain`. -/
inductive Drains : HttpRequestParser → List HttpRequest → Status → HttpRequestParser → Prop
  | stop {p q s} : p.parseNext = (s, q) → s ≠ .complete → Drains p [] s q
  | take {p p' reqs s q} : p.parseNext = (.complete, p') → Drains p'.takeRequest.2 reqs s q →
      Drains p (p'.takeRequest.1 :: reqs) s q

/-- In the state `q` is `parseNext` called while `p` is drained. -/
inductive Turns : HttpRequestParser → HttpRequestParser → Prop
  | here {p} : Turns p p
  | next {p p' q} : p.parseNext = (.complete, p') → Turns p'.takeRequest.2 q → Turns p q

/-! ### More bytes -/

/-- What was reported before more bytes came, and what is reported with them. A header section
that was too long may have an end in them. -/
def Persists (x : Bytes) : Status × HttpRequestParser → Status × HttpRequestParser → Prop
  | (.needMoreData, p), r => r = (p.feed x).parseNext
  | (.headerOverflow, _), _ => True
  | (status, p), r => r = (status, p.feed x)

/-- The length of the body is a length while the body is read. -/
def Measured (p : HttpRequestParser) : Prop := p.phase = .readingBody → 0 ≤ p.contentLength

section Feed

variable {p p' : HttpRequestParser}

theorem toInt32_le {n : Int} (h : 0 ≤ n) : toInt32 n ≤ n := by
  unfold toInt32
  rw [Int.bmod_def]
  split_ifs <;> omega

/-- What is found stays found. -/
theorem headerEnd_append {b : Bytes} (h : 0 ≤ headerEnd b) (x : Bytes) :
    headerEnd (b ++ x) = headerEnd b ∧ (headerEnd b).toNat + 4 ≤ b.length := by
  unfold headerEnd at h ⊢
  cases hidx : indexOf (crlf ++ crlf) b with
  | none =>
      rw [hidx] at h
      exact absurd h (by decide)
  | some n =>
      rw [hidx] at h
      dsimp only at h ⊢
      have hlen : n + 4 ≤ b.length := indexOf_add_le hidx
      have hle : toInt32 n ≤ n := toInt32_le (Int.natCast_nonneg n)
      rw [indexOf_append hidx]
      exact ⟨rfl, by omega⟩

theorem parseHeaderBlock_feed {n : Nat} (h : n + 4 ≤ p.buffer.length) (x : Bytes) :
    (p.feed x).parseHeaderBlock n = (p.parseHeaderBlock n).feed x := by
  unfold parseHeaderBlock feed
  dsimp only
  rw [List.take_append_of_le_length (by omega), List.drop_append_of_le_length h]

theorem readLength_feed (p : HttpRequestParser) (x : Bytes) :
    (p.feed x).readLength = (p.readLength.1, p.readLength.2.feed x) := by
  unfold readLength feed
  dsimp only
  split
  · rfl
  · split
    · rfl
    · split_ifs <;> rfl

/-- The body is read next, of that length, where the length is no error. -/
theorem readLength_spec (p : HttpRequestParser) :
    (p.readLength.1 = none ∧ p.readLength.2.phase = .readingBody ∧
        0 ≤ p.readLength.2.contentLength) ∨
      p.readLength.1 = some .invalidContentLength ∨ p.readLength.1 = some .bodyTooLarge := by
  unfold readLength
  dsimp only
  split
  · exact .inl ⟨rfl, rfl, Int.le_refl _⟩
  · split
    · exact .inr (.inl rfl)
    · rename_i n _
      by_cases hneg : n < 0
      · rw [if_pos hneg]
        exact .inr (.inl rfl)
      · rw [if_neg hneg]
        split
        · exact .inr (.inr rfl)
        · exact .inl ⟨rfl, rfl, Int.not_lt.mp hneg⟩

theorem readBody_persists (hphase : p.phase = .readingBody) (hlen : 0 ≤ p.contentLength)
    (x : Bytes) : Persists x p.readBody (p.feed x).readBody := by
  have hparse : (p.feed x).parseNext = (p.feed x).readBody := by
    unfold parseNext
    rw [show (p.feed x).phase = .readingBody from hphase]
  by_cases hmore : (p.buffer.length : Int) < p.contentLength
  · rw [show p.readBody = (.needMoreData, p) from if_pos hmore]
    exact hparse.symm
  · -- the body is in the first bytes, whatever follows
    have hle := toInt32_le hlen
    have hsize : (toInt32 p.contentLength).toNat ≤ p.buffer.length := by omega
    have hread : p.readBody = (.complete, { p with
        current := { p.current with body := p.buffer.take (toInt32 p.contentLength).toNat }
        buffer := p.buffer.drop (toInt32 p.contentLength).toNat
        phase := .complete }) := if_neg hmore
    rw [hread]
    show (p.feed x).readBody = _
    unfold readBody feed
    rw [if_neg (by simp; omega)]
    dsimp only
    rw [List.take_append_of_le_length hsize, List.drop_append_of_le_length hsize]

/-- `readHeaders`, once the block is parsed. -/
def finish (p : HttpRequestParser) : Status × HttpRequestParser :=
  if p.current.lacksLine then (.invalidRequestLine, p)
  else
    match p.readLength with
    | (some error, p) => (error, p)
    | (none, p) => p.readBody

theorem readHeaders_found (h : 0 ≤ headerEnd p.buffer) :
    p.readHeaders = (p.parseHeaderBlock (headerEnd p.buffer).toNat).finish := by
  unfold readHeaders
  dsimp only
  rw [if_neg (Int.not_lt.mpr h)]
  rfl

theorem readHeaders_missing (h : headerEnd p.buffer < 0) :
    p.readHeaders = (if p.maxHeaderBytes < p.buffer.length then .headerOverflow
      else .needMoreData, p) := by
  unfold readHeaders
  dsimp only
  rw [if_pos h]

theorem finish_persists (p : HttpRequestParser) (x : Bytes) :
    Persists x p.finish (p.feed x).finish := by
  unfold finish
  rw [readLength_feed]
  by_cases hline : p.current.lacksLine = true
  · rw [if_pos hline, if_pos (show (p.feed x).current.lacksLine = true from hline)]
    rfl
  · rw [if_neg hline, if_neg (show ¬(p.feed x).current.lacksLine = true from hline)]
    rcases readLength_spec p with ⟨hnone, hphase, hlen⟩ | herror | herror
    · rcases hread : p.readLength with ⟨r, p₁⟩
      rw [hread] at hnone hphase hlen
      obtain rfl : r = none := hnone
      exact readBody_persists hphase hlen x
    · rcases hread : p.readLength with ⟨r, p₁⟩
      rw [hread] at herror
      obtain rfl : r = _ := herror
      rfl
    · rcases hread : p.readLength with ⟨r, p₁⟩
      rw [hread] at herror
      obtain rfl : r = _ := herror
      rfl

theorem readHeaders_persists (hphase : p.phase = .readingHeaders) (x : Bytes) :
    Persists x p.readHeaders (p.feed x).readHeaders := by
  by_cases hfound : 0 ≤ headerEnd p.buffer
  · obtain ⟨hsame, hlen⟩ := headerEnd_append hfound x
    have hfeed : 0 ≤ headerEnd (p.feed x).buffer := by
      show 0 ≤ headerEnd (p.buffer ++ x)
      rwa [hsame]
    rw [readHeaders_found hfound, readHeaders_found hfeed]
    show Persists x _ ((p.feed x).parseHeaderBlock (headerEnd (p.buffer ++ x)).toNat).finish
    rw [hsame, parseHeaderBlock_feed hlen]
    exact finish_persists _ x
  · rw [readHeaders_missing (Int.not_le.mp hfound)]
    split
    · trivial
    · show _ = (p.feed x).parseNext
      unfold parseNext
      rw [show (p.feed x).phase = .readingHeaders from hphase]

/-- What `parseNext` reports persists when more bytes come. -/
theorem parseNext_persists (h : p.Measured) (x : Bytes) :
    Persists x p.parseNext (p.feed x).parseNext := by
  unfold parseNext
  have hphase : (p.feed x).phase = p.phase := rfl
  rw [hphase]
  cases hp : p.phase with
  | readingHeaders => exact readHeaders_persists hp x
  | readingBody => exact readBody_persists hp (h hp) x
  | complete => rfl

/-! ### What `parseNext` reports -/

theorem readBody_status (p : HttpRequestParser) :
    (p.readBody = (.needMoreData, p)) ∨ p.readBody.1 = .complete := by
  unfold readBody
  split
  · exact .inl rfl
  · exact .inr rfl

/-- More data is asked for, for the header section or for the body. -/
theorem finish_needMoreData {q : HttpRequestParser} (h : p.finish = (.needMoreData, q)) :
    q.phase = .readingBody ∧ 0 ≤ q.contentLength := by
  unfold finish at h
  split at h
  · cases h
  · rcases hread : p.readLength with ⟨r, p₁⟩
    have hspec := readLength_spec p
    rw [hread] at h hspec
    rcases hspec with ⟨hnone, hphase, hlen⟩ | herror | herror
    · obtain rfl : r = none := hnone
      rcases readBody_status p₁ with hbody | hbody
      · have hq : (Status.needMoreData, p₁) = (.needMoreData, q) := hbody.symm.trans h
        obtain rfl : p₁ = q := (Prod.mk.inj hq).2
        exact ⟨hphase, hlen⟩
      · change p₁.readBody = _ at h
        rw [h] at hbody
        cases hbody
    · obtain rfl : r = _ := herror
      cases h
    · obtain rfl : r = _ := herror
      cases h

theorem finish_ne_headerOverflow (p : HttpRequestParser) : p.finish.1 ≠ .headerOverflow := by
  unfold finish
  split
  · nofun
  · rcases hread : p.readLength with ⟨r, p₁⟩
    have hspec := readLength_spec p
    rw [hread] at hspec
    rcases hspec with ⟨hnone, -, -⟩ | herror | herror
    · obtain rfl : r = none := hnone
      show p₁.readBody.1 ≠ _
      rcases readBody_status p₁ with hbody | hbody
      · rw [hbody]
        nofun
      · rw [hbody]
        nofun
    · obtain rfl : r = _ := herror
      nofun
    · obtain rfl : r = _ := herror
      nofun

theorem parseNext_needMoreData {q : HttpRequestParser} (h : p.parseNext = (.needMoreData, q))
    (hp : p.Measured) : q.Measured ∧ (q = p ∨ q.phase = .readingBody) := by
  unfold parseNext at h
  cases hphase : p.phase with
  | readingHeaders =>
      rw [hphase] at h
      change p.readHeaders = _ at h
      by_cases hfound : 0 ≤ headerEnd p.buffer
      · rw [readHeaders_found hfound] at h
        obtain ⟨hq, hlen⟩ := finish_needMoreData h
        exact ⟨fun _ => hlen, .inr hq⟩
      · rw [readHeaders_missing (Int.not_le.mp hfound)] at h
        obtain rfl : p = q := (Prod.mk.inj h).2
        exact ⟨hp, .inl rfl⟩
  | readingBody =>
      rw [hphase] at h
      change p.readBody = _ at h
      rcases readBody_status p with hbody | hbody
      · obtain rfl : p = q := (Prod.mk.inj (hbody.symm.trans h)).2
        exact ⟨hp, .inl rfl⟩
      · rw [h] at hbody
        cases hbody
  | complete =>
      rw [hphase] at h
      cases h

/-- A header section is too long as long as its end has not come. -/
theorem parseNext_headerOverflow {q : HttpRequestParser} :
    p.parseNext = (.headerOverflow, q) ↔ q = p ∧ p.phase = .readingHeaders ∧
      headerEnd p.buffer < 0 ∧ p.maxHeaderBytes < p.buffer.length := by
  unfold parseNext
  cases hphase : p.phase with
  | readingHeaders =>
      show p.readHeaders = _ ↔ _
      by_cases hfound : 0 ≤ headerEnd p.buffer
      · rw [readHeaders_found hfound]
        refine iff_of_false (fun h => ?_) fun h => absurd h.2.2.1 (Int.not_lt.mpr hfound)
        exact finish_ne_headerOverflow _ (by rw [h])
      · rw [readHeaders_missing (Int.not_le.mp hfound)]
        have hmissing := Int.not_le.mp hfound
        by_cases hlong : p.maxHeaderBytes < p.buffer.length
        · simp [hlong, hmissing, eq_comm]
        · simp [hlong]
  | readingBody =>
      show p.readBody = _ ↔ _
      refine iff_of_false (fun h => ?_) nofun
      rcases readBody_status p with hbody | hbody
      · rw [h] at hbody
        cases hbody
      · rw [h] at hbody
        cases hbody
  | complete => exact iff_of_false nofun nofun

theorem readBody_maxHeaderBytes (p : HttpRequestParser) :
    p.readBody.2.maxHeaderBytes = p.maxHeaderBytes := by
  unfold readBody
  split <;> rfl

theorem readLength_maxHeaderBytes (p : HttpRequestParser) :
    p.readLength.2.maxHeaderBytes = p.maxHeaderBytes ∧ p.readLength.2.buffer = p.buffer := by
  unfold readLength
  dsimp only
  split
  · exact ⟨rfl, rfl⟩
  · split
    · exact ⟨rfl, rfl⟩
    · split_ifs <;> exact ⟨rfl, rfl⟩

theorem readBody_length (p : HttpRequestParser) : p.readBody.2.buffer.length ≤ p.buffer.length := by
  unfold readBody
  split
  · exact Nat.le_refl _
  · simp

theorem finish_keeps (p : HttpRequestParser) :
    p.finish.2.maxHeaderBytes = p.maxHeaderBytes ∧
      p.finish.2.buffer.length ≤ p.buffer.length := by
  obtain ⟨hlimit, hbuffer⟩ := readLength_maxHeaderBytes p
  unfold finish
  split
  · exact ⟨rfl, Nat.le_refl _⟩
  · rcases hread : p.readLength with ⟨r, p₁⟩
    rw [hread] at hlimit hbuffer
    cases r with
    | none =>
        refine ⟨(readBody_maxHeaderBytes p₁).trans hlimit, ?_⟩
        rw [← hbuffer]
        exact readBody_length p₁
    | some error => exact ⟨hlimit, by rw [← hbuffer]⟩

theorem parseNext_maxHeaderBytes (p : HttpRequestParser) :
    p.parseNext.2.maxHeaderBytes = p.maxHeaderBytes := by
  unfold parseNext
  split
  · rfl
  · by_cases hfound : 0 ≤ headerEnd p.buffer
    · rw [readHeaders_found hfound]
      exact (finish_keeps _).1
    · rw [readHeaders_missing (Int.not_le.mp hfound)]
  · exact readBody_maxHeaderBytes p

/-- What is still to be read, and a request that waits to be taken. -/
def weight (p : HttpRequestParser) : Nat :=
  p.buffer.length + if p.phase = .readingHeaders then 0 else 1

theorem parseNext_weight {q : HttpRequestParser} (h : p.parseNext = (.complete, q)) :
    q.takeRequest.2.weight < p.weight := by
  show q.buffer.length + 0 < _
  unfold parseNext at h
  unfold weight
  cases hphase : p.phase with
  | readingHeaders =>
      rw [hphase] at h
      change p.readHeaders = _ at h
      by_cases hfound : 0 ≤ headerEnd p.buffer
      · rw [readHeaders_found hfound] at h
        obtain ⟨-, hlen⟩ := headerEnd_append hfound []
        have hkeeps := (finish_keeps (p.parseHeaderBlock (headerEnd p.buffer).toNat)).2
        rw [h] at hkeeps
        have hdrop : (p.parseHeaderBlock (headerEnd p.buffer).toNat).buffer.length =
            p.buffer.length - ((headerEnd p.buffer).toNat + 4) := List.length_drop
        change q.buffer.length ≤ _ at hkeeps
        simp only [if_true]
        omega
      · rw [readHeaders_missing (Int.not_le.mp hfound)] at h
        split at h <;> cases h
  | readingBody =>
      rw [hphase] at h
      change p.readBody = _ at h
      have hlen := readBody_length p
      rw [h] at hlen
      change q.buffer.length ≤ _ at hlen
      simp
      omega
  | complete =>
      rw [hphase] at h
      obtain rfl : p = q := (Prod.mk.inj h).2
      simp

/-! ### Runs of `drain` -/

variable {q r : HttpRequestParser} {reqs reqs' : List HttpRequest} {s s' : Status} {x : Bytes}

/-- What is called next depends on the result of `parseNext` only. -/
theorem Drains.congr (h : Drains p reqs s q) (hsame : p'.parseNext = p.parseNext) :
    Drains p' reqs s q := by
  cases h with
  | stop hparse hs => exact .stop (hsame.trans hparse) hs
  | take hparse hrest => exact .take (hsame.trans hparse) hrest

theorem Drains.unique (h : Drains p reqs s q) (h' : Drains p reqs' s' r) :
    reqs = reqs' ∧ s = s' ∧ q = r := by
  induction h generalizing reqs' with
  | stop hparse hs =>
      cases h' with
      | stop hparse' _ =>
          obtain ⟨rfl, rfl⟩ := Prod.mk.inj (hparse.symm.trans hparse')
          exact ⟨rfl, rfl, rfl⟩
      | take hparse' _ => exact absurd (Prod.mk.inj (hparse.symm.trans hparse')).1 hs
  | take hparse _ ih =>
      cases h' with
      | stop hparse' hs => exact absurd (Prod.mk.inj (hparse'.symm.trans hparse)).1 hs
      | take hparse' hrest' =>
          obtain ⟨-, rfl⟩ := Prod.mk.inj (hparse.symm.trans hparse')
          obtain ⟨rfl, rfl, rfl⟩ := ih hrest'
          exact ⟨rfl, rfl, rfl⟩

theorem Drains.ne_complete (h : Drains p reqs s q) : s ≠ .complete := by
  induction h with
  | stop _ hs => exact hs
  | take _ _ ih => exact ih

/-- A run of `drain` ends, within its fuel. -/
theorem drains_drain {fuel : Nat} (h : p.weight ≤ fuel) :
    Drains p (drain fuel p).1 (drain fuel p).2.1 (drain fuel p).2.2 := by
  induction fuel generalizing p with
  | zero =>
      refine .stop rfl fun hcomplete => ?_
      have hparse : p.parseNext = (.complete, p.parseNext.2) := Prod.ext hcomplete rfl
      have := parseNext_weight hparse
      omega
  | succ fuel ih =>
      rcases hparse : p.parseNext with ⟨status, q⟩
      unfold drain
      rw [hparse]
      cases status with
      | complete =>
          have hweight := parseNext_weight hparse
          exact .take hparse (ih (by omega))
      | needMoreData => exact .stop hparse nofun
      | headerOverflow => exact .stop hparse nofun
      | invalidRequestLine => exact .stop hparse nofun
      | invalidContentLength => exact .stop hparse nofun
      | bodyTooLarge => exact .stop hparse nofun

theorem drains_readChunk (p : HttpRequestParser) (chunk : Bytes) :
    Drains (p.feed chunk) (p.readChunk chunk).1 (p.readChunk chunk).2.1
      (p.readChunk chunk).2.2 := by
  refine drains_drain ?_
  have hlen : (p.feed chunk).buffer.length = p.buffer.length + chunk.length := List.length_append
  unfold weight
  rw [hlen]
  split <;> omega

theorem measured_takeRequest (p : HttpRequestParser) : p.takeRequest.2.Measured := nofun

theorem parseNext_complete_feed (h : p.parseNext = (.complete, q)) (hp : p.Measured) (x : Bytes) :
    (p.feed x).parseNext = (.complete, q.feed x) := by
  have hpersists := parseNext_persists hp x
  rw [h] at hpersists
  exact hpersists

theorem Drains.take_feed (hparse : p.parseNext = (.complete, p')) (hp : p.Measured)
    (h : Drains (p'.takeRequest.2.feed x) reqs s q) :
    Drains (p.feed x) (p'.takeRequest.1 :: reqs) s q :=
  @Drains.take _ (p'.feed x) _ _ _ (parseNext_complete_feed hparse hp x) h

theorem Turns.next_feed (hparse : p.parseNext = (.complete, p')) (hp : p.Measured)
    (h : Turns (p'.takeRequest.2.feed x) r) : Turns (p.feed x) r :=
  @Turns.next _ (p'.feed x) _ (parseNext_complete_feed hparse hp x) h

/-- After a chunk that was not enough, the next one is read as if both were one. -/
theorem Drains.feed_needMoreData (h : Drains p reqs .needMoreData q) (hp : p.Measured)
    (hmore : Drains (q.feed x) reqs' s r) : Drains (p.feed x) (reqs ++ reqs') s r := by
  generalize hstatus : Status.needMoreData = status at h
  induction h with
  | stop hparse _ =>
      subst hstatus
      have hpersists := parseNext_persists hp x
      rw [hparse] at hpersists
      exact hmore.congr hpersists
  | take hparse _ ih =>
      exact .take_feed hparse hp (ih (measured_takeRequest _) hmore hstatus)

theorem Drains.feed_error (h : Drains p reqs s q) (hp : p.Measured) (hmore : s ≠ .needMoreData)
    (hlong : s ≠ .headerOverflow) : Drains (p.feed x) reqs s (q.feed x) := by
  induction h with
  | @stop p q s hparse hs =>
      have hpersists := parseNext_persists hp x
      rw [hparse] at hpersists
      refine .stop ?_ hs
      cases s with
      | needMoreData => exact absurd rfl hmore
      | headerOverflow => exact absurd rfl hlong
      | complete => exact hpersists
      | invalidRequestLine => exact hpersists
      | invalidContentLength => exact hpersists
      | bodyTooLarge => exact hpersists
  | take hparse _ ih =>
      exact .take_feed hparse hp (ih (measured_takeRequest _) hmore hlong)

/-- A header section that is too long when a chunk ends has no end in what comes later. -/
def NoLateEnd (p : HttpRequestParser) (x : Bytes) : Prop :=
  ∀ r, Turns p r → r.phase = .readingHeaders → headerEnd r.buffer < 0 →
    r.maxHeaderBytes < r.buffer.length → headerEnd (r.buffer ++ x) < 0

theorem Drains.feed_headerOverflow (h : Drains p reqs .headerOverflow q) (hp : p.Measured)
    (hend : NoLateEnd p x) : Drains (p.feed x) reqs .headerOverflow (q.feed x) := by
  generalize hstatus : Status.headerOverflow = status at h
  induction h with
  | stop hparse hs =>
      subst hstatus
      obtain ⟨rfl, hphase, hmissing, hlong⟩ := parseNext_headerOverflow.mp hparse
      refine .stop (parseNext_headerOverflow.mpr ⟨rfl, hphase, ?_, ?_⟩) hs
      · exact hend _ .here hphase hmissing hlong
      · show _ < ((_ ++ x).length : Int)
        rw [List.length_append]
        change _ < _ at hlong
        simp only [feed]
        omega
  | take hparse _ ih =>
      exact .take_feed hparse hp
        (ih (measured_takeRequest _) (fun r hr => hend r (.next hparse hr)) hstatus)

/-- What a run passes it passes in one with more bytes. -/
theorem Turns.drains (h : Turns p r) (hp : p.Measured) :
    ∃ reqs, (∀ {reqs' s q}, Drains r reqs' s q → Drains p (reqs ++ reqs') s q) ∧
      ∀ x, Turns (p.feed x) (r.feed x) ∧
        ∀ {reqs' s q}, Drains (r.feed x) reqs' s q → Drains (p.feed x) (reqs ++ reqs') s q := by
  induction h with
  | here => exact ⟨[], fun h => h, fun _ => ⟨.here, fun h => h⟩⟩
  | next hparse _ ih =>
      obtain ⟨reqs, hruns, hmore⟩ := ih (measured_takeRequest _)
      refine ⟨_ :: reqs, fun h => .take hparse (hruns h), fun x => ?_⟩
      exact ⟨.next_feed hparse hp (hmore x).1, fun h => .take_feed hparse hp ((hmore x).2 h)⟩

/-- After a chunk that was not enough, header sections are come to as if both were one. -/
theorem Drains.turns (h : Drains p reqs .needMoreData q) (hp : p.Measured)
    (hr : Turns (q.feed x) r) (hphase : r.phase = .readingHeaders) : Turns (p.feed x) r := by
  generalize hstatus : Status.needMoreData = status at h
  induction h with
  | @stop p q status hparse _ =>
      subst hstatus
      have hpersists : (p.feed x).parseNext = (q.feed x).parseNext := by
        have hpersists := parseNext_persists hp x
        rwa [hparse] at hpersists
      cases hr with
      | here =>
          rcases (parseNext_needMoreData hparse hp).2 with rfl | hbody
          · exact .here
          · change q.phase = _ at hphase
            rw [hbody] at hphase
            cases hphase
      | next hcomplete hrest => exact .next (hpersists.trans hcomplete) hrest
  | take hparse _ ih =>
      exact .next_feed hparse hp (ih (measured_takeRequest _) hr hstatus)

theorem Drains.measured (h : Drains p reqs .needMoreData q) (hp : p.Measured) : q.Measured := by
  generalize hstatus : Status.needMoreData = status at h
  induction h with
  | stop hparse _ =>
      subst hstatus
      exact (parseNext_needMoreData hparse hp).1
  | take _ _ ih => exact ih (measured_takeRequest _) hstatus

theorem Turns.maxHeaderBytes (h : Turns p r) : r.maxHeaderBytes = p.maxHeaderBytes := by
  induction h with
  | here => rfl
  | @next p p' q hparse _ ih =>
      have hlimit := parseNext_maxHeaderBytes p
      rw [hparse] at hlimit
      exact ih.trans hlimit

/-! ### Chunks -/

/-- The parser `p` stands where one that has read `before`, starting from `p₀`, stands: header
sections are come to alike. -/
structure Stands (p₀ : HttpRequestParser) (before : Bytes) (p : HttpRequestParser) : Prop where
  measured : p.Measured
  turns : ∀ {x r}, Turns (p.feed x) r → r.phase = .readingHeaders →
    Turns (p₀.feed (before ++ x)) r

theorem feed_feed (p : HttpRequestParser) (x y : Bytes) : (p.feed x).feed y = p.feed (x ++ y) := by
  simp [feed]

theorem Stands.next {p₀ : HttpRequestParser} {before chunk : Bytes} (h : Stands p₀ before p)
    (hdrains : Drains (p.feed chunk) reqs .needMoreData q) : Stands p₀ (before ++ chunk) q where
  measured := hdrains.measured h.measured
  turns := fun hr hphase => by
    have hturns := hdrains.turns h.measured hr hphase
    rw [feed_feed] at hturns
    rw [List.append_assoc]
    exact h.turns hturns hphase

theorem readAll_stop {chunk : Bytes} {chunks : List Bytes} (h : Drains (p.feed chunk) reqs s q)
    (hs : s ≠ .needMoreData) : p.readAll (chunk :: chunks) = (reqs, some s) := by
  obtain ⟨hreqs, hstatus, -⟩ := (p.drains_readChunk chunk).unique h
  unfold readAll
  rcases hread : p.readChunk chunk with ⟨reqs₁, s₁, q₁⟩
  rw [hread] at hreqs hstatus
  obtain rfl : reqs₁ = reqs := hreqs
  obtain rfl : s₁ = s := hstatus
  cases s₁ with
  | needMoreData => exact absurd rfl hs
  | complete => rfl
  | headerOverflow => rfl
  | invalidRequestLine => rfl
  | invalidContentLength => rfl
  | bodyTooLarge => rfl

theorem readAll_single {chunk : Bytes} (h : Drains (p.feed chunk) reqs s q) :
    p.readAll [chunk] = (reqs, s.error?) := by
  by_cases hs : s = .needMoreData
  · subst hs
    obtain ⟨hreqs, hstatus, -⟩ := (p.drains_readChunk chunk).unique h
    unfold readAll
    rcases hread : p.readChunk chunk with ⟨reqs₁, s₁, q₁⟩
    rw [hread] at hreqs hstatus
    obtain rfl : reqs₁ = reqs := hreqs
    obtain rfl : s₁ = .needMoreData := hstatus
    simp [readAll, Status.error?]
  · rw [readAll_stop h hs]
    cases s <;> first | rfl | exact absurd rfl hs

/-- Chunks are read as if they were one. -/
theorem readAll_eq {p₀ : HttpRequestParser} {before : Bytes} {chunks : List Bytes}
    (h : Stands p₀ before p) (hne : chunks ≠ [])
    (hends : ∀ x rest, before ++ chunks.flatten = x ++ rest → NoLateEnd (p₀.feed x) rest)
    (hdrains : Drains (p.feed chunks.flatten) reqs s q) :
    p.readAll chunks = (reqs, s.error?) := by
  induction chunks generalizing before p reqs s q with
  | nil => exact absurd rfl hne
  | cons chunk chunks ih =>
      have hchunk := p.drains_readChunk chunk
      unfold readAll
      rcases hread : p.readChunk chunk with ⟨reqs₁, s₁, q₁⟩
      rw [hread] at hchunk
      dsimp only at hchunk ⊢
      rw [List.flatten_cons, ← feed_feed] at hdrains
      have hstop : ∀ {s₁}, s₁.error? = some s₁ →
          (∃ q', Drains ((p.feed chunk).feed chunks.flatten) reqs₁ s₁ q') →
          (reqs₁, some s₁) = (reqs, s.error?) := by
        rintro s₁ herror ⟨q', hq'⟩
        obtain ⟨rfl, rfl, -⟩ := hq'.unique hdrains
        rw [herror]
      cases s₁ with
      | needMoreData =>
          have hnext := h.next hchunk
          cases chunks with
          | nil =>
              have hwhole : (p.feed chunk).feed [].flatten = p.feed chunk := by simp [feed]
              rw [hwhole] at hdrains
              obtain ⟨rfl, rfl, -⟩ := hchunk.unique hdrains
              simp [readAll, Status.error?]
          | cons c cs =>
              obtain ⟨reqs₂, s₂, q₂, hrest⟩ : ∃ reqs₂ s₂ q₂,
                  Drains (q₁.feed (c :: cs).flatten) reqs₂ s₂ q₂ :=
                ⟨_, _, _, drains_drain (Nat.le_refl _)⟩
              obtain ⟨rfl, rfl, -⟩ := (hchunk.feed_needMoreData h.measured hrest).unique hdrains
              rw [List.flatten_cons, ← List.append_assoc] at hends
              dsimp only
              rw [ih hnext (by simp) hends hrest]
      | headerOverflow =>
          refine hstop rfl ⟨_, hchunk.feed_headerOverflow h.measured fun r hr hphase => ?_⟩
          rw [List.flatten_cons, ← List.append_assoc] at hends
          exact hends (before ++ chunk) chunks.flatten rfl r (h.turns hr hphase) hphase
      | complete => exact absurd rfl hchunk.ne_complete
      | invalidRequestLine => exact hstop rfl ⟨_, hchunk.feed_error h.measured nofun nofun⟩
      | invalidContentLength => exact hstop rfl ⟨_, hchunk.feed_error h.measured nofun nofun⟩
      | bodyTooLarge => exact hstop rfl ⟨_, hchunk.feed_error h.measured nofun nofun⟩

end Feed

/-! ### Whether the cuts make a difference -/

section Cuts

variable {maxHeaderBytes maxBodyBytes : Int} {stream : Bytes}

/-- The requests that are read of a stream, and the error, are the same however it is cut. -/
def Uniform (maxHeaderBytes maxBodyBytes : Int) (stream : Bytes) : Prop :=
  ∀ chunks₁ chunks₂ : List Bytes, chunks₁ ≠ [] → chunks₂ ≠ [] → chunks₁.flatten = stream →
    chunks₂.flatten = stream →
    readAll { maxHeaderBytes, maxBodyBytes } chunks₁ =
      readAll { maxHeaderBytes, maxBodyBytes } chunks₂

/-- A header section the parser comes to before all of it has come is within the limit without
its last byte. -/
def HeadersFit (maxHeaderBytes maxBodyBytes : Int) (stream : Bytes) : Prop :=
  ∀ x rest q n, stream = x ++ rest → Turns (feed { maxHeaderBytes, maxBodyBytes } x) q →
    q.phase = .readingHeaders → indexOf (crlf ++ crlf) (q.buffer ++ rest) = some n →
    0 ≤ toInt32 n → q.buffer.length < n + 4 → (n : Int) + 3 ≤ maxHeaderBytes

/-- What is found within the first bytes is found in them. -/
theorem indexOf_of_append {pattern xs ys : Bytes} {n : Nat}
    (h : indexOf pattern (xs ++ ys) = some n) (hn : n + pattern.length ≤ xs.length) :
    indexOf pattern xs = some n := by
  cases hxs : indexOf pattern xs with
  | some m => rw [← h, indexOf_append hxs]
  | none =>
      induction xs generalizing n with
      | nil =>
          obtain rfl : pattern = [] := by
            simp only [List.length_nil, Nat.le_zero_eq, Nat.add_eq_zero_iff] at hn
            exact List.length_eq_zero_iff.mp hn.2
          cases hxs
      | cons c xs ih =>
          unfold indexOf at hxs
          split at hxs
          · cases hxs
          · rename_i hprefix
            have hnone : indexOf pattern xs = none := Option.map_eq_none_iff.mp hxs
            rw [List.cons_append, indexOf] at h
            split at h
            · rename_i hfull
              obtain rfl := Option.some.inj h
              refine absurd (List.isPrefixOf_iff_prefix.mpr ?_) hprefix
              exact List.prefix_of_prefix_length_le (List.isPrefixOf_iff_prefix.mp hfull)
                (List.prefix_append (c :: xs) ys) (by simpa using hn)
            · obtain ⟨k, hk, rfl⟩ := Option.map_eq_some_iff.mp h
              simp only [List.length_cons] at hn
              cases ih hk (by omega) hnone

/-- A section ends where its end is found. -/
theorem headerEnd_nonneg {b : Bytes} (h : 0 ≤ headerEnd b) :
    ∃ n : Nat, indexOf (crlf ++ crlf) b = some n ∧ 0 ≤ toInt32 n := by
  unfold headerEnd at h
  split at h
  · rename_i n hn
    exact ⟨n, hn, h⟩
  · exact absurd h (by decide)

theorem headerEnd_eq {b : Bytes} {n : Nat} (h : indexOf (crlf ++ crlf) b = some n) :
    headerEnd b = toInt32 n := by
  unfold headerEnd
  rw [h]

theorem headersFit_iff :
    HeadersFit maxHeaderBytes maxBodyBytes stream ↔
      ∀ x rest, stream = x ++ rest → NoLateEnd (feed { maxHeaderBytes, maxBodyBytes } x) rest := by
  constructor
  · intro h x rest hstream r hr hphase hmissing hlong
    by_contra hend
    obtain ⟨n, hn, hnonneg⟩ := headerEnd_nonneg (Int.not_lt.mp hend)
    have hlimit : r.maxHeaderBytes = maxHeaderBytes := hr.maxHeaderBytes
    have hlate : r.buffer.length < n + 4 := by
      by_contra hle
      have hfound := indexOf_of_append hn (Nat.not_lt.mp hle)
      rw [headerEnd_eq hfound] at hmissing
      omega
    have hfits := h x rest r n hstream hr hphase hn hnonneg hlate
    omega
  · intro h x rest q n hstream hq hphase hn hnonneg hlate
    by_contra hlong
    -- all of the section but its last byte comes first
    obtain ⟨y, rest', rfl, hy⟩ : ∃ y rest', rest = y ++ rest' ∧
        q.buffer.length + y.length = n + 3 := by
      have hlen : n + 4 ≤ (q.buffer ++ rest).length := indexOf_add_le hn
      rw [List.length_append] at hlen
      refine ⟨rest.take (n + 3 - q.buffer.length), rest.drop (n + 3 - q.buffer.length),
        (List.take_append_drop _ _).symm, ?_⟩
      rw [List.length_take]
      omega
    rw [← List.append_assoc] at hstream hn
    obtain ⟨_, -, hmore⟩ := hq.drains nofun
    have hturns := (hmore y).1
    rw [feed_feed] at hturns
    have hmissing : headerEnd (q.feed y).buffer < 0 := by
      by_contra hfound
      obtain ⟨m, hm, -⟩ := headerEnd_nonneg (Int.not_lt.mp hfound)
      change indexOf _ (q.buffer ++ y) = _ at hm
      have hlen : m + 4 ≤ (q.buffer ++ y).length := indexOf_add_le hm
      rw [indexOf_append hm] at hn
      obtain rfl := Option.some.inj hn
      rw [List.length_append] at hlen
      omega
    have hlate := h (x ++ y) rest' hstream (q.feed y) hturns hphase hmissing (by
      rw [hturns.maxHeaderBytes]
      show maxHeaderBytes < ((q.buffer ++ y).length : Int)
      rw [List.length_append, hy]
      omega)
    change headerEnd (q.buffer ++ y ++ rest') < 0 at hlate
    rw [headerEnd_eq hn] at hlate
    omega

theorem stands_fresh :
    Stands { maxHeaderBytes, maxBodyBytes } [] { maxHeaderBytes, maxBodyBytes } where
  measured := nofun
  turns hr _ := hr

/-- What is read of a stream does not depend on the cuts just where the header sections, each
without its last byte, are within the limit. -/
theorem http_cuts_iff (maxHeaderBytes maxBodyBytes : Int) (stream : Bytes) :
    Uniform maxHeaderBytes maxBodyBytes stream ↔ HeadersFit maxHeaderBytes maxBodyBytes stream := by
  rw [headersFit_iff]
  constructor
  · intro h x rest hstream r hr hphase hmissing hlong
    by_contra hend
    obtain ⟨reqs, hruns, hmore⟩ := hr.drains nofun
    -- the first chunk ends within the section, and is refused
    have hoverflow : Drains (feed { maxHeaderBytes, maxBodyBytes } x) (reqs ++ [])
        .headerOverflow r :=
      hruns (.stop (parseNext_headerOverflow.mpr ⟨rfl, hphase, hmissing, hlong⟩) nofun)
    obtain ⟨reqs', s, q, hrest⟩ : ∃ reqs' s q, Drains (r.feed rest) reqs' s q :=
      ⟨_, _, _, drains_drain (Nat.le_refl _)⟩
    have hwhole := (hmore rest).2 hrest
    rw [feed_feed, ← hstream] at hwhole
    have hcut := h [x, rest] [stream] (by simp) (by simp) (by simp [hstream]) (by simp)
    rw [readAll_stop hoverflow nofun, readAll_single hwhole] at hcut
    obtain ⟨hreqs, hstatus⟩ := Prod.mk.inj hcut
    obtain rfl : reqs' = [] := (List.append_cancel_left hreqs).symm
    obtain rfl : s = .headerOverflow := by
      cases s <;> simp [Status.error?] at hstatus ⊢
    cases hrest with
    | stop hparse _ => exact hend (parseNext_headerOverflow.mp hparse).2.2.1
  · intro h chunks₁ chunks₂ hne₁ hne₂ hflat₁ hflat₂
    obtain ⟨reqs, s, q, hdrains⟩ : ∃ reqs s q,
        Drains (feed { maxHeaderBytes, maxBodyBytes } stream) reqs s q :=
      ⟨_, _, _, drains_drain (Nat.le_refl _)⟩
    have hall : ∀ chunks : List Bytes, chunks ≠ [] → chunks.flatten = stream →
        readAll { maxHeaderBytes, maxBodyBytes } chunks = (reqs, s.error?) := by
      rintro chunks hne rfl
      exact readAll_eq stands_fresh hne h hdrains
    rw [hall chunks₁ hne₁ hflat₁, hall chunks₂ hne₂ hflat₂]

/-- A header section of 18 bytes under a limit of 8, in one chunk and in two. -/
theorem header_limit_bypassed : ¬Uniform 8 8 (ascii "GET / HTTP/1.1\r\n\r\n") := by
  intro h
  have hsame := h [ascii "GET / HTTP/1.1\r\n\r\n"] [ascii "GET / HTTP", ascii "/1.1\r\n\r\n"]
    (by decide) (by decide) (by decide) (by decide)
  have hstatus := congrArg Prod.snd hsame
  revert hstatus
  decide +kernel

end Cuts

end HttpRequestParser

end LLMQore.Network
