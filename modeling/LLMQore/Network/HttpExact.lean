import LLMQore.Network.HttpCuts

/-!
# LLMQore.Network.HttpExact

Well-formed requests are read as they were written.

In one piece they always are (`drains_wire`), as long as the lengths of a header block and of a
body are `int`s. In chunks they are where no header section is refused before all of it has come,
and the parser refuses one by its own length, which is that of the header block and up to three
bytes of the blank line after it (`reads_exactly_iff`).
-/

namespace LLMQore.Network

open Bytes

namespace HttpRequestParser

/-! ### The lines of a header block -/

section Block

variable {r : WireRequest} {req : HttpRequest}

theorem notMem_line {h : WireHeader} (hh : h.WellFormed) {b : UInt8} (hb : b ∈ h.line) :
    b ≠ cr ∧ b ≠ lf := by
  have hgap : ∀ {b}, b ∈ h.before ++ h.after → b ≠ cr ∧ b ≠ lf := by
    intro b hb
    rcases hh.gaps b hb with rfl | rfl <;> decide
  unfold WireHeader.line at hb
  simp only [List.mem_append, List.mem_cons] at hb
  rcases hb with hb | rfl | (hb | hb) | hb
  · exact (hh.name.not_space hb).2
  · decide
  · exact hgap (List.mem_append_left _ hb)
  · exact ⟨fun heq => hh.line.1 (heq ▸ hb), fun heq => hh.line.2 (heq ▸ hb)⟩
  · exact hgap (List.mem_append_right _ hb)

theorem lf_notMem_line {h : WireHeader} (hh : h.WellFormed) : lf ∉ h.line := fun hb =>
  (notMem_line hh hb).2 rfl

/-- The lines the parser splits a block into, each with the carriage return before its end. -/
theorem splitOn_lines {hs : List WireHeader} (hhs : ∀ h ∈ hs, h.WellFormed) {first : Bytes}
    (hfirst : lf ∉ first) :
    ∃ tail lines, (∀ b ∈ tail, isSpace b = true) ∧
      (first ++ hs.flatMap fun h => crlf ++ h.line).splitOn lf = (first ++ tail) :: lines ∧
      ∀ req, lines.foldl addHeader req = hs.foldl storeHeader req := by
  induction hs generalizing first with
  | nil =>
      refine ⟨[], [], nofun, ?_, fun _ => rfl⟩
      rw [List.flatMap_nil, List.append_nil, List.splitOn_eq_singleton hfirst]
  | cons h hs ih =>
      obtain ⟨hh, hrest⟩ := List.forall_mem_cons.mp hhs
      obtain ⟨tail, lines, htail, hsplit, hfold⟩ := ih hrest (lf_notMem_line hh)
      refine ⟨[cr], (h.line ++ tail) :: lines, by simp [isSpace, cr], ?_, fun req => ?_⟩
      · have hblock : first ++ (h :: hs).flatMap (fun h => crlf ++ h.line) =
            (first ++ [cr]) ++ lf :: (h.line ++ hs.flatMap fun h => crlf ++ h.line) := by
          simp [crlf]
        have hcr : lf ∉ first ++ [cr] := by
          simpa [hfirst] using (by decide : ¬lf = cr)
        rw [hblock, List.splitOn_append_cons_self_of_not_mem hcr, hsplit]
      · rw [List.foldl_cons, addHeader_line hh htail, hfold]
        rfl

/-- Headers with distinct names are stored under their names. -/
theorem lookup_foldl_storeHeader {hs : List WireHeader}
    (hdistinct : (hs.map fun h => toLowerAscii h.name).Nodup) (req : HttpRequest) (key : Bytes) :
    (hs.foldl storeHeader req).headers.lookup key =
      ((hs.find? fun h => toLowerAscii h.name == key).map (·.value)).or
        (req.headers.lookup key) := by
  induction hs generalizing req with
  | nil => rfl
  | cons h hs ih =>
      obtain ⟨hfresh, hrest⟩ := List.nodup_cons.mp hdistinct
      rw [List.foldl_cons, ih hrest, List.find?_cons]
      by_cases hkey : toLowerAscii h.name = key
      · subst hkey
        have hnone : hs.find? (fun h' => toLowerAscii h'.name == toLowerAscii h.name) = none := by
          rw [List.find?_eq_none]
          intro h' hh' heq
          exact hfresh (List.mem_map.mpr ⟨h', hh', by simpa using heq⟩)
        simp [hnone, storeHeader]
      · have hne : (toLowerAscii h.name == key) = false := beq_false_of_ne hkey
        simp [hne, storeHeader, AList.lookup_insert_ne (Ne.symm hkey)]

theorem foldl_storeHeader (hs : List WireHeader) (req : HttpRequest) :
    hs.foldl storeHeader req = { req with headers := (hs.foldl storeHeader req).headers } := by
  induction hs generalizing req with
  | nil => rfl
  | cons h hs ih => rw [List.foldl_cons, ih]; rfl

end Block

/-! ### One request -/

section Request

variable {limit maxBody : Int} {r : WireRequest} {rest : Bytes}

/-- A parser that has read nothing. -/
abbrev fresh (limit maxBody : Int) : HttpRequestParser :=
  { maxHeaderBytes := limit, maxBodyBytes := maxBody }

/-- What the parser keeps of the header block of a request. -/
def stored (r : WireRequest) : HttpRequest :=
  r.headers.foldl storeHeader
    { method := r.method, target := r.target, httpVersion := r.httpVersion }

theorem stored_line (r : WireRequest) :
    (stored r).method = r.method ∧ (stored r).target = r.target ∧
      (stored r).httpVersion = r.httpVersion := by
  unfold stored
  rw [foldl_storeHeader]
  exact ⟨rfl, rfl, rfl⟩

theorem lookup_stored (hr : r.WellFormed) (key : Bytes) :
    (stored r).headers.lookup key = r.header key := by
  unfold stored
  rw [lookup_foldl_storeHeader hr.distinct]
  exact Option.or_none

theorem notMem_requestLine (hr : r.WellFormed) : cr ∉ r.requestLine ∧ lf ∉ r.requestLine := by
  have hmem : ∀ {b}, b ∈ r.requestLine → b = space ∨ isSpace b = false := by
    intro b hb
    unfold WireRequest.requestLine at hb
    simp only [List.mem_append, List.mem_cons] at hb
    rcases hb with hb | hb | hb | hb | hb
    · exact .inr (hr.method.2 b hb)
    · exact .inl hb
    · exact .inr (hr.target.2 b hb)
    · exact .inl hb
    · exact .inr (hr.httpVersion.2 b hb)
  constructor
  · intro hcr
    exact absurd (hmem hcr) (by decide)
  · intro hlf
    exact absurd (hmem hlf) (by decide)

/-- The header section ends where the request says it does. -/
theorem indexOf_bytes (hr : r.WellFormed) (rest : Bytes) :
    indexOf (crlf ++ crlf) (r.bytes ++ rest) = some r.block.length := by
  have hlines : ∀ l ∈ r.headers.map WireHeader.line, l ≠ [] ∧ cr ∉ l := by
    intro l hl
    obtain ⟨h, hh, rfl⟩ := List.mem_map.mp hl
    refine ⟨?_, fun hcr => (notMem_line (hr.headers h hh) hcr).1 rfl⟩
    simp [WireHeader.line]
  have hfound := indexOf_lines (notMem_requestLine hr).1 hlines (r.body ++ rest)
  rw [List.flatMap_map] at hfound
  unfold WireRequest.bytes WireRequest.head WireRequest.block
  simpa only [List.append_assoc] using hfound

theorem toInt32_eq {n : Nat} (h : n < 2 ^ 31) : toInt32 n = n := by
  unfold toInt32
  rw [Int.bmod_def]
  split_ifs <;> omega

/-- The header block is read as it was written. -/
theorem parseHeaderBlock_request (hr : r.WellFormed) (rest : Bytes) :
    ((fresh limit maxBody).feed (r.bytes ++ rest)).parseHeaderBlock r.block.length =
      { fresh limit maxBody with buffer := r.body ++ rest, current := stored r } := by
  have hbytes : r.bytes ++ rest = r.block ++ ((crlf ++ crlf) ++ (r.body ++ rest)) := by
    simp only [WireRequest.bytes, WireRequest.head, List.append_assoc]
  obtain ⟨tail, lines, htail, hsplit, hfold⟩ :=
    splitOn_lines hr.headers (notMem_requestLine hr).2
  have htake : (r.bytes ++ rest).take r.block.length = r.block := by
    rw [hbytes, List.take_left]
  have hdrop : (r.bytes ++ rest).drop (r.block.length + 4) = r.body ++ rest := by
    rw [hbytes, ← List.drop_drop, List.drop_left]
    rfl
  unfold parseHeaderBlock
  dsimp only [feed, fresh, List.nil_append]
  rw [htake, hdrop, show r.block.splitOn lf = _ from hsplit]
  dsimp only
  rw [setRequestLine_requestLine hr htail, hfold]
  rfl

/-- The digits of a length are read as it. -/
theorem toLongLong_digits {v : Bytes} (hne : v ≠ []) (hdigits : ∀ c ∈ v, 48 ≤ c ∧ c ≤ 57) :
    toLongLong v = if (decimal v : Int) < 2 ^ 63 then some (decimal v : Int) else none := by
  obtain ⟨d, v, rfl⟩ := List.exists_cons_of_ne_nil hne
  have hd := hdigits d (.head _)
  have hsign : d ≠ 45 ∧ d ≠ 43 := by
    constructor
    · rintro rfl
      exact absurd hd (by decide)
    · rintro rfl
      exact absurd hd (by decide)
  have hall : (d :: v).all (fun c => 48 ≤ c && c ≤ 57) = true := by
    rw [List.all_eq_true]
    intro c hc
    simpa using hdigits c hc
  unfold toLongLong
  split
  rename_i negative digits heq
  obtain ⟨rfl, rfl⟩ : negative = false ∧ digits = d :: v := by
    split at heq
    · rename_i hv
      exact absurd (List.cons.inj hv).1 hsign.1
    · rename_i hv
      exact absurd (List.cons.inj hv).1 hsign.2
    · exact ⟨(Prod.mk.inj heq).1.symm, (Prod.mk.inj heq).2.symm⟩
  rw [hall]
  simp

theorem toLowerAscii_contentLength :
    toLowerAscii (ascii "content-length") = ascii "content-length" := by decide

/-- The length of the body is read as it was written. -/
theorem readLength_stored (hr : r.WellFormed) (hlong : r.body.length < 2 ^ 63)
    (hmax : (r.body.length : Int) ≤ maxBody) (buffer : Bytes) :
    ({ fresh limit maxBody with buffer, current := stored r } : HttpRequestParser).readLength =
      (none, { fresh limit maxBody with
        buffer, current := stored r, contentLength := r.body.length, phase := .readingBody }) := by
  have hlength := hr.length
  have hheader : (stored r).header (ascii "content-length") =
      (r.header (ascii "content-length")).getD [] := by
    unfold HttpRequest.header
    rw [toLowerAscii_contentLength, lookup_stored hr]
  unfold readLength
  dsimp only [fresh]
  rw [hheader]
  cases hv : r.header (ascii "content-length") with
  | none =>
      rw [hv] at hlength
      have hbody : r.body = [] := hlength
      rw [hbody]
      rfl
  | some v =>
      rw [hv] at hlength
      obtain ⟨hne, hdigits, hdecimal⟩ : v ≠ [] ∧ (∀ c ∈ v, 48 ≤ c ∧ c ≤ 57) ∧
        decimal v = r.body.length := hlength
      have hnumber : toLongLong v = some (r.body.length : Int) := by
        rw [toLongLong_digits hne hdigits, hdecimal]
        exact if_pos (by omega)
      simp only [Option.getD_some, List.isEmpty_eq_false_iff.mpr hne, hnumber]
      rw [if_neg (by decide), if_neg (by omega), if_neg (by omega)]

/-- The header section has come. -/
theorem parseNext_head (hr : r.WellFormed) (hblock : r.block.length < 2 ^ 31) (rest : Bytes) :
    ((fresh limit maxBody).feed (r.bytes ++ rest)).parseNext =
      match ({ fresh limit maxBody with
        buffer := r.body ++ rest, current := stored r } : HttpRequestParser).readLength with
      | (some error, p) => (error, p)
      | (none, p) => p.readBody := by
  have hend : headerEnd (r.bytes ++ rest) = r.block.length := by
    rw [headerEnd_eq (indexOf_bytes hr rest), toInt32_eq hblock]
  have hbuffer : ((fresh limit maxBody).feed (r.bytes ++ rest)).buffer = r.bytes ++ rest := rfl
  obtain ⟨hmethod, htarget, hversion⟩ := stored_line r
  have hline : (stored r).lacksLine = false := by
    unfold HttpRequest.lacksLine
    rw [hmethod, htarget, hversion]
    simp [hr.method.1, hr.target.1, hr.httpVersion.1]
  show ((fresh limit maxBody).feed (r.bytes ++ rest)).readHeaders = _
  rw [readHeaders_found (by rw [hbuffer, hend]; omega), hbuffer, hend, Int.toNat_natCast,
    parseHeaderBlock_request hr]
  unfold finish
  refine (if_neg (by rw [hline]; decide)).trans ?_
  rfl

/-- As many bytes are taken for the body as its length is as an `int`. -/
theorem parseNext_read (hr : r.WellFormed) (hblock : r.block.length < 2 ^ 31)
    (hlong : r.body.length < 2 ^ 63) (hmax : (r.body.length : Int) ≤ maxBody) (rest : Bytes) :
    ((fresh limit maxBody).feed (r.bytes ++ rest)).parseNext =
      (.complete, { fresh limit maxBody with
        buffer := (r.body ++ rest).drop (toInt32 r.body.length).toNat
        current := { stored r with body := (r.body ++ rest).take (toInt32 r.body.length).toNat }
        contentLength := r.body.length
        phase := .complete }) := by
  rw [parseNext_head hr hblock, readLength_stored hr hlong hmax]
  dsimp only
  unfold readBody
  have hcome : ¬((r.body ++ rest).length : Int) < r.body.length := by
    rw [List.length_append]
    omega
  rw [if_neg hcome]

theorem parseNext_request (hr : r.WellFormed) (hblock : r.block.length < 2 ^ 31)
    (hbody : r.body.length < 2 ^ 31) (hmax : (r.body.length : Int) ≤ maxBody) (rest : Bytes) :
    ∃ p, ((fresh limit maxBody).feed (r.bytes ++ rest)).parseNext = (.complete, p) ∧
      Carries p.takeRequest.1 r ∧ p.takeRequest.2 = (fresh limit maxBody).feed rest := by
  obtain ⟨hmethod, htarget, hversion⟩ := stored_line r
  have hsize : (toInt32 r.body.length).toNat = r.body.length := by
    rw [toInt32_eq hbody, Int.toNat_natCast]
  have hread := @parseNext_read limit _ _ hr hblock (by omega) hmax rest
  rw [hsize, List.take_left, List.drop_left] at hread
  exact ⟨_, hread, ⟨hmethod, htarget, hversion, lookup_stored hr, rfl⟩, rfl⟩

end Request

/-! ### Whole streams -/

/-- The requests one after the other. -/
def wire (rs : List WireRequest) : Bytes := rs.flatMap WireRequest.bytes

/-- The requests that are taken are those that were written, and nothing remains. -/
structure Exact (limit maxBody : Int) (chunks : List Bytes) (rs : List WireRequest) : Prop where
  taken : ∃ reqs, (fresh limit maxBody).readAll chunks = (reqs, none) ∧
    List.Forall₂ Carries reqs rs
  remains : ((fresh limit maxBody).afterAll chunks).buffer = []

/-- The header section without its last byte is within the limit, and what is counted is an
`int`. -/
structure Fits (limit : Int) (r : WireRequest) : Prop where
  head : (r.block.length + 3 : Int) ≤ limit
  block : r.block.length < 2 ^ 31
  body : r.body.length < 2 ^ 31

section Streams

variable {limit maxBody : Int} {r : WireRequest} {rs : List WireRequest} {p q : HttpRequestParser}
  {reqs : List HttpRequest} {chunk : Bytes} {chunks : List Bytes}

theorem readAll_next (h : Drains (p.feed chunk) reqs .needMoreData q) (chunks : List Bytes) :
    p.readAll (chunk :: chunks) = (reqs ++ (q.readAll chunks).1, (q.readAll chunks).2) ∧
      p.afterAll (chunk :: chunks) = q.afterAll chunks := by
  obtain ⟨hreqs, hstatus, hq⟩ := (p.drains_readChunk chunk).unique h
  have hread : p.readChunk chunk = (reqs, .needMoreData, q) :=
    Prod.ext hreqs (Prod.ext hstatus hq)
  constructor
  · conv_lhs => unfold readAll
    rw [hread]
  · unfold afterAll
    rw [List.foldl_cons, hread]

theorem parseNext_fresh (limit maxBody : Int) :
    (fresh limit maxBody).parseNext =
      (if limit < 0 then .headerOverflow else .needMoreData, fresh limit maxBody) := by
  have hmissing : headerEnd (fresh limit maxBody).buffer < 0 := by
    show headerEnd [] < 0
    decide
  show (fresh limit maxBody).readHeaders = _
  rw [readHeaders_missing hmissing]
  rfl

/-- In one piece the requests are read as they were written. -/
theorem drains_wire (hlimit : 0 ≤ limit) (hwf : ∀ r ∈ rs, r.WellFormed)
    (hmax : ∀ r ∈ rs, (r.body.length : Int) ≤ maxBody) (hfits : ∀ r ∈ rs, Fits limit r) :
    ∃ reqs, List.Forall₂ Carries reqs rs ∧
      Drains ((fresh limit maxBody).feed (wire rs)) reqs .needMoreData (fresh limit maxBody) := by
  induction rs with
  | nil =>
      have hparse := parseNext_fresh limit maxBody
      rw [if_neg (Int.not_lt.mpr hlimit)] at hparse
      exact ⟨[], .nil, .stop hparse nofun⟩
  | cons r rs ih =>
      obtain ⟨hr, hwf⟩ := List.forall_mem_cons.mp hwf
      obtain ⟨hmaxr, hmax⟩ := List.forall_mem_cons.mp hmax
      obtain ⟨hfit, hfits⟩ := List.forall_mem_cons.mp hfits
      obtain ⟨reqs, hcarries, hdrains⟩ := ih hwf hmax hfits
      obtain ⟨p, hparse, hcarry, hnext⟩ :=
        @parseNext_request limit maxBody r hr hfit.block hfit.body hmaxr (wire rs)
      rw [← hnext] at hdrains
      exact ⟨_ :: reqs, .cons hcarry hcarries, .take hparse hdrains⟩

/-- The header sections of the stream are come to where a request begins. -/
theorem turns_wire (hwf : ∀ r ∈ rs, r.WellFormed)
    (hmax : ∀ r ∈ rs, (r.body.length : Int) ≤ maxBody) (hfits : ∀ r ∈ rs, Fits limit r)
    (h : Turns ((fresh limit maxBody).feed (wire rs)) q) :
    ∃ rs', rs' ⊆ rs ∧ q = (fresh limit maxBody).feed (wire rs') := by
  induction rs with
  | nil =>
      cases h with
      | here => exact ⟨[], List.Subset.refl _, rfl⟩
      | next hparse _ =>
          have hstop := parseNext_fresh limit maxBody
          change (fresh limit maxBody).parseNext = _ at hparse
          rw [hstop] at hparse
          split at hparse <;> cases hparse
  | cons r rs ih =>
      obtain ⟨hr, hwf⟩ := List.forall_mem_cons.mp hwf
      obtain ⟨hmaxr, hmax⟩ := List.forall_mem_cons.mp hmax
      obtain ⟨hfit, hfits⟩ := List.forall_mem_cons.mp hfits
      cases h with
      | here => exact ⟨r :: rs, List.Subset.refl _, rfl⟩
      | next hparse hrest =>
          obtain ⟨p, hrequest, -, hnext⟩ :=
            @parseNext_request limit maxBody r hr hfit.block hfit.body hmaxr (wire rs)
          obtain ⟨-, rfl⟩ := Prod.mk.inj (hrequest.symm.trans hparse)
          rw [hnext] at hrest
          obtain ⟨rs', hsub, hq⟩ := ih hwf hmax hfits hrest
          exact ⟨rs', fun r' hr' => .tail _ (hsub hr'), hq⟩

/-- Where no error ends the reading, the parser stands where it does after one piece. -/
theorem drains_afterAll (hp : p.Measured) (hne : chunks ≠ [])
    (h : p.readAll chunks = (reqs, none)) :
    Drains (p.feed chunks.flatten) reqs .needMoreData (p.afterAll chunks) := by
  induction chunks generalizing p reqs with
  | nil => exact absurd rfl hne
  | cons chunk chunks ih =>
      have hchunk := p.drains_readChunk chunk
      by_cases hmore : (p.readChunk chunk).2.1 = .needMoreData
      · rw [hmore] at hchunk
        obtain ⟨hread, hafter⟩ := readAll_next hchunk chunks
        rw [hafter, List.flatten_cons]
        obtain ⟨rfl, hnone⟩ := Prod.mk.inj (hread.symm.trans h)
        cases chunks with
        | nil => simpa [readAll, afterAll] using hchunk
        | cons c cs =>
            have hrest := ih (hchunk.measured hp) (by simp) (Prod.ext rfl hnone)
            rw [← feed_feed]
            exact hchunk.feed_needMoreData hp hrest
      · rw [readAll_stop hchunk hmore] at h
        cases (Prod.mk.inj h).2

theorem bytes_ne_nil (r : WireRequest) : r.bytes ≠ [] := by
  simp [WireRequest.bytes, WireRequest.head, crlf]

/-- However the stream is cut, it is read as in one piece. -/
theorem exact_of_fits (hlimit : 0 ≤ limit) (hwf : ∀ r ∈ rs, r.WellFormed)
    (hmax : ∀ r ∈ rs, (r.body.length : Int) ≤ maxBody) (hfits : ∀ r ∈ rs, Fits limit r)
    (hchunks : chunks.flatten = wire rs) : Exact limit maxBody chunks rs := by
  by_cases hne : chunks = []
  · subst hne
    have hnil : rs = [] := by
      cases rs with
      | nil => rfl
      | cons r rs => exact absurd (List.append_eq_nil_iff.mp hchunks.symm).1 (bytes_ne_nil r)
    subst hnil
    exact ⟨⟨[], rfl, .nil⟩, rfl⟩
  · obtain ⟨reqs, hcarries, hdrains⟩ := drains_wire hlimit hwf hmax hfits
    have hends : HeadersFit limit maxBody (wire rs) := by
      intro x rest q n hstream hq hphase hn hnonneg hlate
      -- the parser would stand there in the whole stream too
      obtain ⟨_, -, hmore⟩ := hq.drains nofun
      have hturns := (hmore rest).1
      rw [feed_feed, ← hstream] at hturns
      obtain ⟨rs', hsub, hstands⟩ := turns_wire hwf hmax hfits hturns
      have hbuffer : q.buffer ++ rest = wire rs' := congrArg HttpRequestParser.buffer hstands
      rw [hbuffer] at hn
      cases rs' with
      | nil => cases hn
      | cons r rs' =>
          have hmem := hsub (.head _)
          have hfound := indexOf_bytes (hwf r hmem) (wire rs')
          obtain rfl := Option.some.inj (hn.symm.trans hfound)
          exact (hfits r hmem).head
    rw [← hchunks] at hdrains hends
    have hread : (fresh limit maxBody).readAll chunks = (reqs, none) :=
      readAll_eq stands_fresh hne (headersFit_iff.mp hends) hdrains
    have hfresh : (fresh limit maxBody).Measured := nofun
    obtain ⟨-, -, hafter⟩ := (drains_afterAll hfresh hne hread).unique hdrains
    exact ⟨⟨reqs, hread, hcarries⟩, by rw [hafter]⟩

/-! Each part of the condition is needed. -/

/-- The reading of one piece. -/
theorem Exact.drains (h : Exact limit maxBody [chunk] rs) :
    ∃ reqs q, Drains ((fresh limit maxBody).feed chunk) reqs .needMoreData q ∧
      List.Forall₂ Carries reqs rs ∧ q.buffer = [] := by
  obtain ⟨reqs, hread, hcarries⟩ := h.taken
  have hfresh : (fresh limit maxBody).Measured := nofun
  have hdrains := drains_afterAll hfresh (by simp) hread
  rw [List.flatten_singleton] at hdrains
  exact ⟨reqs, _, hdrains, hcarries, h.remains⟩

/-- No error ends the reading of the first chunk. -/
theorem Exact.no_error (h : Exact limit maxBody (chunk :: chunks) rs) {s : Status}
    (hdrains : Drains ((fresh limit maxBody).feed chunk) reqs s q) : s = .needMoreData := by
  by_contra hs
  obtain ⟨_, hread, -⟩ := h.taken
  rw [readAll_stop hdrains hs] at hread
  cases (Prod.mk.inj hread).2

theorem limit_nonneg (h : ∀ chunks : List Bytes, chunks.flatten = wire rs →
    Exact limit maxBody chunks rs) : 0 ≤ limit := by
  by_contra hneg
  have hparse := parseNext_fresh limit maxBody
  rw [if_pos (Int.not_le.mp hneg)] at hparse
  have hstop := (h [[], wire rs] (by simp)).no_error (.stop hparse nofun)
  cases hstop

/-- The blank line is cut before its last byte. -/
theorem head_le (hr : r.WellFormed) (h : ∀ chunks : List Bytes,
    chunks.flatten = wire (r :: rs) → Exact limit maxBody chunks (r :: rs)) :
    (r.block.length + 3 : Int) ≤ limit := by
  by_contra hlong
  have hcut : [r.block ++ [cr, lf, cr], lf :: (r.body ++ wire rs)].flatten = wire (r :: rs) := by
    simp [wire, WireRequest.bytes, WireRequest.head, crlf]
  have hmissing : headerEnd (r.block ++ [cr, lf, cr]) < 0 := by
    by_contra hfound
    obtain ⟨n, hn, -⟩ := headerEnd_nonneg (Int.not_lt.mp hfound)
    have hle : n + 4 ≤ (r.block ++ [cr, lf, cr]).length := indexOf_add_le hn
    have hwhole := indexOf_append hn (lf :: (r.body ++ wire rs))
    have hbytes : r.block ++ [cr, lf, cr] ++ lf :: (r.body ++ wire rs) = r.bytes ++ wire rs := by
      simp [WireRequest.bytes, WireRequest.head, crlf]
    rw [hbytes, indexOf_bytes hr] at hwhole
    obtain rfl := Option.some.inj hwhole
    simp at hle
  have hparse : ((fresh limit maxBody).feed (r.block ++ [cr, lf, cr])).parseNext =
      (.headerOverflow, (fresh limit maxBody).feed (r.block ++ [cr, lf, cr])) := by
    refine parseNext_headerOverflow.mpr ⟨rfl, rfl, hmissing, ?_⟩
    show limit < ((r.block ++ [cr, lf, cr]).length : Int)
    simp
    omega
  cases (h _ hcut).no_error (.stop hparse (by simp))

/-- The end of the header section is found where it is. -/
theorem parseNext_found (hr : r.WellFormed) (hnonneg : 0 ≤ toInt32 r.block.length) (rest : Bytes) :
    ((fresh limit maxBody).feed (r.bytes ++ rest)).parseNext =
      (((fresh limit maxBody).feed (r.bytes ++ rest)).parseHeaderBlock
        (toInt32 r.block.length).toNat).finish := by
  have hend : headerEnd (r.bytes ++ rest) = toInt32 r.block.length :=
    headerEnd_eq (indexOf_bytes hr rest)
  have hbuffer : ((fresh limit maxBody).feed (r.bytes ++ rest)).buffer = r.bytes ++ rest := rfl
  show ((fresh limit maxBody).feed (r.bytes ++ rest)).readHeaders = _
  rw [readHeaders_found (by rw [hbuffer, hend]; exact hnonneg), hbuffer, hend]

theorem toInt32_lt (n : Int) : toInt32 n < 2 ^ 31 := by
  unfold toInt32
  have h := @Int.bmod_lt n (2 ^ 32) (by decide)
  omega

theorem readLength_tooLong (hr : r.WellFormed) (hlong : ¬r.body.length < 2 ^ 63) (buffer : Bytes) :
    ({ fresh limit maxBody with buffer, current := stored r } : HttpRequestParser).readLength.1 =
      some .invalidContentLength := by
  have hlength := hr.length
  have hheader : (stored r).header (ascii "content-length") =
      (r.header (ascii "content-length")).getD [] := by
    unfold HttpRequest.header
    rw [toLowerAscii_contentLength, lookup_stored hr]
  cases hv : r.header (ascii "content-length") with
  | none =>
      rw [hv] at hlength
      have hbody : r.body = [] := hlength
      rw [hbody] at hlong
      exact absurd (by decide) hlong
  | some v =>
      rw [hv] at hlength
      obtain ⟨hne, hdigits, hdecimal⟩ : v ≠ [] ∧ (∀ c ∈ v, 48 ≤ c ∧ c ≤ 57) ∧
        decimal v = r.body.length := hlength
      have hnumber : toLongLong v = none := by
        rw [toLongLong_digits hne hdigits, hdecimal]
        exact if_neg (by omega)
      unfold readLength
      dsimp only [fresh]
      rw [hheader, hv]
      simp only [Option.getD_some, List.isEmpty_eq_false_iff.mpr hne, hnumber]
      rw [if_neg (by decide)]

/-- The body is read in one piece. -/
theorem body_lt (hr : r.WellFormed) (hblock : r.block.length < 2 ^ 31)
    (hmax : (r.body.length : Int) ≤ maxBody)
    (h : Exact limit maxBody [wire (r :: rs)] (r :: rs)) : r.body.length < 2 ^ 31 := by
  obtain ⟨reqs, q, hdrains, hcarries, -⟩ := h.drains
  have hwire : wire (r :: rs) = r.bytes ++ wire rs := rfl
  rw [hwire] at hdrains
  obtain ⟨req, reqs, hcarry, -, rfl⟩ := List.forall₂_cons_right_iff.mp hcarries
  cases hdrains with
  | @take _ p _ _ _ hparse _ =>
      by_cases hlong : r.body.length < 2 ^ 63
      · rw [parseNext_read hr hblock hlong hmax] at hparse
        obtain ⟨-, rfl⟩ := Prod.mk.inj hparse
        have hlength := congrArg List.length hcarry.body
        dsimp only [takeRequest] at hlength
        rw [List.length_take] at hlength
        have hlt := toInt32_lt r.body.length
        omega
      · rw [parseNext_head hr hblock] at hparse
        have herror := @readLength_tooLong limit maxBody r hr hlong (r.body ++ wire rs)
        rcases hread : ({ fresh limit maxBody with
          buffer := r.body ++ wire rs, current := stored r } : HttpRequestParser).readLength
          with ⟨error, p⟩
        rw [hread] at herror hparse
        obtain rfl : error = _ := herror
        cases hparse

/-! A header block of four gigabytes is not read to its end. -/

theorem length_trimmed_le (x : Bytes) : (trimmed x).length ≤ x.length := by
  unfold trimmed
  rw [List.length_reverse]
  refine (List.dropWhile_sublist isSpace).length_le.trans ?_
  rw [List.length_reverse]
  exact (List.dropWhile_sublist isSpace).length_le

/-- A value that was cut is not the whole of it, unless only white space was cut off. -/
theorem gaps_of_trimmed_take {h : WireHeader} (hh : h.WellFormed) {k : Nat}
    (hk : trimmed ((h.before ++ h.value ++ h.after).take k) = h.value) :
    ∀ b ∈ (h.before ++ h.value ++ h.after).drop k, b = space ∨ b = 9 := by
  have hspaces : ∀ b ∈ h.before, isSpace b = true := fun b hb =>
    isSpace_gap hh (List.mem_append_left _ hb)
  intro b hb
  by_cases hvalue : h.value = []
  · rw [hvalue, List.append_nil] at hb
    exact hh.gaps b (List.mem_of_mem_drop hb)
  · have hle : h.before.length + h.value.length ≤ k := by
      by_contra hlt
      by_cases hbefore : k ≤ h.before.length
      · rw [List.append_assoc, List.take_append_of_le_length hbefore,
          trimmed_eq_nil fun b hb => hspaces b (List.mem_of_mem_take hb)] at hk
        exact hvalue hk.symm
      · obtain ⟨j, rfl⟩ : ∃ j, k = h.before.length + j := ⟨k - h.before.length, by omega⟩
        rw [List.append_assoc, List.take_length_add_append,
          List.take_append_of_le_length (by omega)] at hk
        have hlength := congrArg List.length hk
        have hshort : (trimmed (h.before ++ h.value.take j)).length ≤ j := by
          have hstart : trimmed (h.before ++ h.value.take j) = trimmed (h.value.take j) := by
            show trimEnd ((h.before ++ h.value.take j).dropWhile isSpace) = _
            rw [List.dropWhile_append_of_pos hspaces]
            rfl
          rw [hstart]
          exact (length_trimmed_le _).trans (List.length_take_le _ _)
        omega
    have hafter : b ∈ h.after := by
      rw [List.drop_append, List.drop_eq_nil_of_le (by simpa using hle), List.nil_append] at hb
      exact List.mem_of_mem_drop hb
    exact hh.gaps b (List.mem_append_right _ hafter)

/-- The first line of a block that was cut. -/
theorem splitOn_take {first : Bytes} (hfirst : lf ∉ first) (hs : List WireHeader) (n : Nat) :
    ∃ tail lines, (∀ b ∈ tail, isSpace b = true) ∧
      ((first ++ hs.flatMap fun h => crlf ++ h.line).take n).splitOn lf =
        (first.take n ++ tail) :: lines ∧
      ((lines = [] ∧ (hs ≠ [] → n < first.length + 2)) ∨
        ∃ h hs' j, hs = h :: hs' ∧ n = first.length + 2 + j ∧
          lines = ((h.line ++ hs'.flatMap fun h => crlf ++ h.line).take j).splitOn lf) := by
  have hnil : ∀ (k : Nat), lf ∉ first.take n ++ [cr].take k := by
    intro k hmem
    rcases List.mem_append.mp hmem with hmem | hmem
    · exact hfirst (List.mem_of_mem_take hmem)
    · exact absurd (List.mem_singleton.mp (List.mem_of_mem_take hmem)) (by decide)
  have hspaces : ∀ (k : Nat), ∀ b ∈ [cr].take k, isSpace b = true := by
    intro k b hb
    rw [List.mem_singleton.mp (List.mem_of_mem_take hb)]
    decide
  cases hs with
  | nil =>
      refine ⟨[], [], nofun, ?_, .inl ⟨rfl, fun h => absurd rfl h⟩⟩
      rw [List.flatMap_nil, List.append_nil, List.append_nil]
      exact List.splitOn_eq_singleton fun hmem => hfirst (List.mem_of_mem_take hmem)
  | cons h hs =>
      have hblock : first ++ (h :: hs).flatMap (fun h => crlf ++ h.line) =
          first ++ [cr] ++ lf :: (h.line ++ hs.flatMap fun h => crlf ++ h.line) := by
        simp [crlf]
      rw [hblock]
      by_cases hn : n < first.length + 2
      · refine ⟨[cr].take (n - first.length), [], hspaces _, ?_, .inl ⟨rfl, fun _ => hn⟩⟩
        rw [List.take_append_of_le_length (by simp; omega), List.take_append]
        exact List.splitOn_eq_singleton (hnil _)
      · obtain ⟨j, rfl⟩ : ∃ j, n = first.length + 2 + j := ⟨n - first.length - 2, by omega⟩
        refine ⟨[cr], _, hspaces 1, ?_, .inr ⟨h, hs, j, rfl, rfl, rfl⟩⟩
        have htake : (first ++ [cr] ++ lf :: (h.line ++ hs.flatMap fun h => crlf ++ h.line)).take
            (first.length + 2 + j) =
            first ++ [cr] ++ lf :: (h.line ++ hs.flatMap fun h => crlf ++ h.line).take j := by
          have hlength : first.length + 2 + j = (first ++ [cr]).length + (j + 1) := by
            simp
            omega
          rw [hlength, List.take_length_add_append, List.take_succ_cons]
        have hwhole : first.take (first.length + 2 + j) = first := List.take_of_length_le (by omega)
        have hcr : lf ∉ first ++ [cr] := by
          have := hnil 1
          rwa [hwhole] at this
        rw [htake, hwhole, List.splitOn_append_cons_self_of_not_mem hcr]

/-- Where all headers are read of a block that was cut, only white space was cut off. -/
theorem gaps_of_cut {hs : List WireHeader} (hhs : ∀ h ∈ hs, h.WellFormed)
    (hdistinct : (hs.map fun h => toLowerAscii h.name).Nodup) (hne : hs ≠ []) {first : Bytes}
    (hfirst : lf ∉ first) {n : Nat} {req : HttpRequest}
    (hnew : ∀ h ∈ hs, req.headers.lookup (toLowerAscii h.name) = none) {l : Bytes}
    {lines : List Bytes}
    (hsplit : ((first ++ hs.flatMap fun h => crlf ++ h.line).take n).splitOn lf = l :: lines)
    (hfound : ∀ h ∈ hs, (lines.foldl addHeader req).headers.lookup (toLowerAscii h.name) =
      some h.value) :
    ∀ b ∈ (first ++ hs.flatMap fun h => crlf ++ h.line).drop n, b = space ∨ b = 9 := by
  induction hs generalizing first n req l lines with
  | nil => exact absurd rfl hne
  | cons h hs ih =>
      obtain ⟨tail, lines', htail, hsplit', hlines⟩ := splitOn_take hfirst (h :: hs) n
      obtain ⟨-, rfl⟩ := List.cons.inj (hsplit.symm.trans hsplit')
      rcases hlines with ⟨rfl, -⟩ | ⟨_, _, j, heq, rfl, rfl⟩
      · have hstored := hfound h (.head _)
        rw [List.foldl_nil, hnew h (.head _)] at hstored
        cases hstored
      · cases heq
        obtain ⟨hh, hrest⟩ := List.forall_mem_cons.mp hhs
        obtain ⟨hfresh, hdistinct⟩ := List.nodup_cons.mp hdistinct
        have hdrop : (first ++ (h :: hs).flatMap fun h => crlf ++ h.line).drop
            (first.length + 2 + j) = (h.line ++ hs.flatMap fun h => crlf ++ h.line).drop j := by
          have hblock : first ++ (h :: hs).flatMap (fun h => crlf ++ h.line) =
              first ++ crlf ++ (h.line ++ hs.flatMap fun h => crlf ++ h.line) := by
            simp
          have hlength : first.length + 2 + j = (first ++ crlf).length + j := by
            simp [crlf]
          rw [hblock, hlength, List.drop_length_add_append]
        rw [hdrop]
        obtain ⟨tail', lines', htail', hsplit', hlines'⟩ := splitOn_take (lf_notMem_line hh) hs j
        rw [hsplit'] at hfound
        have hcut := addHeader_cut hh htail' req j
        by_cases hlast : hs = []
        · subst hlast
          obtain rfl : lines' = [] := by
            rcases hlines' with ⟨hnil, -⟩ | ⟨_, _, _, heq, -⟩
            · exact hnil
            · cases heq
          have hstored := hfound h (.head _)
          rw [List.foldl_cons, List.foldl_nil] at hstored
          rcases hcut with ⟨-, hsame⟩ | ⟨hlt, hinsert⟩
          · rw [hsame, hnew h (.head _)] at hstored
            cases hstored
          · rw [hinsert] at hstored
            have hvalue := Option.some.inj ((AList.lookup_insert _).symm.trans hstored)
            have hgaps := gaps_of_trimmed_take hh hvalue
            have hline : (h.line ++ [].flatMap fun h : WireHeader => crlf ++ h.line).drop j =
                (h.before ++ h.value ++ h.after).drop (j - h.name.length - 1) := by
              obtain ⟨k, rfl⟩ : ∃ k, j = h.name.length + (k + 1) :=
                ⟨j - h.name.length - 1, by omega⟩
              have hk : h.name.length + (k + 1) - h.name.length - 1 = k := by omega
              rw [List.flatMap_nil, List.append_nil, hk]
              show (h.name ++ colon :: (h.before ++ h.value ++ h.after)).drop _ = _
              rw [List.drop_length_add_append, List.drop_succ_cons]
            rw [hline]
            exact hgaps
        · refine ih hrest hdistinct hlast (lf_notMem_line hh) (fun h' hh' => ?_) hsplit'
            fun h' hh' => hfound h' (.tail _ hh')
          have hkey : toLowerAscii h'.name ≠ toLowerAscii h.name := fun heq =>
            hfresh (List.mem_map.mpr ⟨h', hh', heq⟩)
          rcases hcut with ⟨-, hsame⟩ | ⟨-, hinsert⟩
          · rw [hsame]
            exact hnew h' (.tail _ hh')
          · rw [hinsert]
            exact (AList.lookup_insert_ne hkey).trans (hnew h' (.tail _ hh'))

/-- A line of white space is no request line. -/
theorem parseHeaderBlock_spaces (hcurrent : p.current = {}) {n : Nat}
    (hspaces : ∀ b ∈ p.buffer.take n, b ≠ lf ∧ isSpace b = true) :
    (p.parseHeaderBlock n).current = {} := by
  have hline : (p.buffer.take n).splitOn lf = [p.buffer.take n] :=
    List.splitOn_eq_singleton fun hmem => (hspaces _ hmem).1 rfl
  unfold parseHeaderBlock
  dsimp only
  rw [hline]
  show setRequestLine p.current (p.buffer.take n) = {}
  unfold setRequestLine
  rw [trimmed_eq_nil fun b hb => (hspaces b hb).2, hcurrent]
  rfl

/-- White space that a header section left behind is no request. -/
theorem gaps_not_drains {gaps : Bytes} (hne : gaps ≠ []) (hgaps : ∀ b ∈ gaps, b = space ∨ b = 9)
    {rest : Bytes}
    (h : Drains ((fresh limit maxBody).feed (gaps ++ (crlf ++ crlf) ++ rest)) reqs
      .needMoreData q) : q.buffer ≠ [] := by
  have hnot : ∀ {b}, b ∈ gaps → b ≠ cr ∧ b ≠ lf ∧ isSpace b = true := by
    intro b hb
    rcases hgaps b hb with rfl | rfl <;> decide
  have hend : headerEnd (gaps ++ (crlf ++ crlf) ++ rest) = toInt32 gaps.length := by
    have hfound := indexOf_lines (fun hcr => (hnot hcr).1 rfl) (nofun : ∀ l ∈ ([] : List Bytes), _)
      rest
    rw [List.flatMap_nil, List.append_nil] at hfound
    exact headerEnd_eq hfound
  have hbuffer : ((fresh limit maxBody).feed (gaps ++ (crlf ++ crlf) ++ rest)).buffer =
      gaps ++ (crlf ++ crlf) ++ rest := rfl
  generalize hp : (fresh limit maxBody).feed (gaps ++ (crlf ++ crlf) ++ rest) = p at h hbuffer
  have hparse : p.parseNext = p.readHeaders := by
    rw [← hp]
    rfl
  by_cases hnonneg : 0 ≤ toInt32 gaps.length
  · have hle := toInt32_le (Int.natCast_nonneg gaps.length)
    have hcurrent : (p.parseHeaderBlock (toInt32 gaps.length).toNat).current = {} := by
      refine parseHeaderBlock_spaces (hp ▸ rfl) fun b hb => ?_
      rw [hbuffer, List.append_assoc, List.take_append_of_le_length (by omega)] at hb
      exact (hnot (List.mem_of_mem_take hb)).2
    have hinvalid : (p.parseHeaderBlock (toInt32 gaps.length).toNat).current.lacksLine = true := by
      rw [hcurrent]
      rfl
    rw [readHeaders_found (by rw [hbuffer, hend]; exact hnonneg), hbuffer, hend] at hparse
    unfold finish at hparse
    rw [if_pos hinvalid] at hparse
    cases h with
    | stop hparse' _ => cases (Prod.mk.inj (hparse.symm.trans hparse')).1
    | take hparse' _ => cases (Prod.mk.inj (hparse.symm.trans hparse')).1
  · rw [readHeaders_missing (by rw [hbuffer, hend]; omega)] at hparse
    cases h with
    | stop hparse' _ =>
        obtain ⟨-, rfl⟩ := Prod.mk.inj (hparse.symm.trans hparse')
        rw [hbuffer]
        simp [hne]
    | take hparse' _ =>
        have hstatus := (Prod.mk.inj (hparse.symm.trans hparse')).1
        split at hstatus <;> cases hstatus

theorem length_splitOn_three {sep : UInt8} {l a b c : Bytes} {more : List Bytes}
    (h : l.splitOn sep = a :: b :: c :: more) : a.length + b.length + c.length + 2 ≤ l.length := by
  have hjoin : [sep].intercalate (l.splitOn sep) = l := List.intercalate_splitOn sep
  rw [h] at hjoin
  rw [← hjoin]
  cases more with
  | nil =>
      simp [List.intercalate]
      omega
  | cons d more =>
      simp [List.intercalate]
      omega

/-- A request line is not longer than the line it is read from. -/
theorem setRequestLine_le {req : HttpRequest} {l : Bytes} (hreq : req.method = [])
    (hmethod : (setRequestLine req l).method ≠ []) :
    (setRequestLine req l).method.length + (setRequestLine req l).target.length +
      (setRequestLine req l).httpVersion.length + 2 ≤ l.length := by
  unfold setRequestLine at hmethod ⊢
  split
  · rename_i hsplit
    exact (length_splitOn_three hsplit).trans (length_trimmed_le l)
  · rename_i hnone
    split at hmethod
    · rename_i hsplit
      exact absurd hsplit (hnone _ _ _ _)
    · exact absurd hreq hmethod

theorem readLength_keeps (p : HttpRequestParser) :
    p.readLength.2.current = p.current ∧ p.readLength.2.maxBodyBytes = p.maxBodyBytes := by
  unfold readLength
  dsimp only
  split
  · exact ⟨rfl, rfl⟩
  · split
    · exact ⟨rfl, rfl⟩
    · split_ifs <;> exact ⟨rfl, rfl⟩

/-- What the parser takes when all of it has come. -/
theorem finish_complete (h : p.finish = (.complete, q)) :
    ∃ k < 2 ^ 31, q.current = { p.current with body := p.buffer.take k } ∧
      q.takeRequest.2 = (fresh p.maxHeaderBytes p.maxBodyBytes).feed (p.buffer.drop k) := by
  obtain ⟨hlimit, hbuffer⟩ := readLength_maxHeaderBytes p
  obtain ⟨hcurrent, hmax⟩ := readLength_keeps p
  have hspec := readLength_spec p
  unfold finish at h
  split at h
  · cases h
  · rcases hread : p.readLength with ⟨error, p₁⟩
    rw [hread] at h hlimit hbuffer hcurrent hmax hspec
    cases error with
    | some error =>
        obtain rfl : error = .complete := (Prod.mk.inj h).1
        rcases hspec with ⟨hnone, -⟩ | herror | herror
        · cases hnone
        · cases herror
        · cases herror
    | none =>
        have hlt := toInt32_lt p₁.contentLength
        refine ⟨(toInt32 p₁.contentLength).toNat, by omega, ?_⟩
        change p₁.readBody = _ at h
        unfold readBody at h
        split at h
        · cases h
        · obtain ⟨-, rfl⟩ := Prod.mk.inj h
          dsimp only at hlimit hbuffer hcurrent hmax
          rw [← hlimit, ← hbuffer, ← hcurrent, ← hmax]
          exact ⟨rfl, rfl⟩

theorem header_of_mem (hr : r.WellFormed) {h : WireHeader} (hh : h ∈ r.headers) :
    r.header (toLowerAscii h.name) = some h.value := by
  unfold WireRequest.header
  rw [Option.map_eq_some_iff]
  refine ⟨h, ?_, rfl⟩
  have hdistinct := hr.distinct
  generalize r.headers = hs at hh hdistinct
  induction hs with
  | nil => cases hh
  | cons h' hs ih =>
      obtain ⟨hfresh, hrest⟩ := List.nodup_cons.mp hdistinct
      rcases List.mem_cons.mp hh with rfl | hh
      · simp
      · have hne : (toLowerAscii h'.name == toLowerAscii h.name) = false :=
          beq_false_of_ne fun heq => hfresh (List.mem_map.mpr ⟨h, hh, heq.symm⟩)
        rw [List.find?_cons, hne]
        exact ih hh hrest

theorem setRequestLine_headers (req : HttpRequest) (l : Bytes) :
    (setRequestLine req l).headers = req.headers := by
  unfold setRequestLine
  split <;> rfl

/-- A block is cut where only white space is left, if all of the request was read before. -/
theorem gaps_of_carries (hr : r.WellFormed) {n : Nat} (hn : n < r.block.length)
    (hparsed : p.current = {}) (hbuffer : p.buffer.take n = r.block.take n) {body : Bytes}
    (hcarry : Carries { (p.parseHeaderBlock n).current with body } r) :
    ∀ b ∈ r.block.drop n, b = space ∨ b = 9 := by
  have hfirst := (notMem_requestLine hr).2
  rcases hlines : (r.block.take n).splitOn lf with _ | ⟨l, lines⟩
  · exact absurd hlines (List.splitOn_ne_nil lf _)
  · have hcurrent : (p.parseHeaderBlock n).current =
        lines.foldl addHeader (setRequestLine {} l) := by
      unfold parseHeaderBlock
      dsimp only
      rw [hbuffer, hlines, hparsed]
    rw [hcurrent] at hcarry
    by_cases hheaders : r.headers = []
    · have hblock : r.block = r.requestLine := by
        unfold WireRequest.block
        rw [hheaders, List.flatMap_nil, List.append_nil]
      rw [hblock] at hlines hn
      rw [List.splitOn_eq_singleton fun hmem => hfirst (List.mem_of_mem_take hmem)] at hlines
      obtain ⟨rfl, rfl⟩ := List.cons.inj hlines
      have hmethod : (setRequestLine {} (r.requestLine.take n)).method = r.method := hcarry.method
      have htarget : (setRequestLine {} (r.requestLine.take n)).target = r.target := hcarry.target
      have hversion : (setRequestLine {} (r.requestLine.take n)).httpVersion = r.httpVersion :=
        hcarry.httpVersion
      have hle := @setRequestLine_le {} (r.requestLine.take n) rfl
        (by rw [hmethod]; exact hr.method.1)
      rw [hmethod, htarget, hversion, List.length_take] at hle
      simp [WireRequest.requestLine] at hle hn
      omega
    · have hfound : ∀ h ∈ r.headers, (lines.foldl addHeader (setRequestLine {} l)).headers.lookup
          (toLowerAscii h.name) = some h.value := by
        intro h hh
        rw [← header_of_mem hr hh]
        exact hcarry.headers _
      refine gaps_of_cut hr.headers hr.distinct hheaders hfirst (fun h _ => ?_) hlines hfound
      rw [setRequestLine_headers]
      rfl

/-- The truncated position is far before the end of the block. -/
theorem toInt32_far {n : Nat} (hbig : 2 ^ 31 ≤ n) (hnonneg : 0 ≤ toInt32 n) :
    (toInt32 n).toNat + 2 ^ 32 ≤ n := by
  unfold toInt32 at hnonneg ⊢
  rw [Int.bmod_def] at hnonneg ⊢
  split_ifs at hnonneg ⊢ <;> omega

theorem block_lt (hr : r.WellFormed) (h : Exact limit maxBody [wire (r :: rs)] (r :: rs)) :
    r.block.length < 2 ^ 31 := by
  by_contra hbig
  obtain ⟨reqs, q, hdrains, hcarries, hnil⟩ := h.drains
  have hwire : wire (r :: rs) = r.bytes ++ wire rs := rfl
  rw [hwire] at hdrains
  obtain ⟨req, reqs, hcarry, -, rfl⟩ := List.forall₂_cons_right_iff.mp hcarries
  cases hdrains with
  | @take _ p _ _ _ hparse hrest =>
      by_cases hnonneg : 0 ≤ toInt32 r.block.length
      · rw [parseNext_found hr hnonneg] at hparse
        have hfar := toInt32_far (Nat.not_lt.mp hbig) hnonneg
        generalize (toInt32 r.block.length).toNat = n at hparse hfar
        have hbytes : r.bytes ++ wire rs =
            r.block ++ ((crlf ++ crlf) ++ (r.body ++ wire rs)) := by
          simp only [WireRequest.bytes, WireRequest.head, List.append_assoc]
        obtain ⟨k, hk, hcurrent, hnext⟩ := finish_complete hparse
        have hcarry : Carries p.current r := hcarry
        rw [hcurrent] at hcarry
        have hgaps := gaps_of_carries hr (by omega) rfl (by
          show (r.bytes ++ wire rs).take n = _
          rw [hbytes, List.take_append_of_le_length (by omega)]) hcarry
        -- the next request would begin in the white space
        have hrest' : (((fresh limit maxBody).feed (r.bytes ++ wire rs)).parseHeaderBlock
            n).buffer.drop k =
              r.block.drop (n + 4 + k) ++ (crlf ++ crlf) ++ (r.body ++ wire rs) := by
          show ((r.bytes ++ wire rs).drop (n + 4)).drop k = _
          rw [List.drop_drop, hbytes, List.drop_append_of_le_length (by omega)]
          simp only [List.append_assoc]
        rw [hnext, hrest'] at hrest
        refine gaps_not_drains ?_ (fun b hb => hgaps b ?_) hrest hnil
        · rw [← List.length_pos_iff, List.length_drop]
          omega
        · rw [Nat.add_assoc, ← List.drop_drop] at hb
          exact List.mem_of_mem_drop hb
      · have hend : headerEnd (r.bytes ++ wire rs) < 0 := by
          rw [headerEnd_eq (indexOf_bytes hr _)]
          exact Int.not_le.mp hnonneg
        have hmissing : ((fresh limit maxBody).feed (r.bytes ++ wire rs)).parseNext = _ :=
          readHeaders_missing hend
        have hstatus := (Prod.mk.inj (hmissing.symm.trans hparse)).1
        split at hstatus <;> cases hstatus

/-- The rest of the stream is read as if it came alone. -/
theorem exact_tail (hr : r.WellFormed) (hlimit : 0 ≤ limit)
    (hmax : (r.body.length : Int) ≤ maxBody) (hfit : Fits limit r)
    (h : ∀ chunks : List Bytes, chunks.flatten = wire (r :: rs) →
      Exact limit maxBody chunks (r :: rs)) (hchunks : chunks.flatten = wire rs) :
    Exact limit maxBody chunks rs := by
  have hexact := h (r.bytes :: chunks) (by rw [List.flatten_cons, hchunks]; rfl)
  obtain ⟨reqs', hforall, hdrains⟩ := @drains_wire limit maxBody [r] hlimit
    (by simpa using hr) (by simpa using hmax) (by simpa using hfit)
  have hwire : wire [r] = r.bytes := by simp [wire]
  rw [hwire] at hdrains
  obtain ⟨req, reqs'', -, hnil, rfl⟩ := List.forall₂_cons_right_iff.mp hforall
  cases hnil
  obtain ⟨hread, hafter⟩ := readAll_next hdrains chunks
  obtain ⟨reqs, htaken, hcarries⟩ := hexact.taken
  rw [hread] at htaken
  obtain ⟨rfl, hnone⟩ := Prod.mk.inj htaken
  cases hcarries with
  | cons _ hrest =>
      refine ⟨⟨_, Prod.ext rfl hnone, hrest⟩, ?_⟩
      rw [← hafter]
      exact hexact.remains

end Streams

/-- Well-formed requests are read exactly, however they are cut, just where each header section
without its last byte is within the limit, and its length and that of its body are `int`s. -/
theorem reads_exactly_iff {limit maxBody : Int} {rs : List WireRequest}
    (hwf : ∀ r ∈ rs, r.WellFormed) (hmax : ∀ r ∈ rs, (r.body.length : Int) ≤ maxBody) :
    (∀ chunks : List Bytes, chunks.flatten = wire rs → Exact limit maxBody chunks rs) ↔
      0 ≤ limit ∧ ∀ r ∈ rs, Fits limit r := by
  constructor
  · intro h
    have hlimit := limit_nonneg h
    refine ⟨hlimit, ?_⟩
    induction rs with
    | nil => nofun
    | cons r rs ih =>
        obtain ⟨hr, hwf⟩ := List.forall_mem_cons.mp hwf
        obtain ⟨hmaxr, hmax⟩ := List.forall_mem_cons.mp hmax
        have hwhole := h [wire (r :: rs)] (by simp)
        have hblock := block_lt hr hwhole
        have hfit : Fits limit r := ⟨head_le hr h, hblock, body_lt hr hblock hmaxr hwhole⟩
        refine List.forall_mem_cons.mpr ⟨hfit, ih hwf hmax fun chunks hchunks => ?_⟩
        exact exact_tail hr hlimit hmaxr hfit h hchunks
  · rintro ⟨hlimit, hfits⟩ chunks hchunks
    exact exact_of_fits hlimit hwf hmax hfits hchunks

/-- A request without headers. -/
def slashRequest : WireRequest where
  method := ascii "GET"
  target := ascii "/"
  httpVersion := ascii "HTTP/1.1"
  headers := []
  body := []

theorem slashRequest_wellFormed : slashRequest.WellFormed where
  method := by unfold Token slashRequest; decide +kernel
  target := by unfold Token slashRequest; decide +kernel
  httpVersion := by unfold Token slashRequest; decide +kernel
  headers := nofun
  distinct := .nil
  length := rfl

/-- A request whose body has a blank line too. -/
def postRequest : WireRequest where
  method := ascii "POST"
  target := ascii "/mcp"
  httpVersion := ascii "HTTP/1.1"
  headers :=
    [{ name := ascii "Host", before := ascii " ", value := ascii "localhost: 80" },
      { name := ascii "Content-LENGTH", value := ascii "06", after := ascii " " }]
  body := ascii "1\r\n\r\n2"

theorem postRequest_wellFormed : postRequest.WellFormed where
  method := by unfold Token postRequest; decide +kernel
  target := by unfold Token postRequest; decide +kernel
  httpVersion := by unfold Token postRequest; decide +kernel
  headers := by
    unfold postRequest
    refine List.forall_mem_cons.mpr ⟨?_, List.forall_mem_singleton.mpr ?_⟩
    · exact ⟨by unfold Token; decide +kernel, by decide +kernel, by decide +kernel,
        by decide +kernel, by decide +kernel⟩
    · exact ⟨by unfold Token; decide +kernel, by decide +kernel, by decide +kernel,
        by decide +kernel, by decide +kernel⟩
  distinct := by decide +kernel
  length := by
    have hlength : postRequest.header (ascii "content-length") = some (ascii "06") := by
      decide +kernel
    rw [hlength]
    exact ⟨by decide +kernel, by decide +kernel, by decide +kernel⟩

/-- The blank line in the first body does not end the header section of the second request. -/
theorem reads_exactly_post :
    ((∀ chunks : List Bytes, chunks.flatten = wire [postRequest, slashRequest] →
      Exact 80 6 chunks [postRequest, slashRequest]) ↔
      (0 : Int) ≤ 80 ∧ ∀ r ∈ [postRequest, slashRequest], Fits 80 r) ∧
    ∀ r ∈ [postRequest, slashRequest], Fits 80 r := by
  refine ⟨reads_exactly_iff ?_ (by decide +kernel), ?_⟩
  · simpa using ⟨postRequest_wellFormed, slashRequest_wellFormed⟩
  · refine List.forall_mem_cons.mpr ⟨?_, List.forall_mem_singleton.mpr ?_⟩
    · exact ⟨by decide +kernel, by decide +kernel, by decide +kernel⟩
    · exact ⟨by decide +kernel, by decide +kernel, by decide +kernel⟩

/-- The header block is within the limit, and its blank line comes in two chunks. -/
theorem blank_line_cut :
    (slashRequest.block.length : Int) ≤ 14 ∧ slashRequest.WellFormed ∧
      [ascii "GET / HTTP/1.1\r", ascii "\n\r\n"].flatten = wire [slashRequest] ∧
      ¬Exact 14 0 [ascii "GET / HTTP/1.1\r", ascii "\n\r\n"] [slashRequest] := by
  have herror : ((fresh 14 0).readAll
      [ascii "GET / HTTP/1.1\r", ascii "\n\r\n"]).2 ≠ none := by decide +kernel
  refine ⟨by decide, slashRequest_wellFormed, by decide, fun h => ?_⟩
  obtain ⟨reqs, hread, -⟩ := h.taken
  exact herror (congrArg Prod.snd hread)

end HttpRequestParser

end LLMQore.Network
