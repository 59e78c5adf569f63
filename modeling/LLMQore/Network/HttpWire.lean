import Mathlib.Data.List.AList
import Mathlib.Data.List.TakeWhile
import LLMQore.Network.HttpRequestParser

/-!
# LLMQore.Network.HttpWire

HTTP requests as they are written, and what the parser reads of a header block.

A header section is a header block and the blank line after it. The parser finds its end
where that blank line first is, and splits the block at line feeds.
-/

namespace LLMQore.Network

open Bytes HttpRequestParser

/-! ### Requests on the wire -/

/-- A header, with the white space around its value. -/
structure WireHeader where
  name : Bytes
  value : Bytes
  before : Bytes := [space]
  after : Bytes := []

def WireHeader.line (h : WireHeader) : Bytes := h.name ++ colon :: (h.before ++ h.value ++ h.after)

structure WireRequest where
  method : Bytes
  target : Bytes
  httpVersion : Bytes
  headers : List WireHeader
  body : Bytes

namespace WireRequest

variable (r : WireRequest)

def requestLine : Bytes := r.method ++ space :: (r.target ++ space :: r.httpVersion)

/-- The header block, without the blank line that ends it. -/
def block : Bytes := r.requestLine ++ r.headers.flatMap fun h => crlf ++ h.line

/-- The header section. -/
def head : Bytes := r.block ++ (crlf ++ crlf)

def bytes : Bytes := r.head ++ r.body

/-- The value of a header, whose name is in lower case. -/
def header (key : Bytes) : Option Bytes :=
  (r.headers.find? fun h => toLowerAscii h.name == key).map (·.value)

end WireRequest

/-- What is not empty and has no white space. -/
def Token (bytes : Bytes) : Prop := bytes ≠ [] ∧ ∀ b ∈ bytes, isSpace b = false

structure WireHeader.WellFormed (h : WireHeader) : Prop where
  name : Token h.name
  colon : colon ∉ h.name
  value : trimmed h.value = h.value
  line : cr ∉ h.value ∧ lf ∉ h.value
  gaps : ∀ b ∈ h.before ++ h.after, b = space ∨ b = 9

structure WireRequest.WellFormed (r : WireRequest) : Prop where
  method : Token r.method
  target : Token r.target
  httpVersion : Token r.httpVersion
  headers : ∀ h ∈ r.headers, h.WellFormed
  distinct : (r.headers.map fun h => toLowerAscii h.name).Nodup
  /-- `Content-Length` is the size of the body, which is empty where there is no such header. -/
  length : match r.header (ascii "content-length") with
    | some v => v ≠ [] ∧ (∀ c ∈ v, 48 ≤ c ∧ c ≤ 57) ∧ decimal v = r.body.length
    | none => r.body = []

/-- The request the parser takes is the one that was written. -/
structure Carries (req : HttpRequest) (r : WireRequest) : Prop where
  method : req.method = r.method
  target : req.target = r.target
  httpVersion : req.httpVersion = r.httpVersion
  headers : ∀ key, req.headers.lookup key = r.header key
  body : req.body = r.body

/-! ### Where a header section ends -/

section IndexOf

variable {pattern xs ys : Bytes} {n : Nat}

theorem indexOf_cons {c : UInt8} (h : pattern.isPrefixOf (c :: xs) = false) :
    indexOf pattern (c :: xs) = (indexOf pattern xs).map (· + 1) := by
  simp [indexOf, h]

/-- The pattern is within the bytes. -/
theorem indexOf_add_le (h : indexOf pattern xs = some n) : n + pattern.length ≤ xs.length := by
  induction xs generalizing n with
  | nil =>
      unfold indexOf at h
      split at h
      · rename_i hempty
        cases h
        simp [List.isEmpty_iff.mp hempty]
      · cases h
  | cons c xs ih =>
      unfold indexOf at h
      split at h
      · rename_i hprefix
        cases h
        simpa using (List.isPrefixOf_iff_prefix.mp hprefix).length_le
      · obtain ⟨k, hk, rfl⟩ := Option.map_eq_some_iff.mp h
        have := ih hk
        simp only [List.length_cons]
        omega

/-- What was found is still the first one when more bytes come. -/
theorem indexOf_append (h : indexOf pattern xs = some n) (ys : Bytes) :
    indexOf pattern (xs ++ ys) = some n := by
  induction xs generalizing n with
  | nil =>
      unfold indexOf at h
      split at h
      · rename_i hempty
        cases h
        rw [List.isEmpty_iff.mp hempty]
        cases ys <;> rfl
      · cases h
  | cons c xs ih =>
      unfold indexOf at h
      split at h
      · rename_i hprefix
        cases h
        obtain ⟨rest, hrest⟩ := List.isPrefixOf_iff_prefix.mp hprefix
        have hmore : pattern.isPrefixOf (c :: (xs ++ ys)) = true :=
          List.isPrefixOf_iff_prefix.mpr ⟨rest ++ ys, by
            rw [← List.append_assoc, hrest, List.cons_append]⟩
        rw [List.cons_append, indexOf, if_pos hmore]
      · rename_i hprefix
        obtain ⟨k, hk, rfl⟩ := Option.map_eq_some_iff.mp h
        have hlen := indexOf_add_le hk
        have hmore : pattern.isPrefixOf (c :: xs ++ ys) = false := by
          rw [Bool.eq_false_iff]
          intro htrue
          refine hprefix (List.isPrefixOf_iff_prefix.mpr ?_)
          exact List.prefix_of_prefix_length_le (List.isPrefixOf_iff_prefix.mp htrue)
            (List.prefix_append _ _) (by simp only [List.length_cons]; omega)
        rw [List.cons_append] at hmore ⊢
        rw [indexOf_cons hmore, ih hk]
        rfl

/-- Bytes that are no carriage return are passed over. -/
theorem indexOf_line (h : cr ∉ xs) (ys : Bytes) :
    indexOf (crlf ++ crlf) (xs ++ ys) = (indexOf (crlf ++ crlf) ys).map (· + xs.length) := by
  induction xs with
  | nil => simp
  | cons c xs ih =>
      have hc : (cr == c) = false := beq_false_of_ne fun heq => h (heq ▸ .head _)
      have hprefix : (crlf ++ crlf).isPrefixOf (c :: (xs ++ ys)) = false := by
        simp [crlf, List.isPrefixOf, hc]
      rw [List.cons_append, indexOf_cons hprefix, ih fun hmem => h (.tail _ hmem), Option.map_map]
      congr 1

/-- The end of a line that more of the block follows is passed over. -/
theorem indexOf_crlf {c : UInt8} (hc : c ≠ cr) (ys : Bytes) :
    indexOf (crlf ++ crlf) (crlf ++ c :: ys) =
      (indexOf (crlf ++ crlf) (c :: ys)).map (· + 2) := by
  have hne : (cr == c) = false := beq_false_of_ne (Ne.symm hc)
  have hcr : (crlf ++ crlf).isPrefixOf (cr :: lf :: c :: ys) = false := by
    simp [crlf, List.isPrefixOf, hne]
  have hlf : (crlf ++ crlf).isPrefixOf (lf :: c :: ys) = false := by
    simp [crlf, List.isPrefixOf, cr, lf]
  show indexOf (crlf ++ crlf) (cr :: lf :: c :: ys) = _
  rw [indexOf_cons hcr, indexOf_cons hlf, Option.map_map]
  congr 1

/-- The blank line is found where the lines of the block end. -/
theorem indexOf_lines {first : Bytes} {lines : List Bytes} (hfirst : cr ∉ first)
    (hlines : ∀ l ∈ lines, l ≠ [] ∧ cr ∉ l) (ys : Bytes) :
    indexOf (crlf ++ crlf) (first ++ lines.flatMap (crlf ++ ·) ++ (crlf ++ crlf) ++ ys) =
      some (first ++ lines.flatMap (crlf ++ ·)).length := by
  induction lines generalizing first with
  | nil =>
      have hfound : indexOf (crlf ++ crlf) (crlf ++ crlf ++ ys) = some 0 := by
        simp [crlf, indexOf, List.isPrefixOf]
      simp only [List.flatMap_nil, List.append_nil]
      rw [List.append_assoc, indexOf_line hfirst, hfound]
      simp
  | cons l lines ih =>
      obtain ⟨hne, hcr⟩ := hlines l (.head _)
      have hrest := ih hcr fun l' hl' => hlines l' (.tail _ hl')
      obtain ⟨c, l, rfl⟩ := List.exists_cons_of_ne_nil hne
      have hc : c ≠ cr := fun heq => hcr (heq ▸ .head _)
      simp only [List.flatMap_cons, List.append_assoc, List.cons_append] at hrest ⊢
      rw [indexOf_line hfirst, indexOf_crlf hc, hrest]
      simp [crlf]
      omega

end IndexOf

/-! ### White space around what is read -/

section Trim

variable {x w pre post : Bytes} {c : UInt8}

/-- The second half of `trimmed`. -/
def trimEnd (bytes : Bytes) : Bytes := (bytes.reverse.dropWhile isSpace).reverse

theorem trimEnd_append_spaces (hw : ∀ b ∈ w, isSpace b = true) : trimEnd (x ++ w) = trimEnd x := by
  have hdrop : w.reverse.dropWhile isSpace = [] :=
    List.dropWhile_eq_nil_iff.mpr fun b hb => hw b (List.mem_reverse.mp hb)
  simp [trimEnd, List.dropWhile_append, hdrop]

theorem trimEnd_concat (hc : isSpace c = false) : trimEnd (x ++ [c]) = x ++ [c] := by
  simp [trimEnd, hc]

theorem trimmed_eq_nil (hw : ∀ b ∈ w, isSpace b = true) : trimmed w = [] := by
  show trimEnd (w.dropWhile isSpace) = []
  rw [List.dropWhile_eq_nil_iff.mpr hw]
  rfl

/-- White space around what has none is trimmed. -/
theorem trimmed_surrounded (hpre : ∀ b ∈ pre, isSpace b = true)
    (hpost : ∀ b ∈ post, isSpace b = true) (hx : trimmed x = x) :
    trimmed (pre ++ x ++ post) = x := by
  have hstart : (pre ++ x ++ post).dropWhile isSpace = (x ++ post).dropWhile isSpace := by
    rw [List.append_assoc, List.dropWhile_append_of_pos hpre]
  show trimEnd ((pre ++ x ++ post).dropWhile isSpace) = x
  rw [hstart, List.dropWhile_append]
  split
  · rename_i hempty
    rw [List.isEmpty_iff] at hempty
    have hnil : x = [] := by
      rw [← hx]
      show trimEnd (x.dropWhile isSpace) = []
      rw [hempty]
      rfl
    rw [hnil]
    exact trimmed_eq_nil hpost
  · rw [trimEnd_append_spaces hpost]
    exact hx

/-- Trimming the end first makes no difference. -/
theorem trimmed_trimEnd (w : Bytes) : trimmed (trimEnd w) = trimmed w := by
  obtain ⟨post, hw, hpost⟩ : ∃ post, w = trimEnd w ++ post ∧ ∀ b ∈ post, isSpace b = true := by
    refine ⟨(w.reverse.takeWhile isSpace).reverse, ?_, fun b hb => ?_⟩
    · rw [trimEnd, ← List.reverse_append, List.takeWhile_append_dropWhile, List.reverse_reverse]
    · exact List.mem_takeWhile_imp (List.mem_reverse.mp hb)
  show trimEnd _ = trimEnd _
  conv => rhs; rw [hw]
  rw [List.dropWhile_append]
  split
  · rename_i hempty
    rw [List.isEmpty_iff.mp hempty, List.dropWhile_eq_nil_iff.mpr hpost]
  · rw [trimEnd_append_spaces hpost]

theorem mem_trimmed {x : Bytes} {b : UInt8} (h : b ∈ trimmed x) : b ∈ x := by
  unfold trimmed at h
  have h := (List.dropWhile_sublist isSpace).subset (List.mem_reverse.mp h)
  exact (List.dropWhile_sublist isSpace).subset (List.mem_reverse.mp h)

theorem trimmed_append_spaces {w tail : Bytes} (htail : ∀ b ∈ tail, isSpace b = true) :
    trimmed (w ++ tail) = trimmed w := by
  rw [← trimmed_trimEnd, trimEnd_append_spaces htail, trimmed_trimEnd]

theorem Token.not_space (h : Token x) (hc : c ∈ x) : c ≠ space ∧ c ≠ cr ∧ c ≠ lf := by
  have hns := h.2 c hc
  refine ⟨?_, ?_, ?_⟩ <;> rintro rfl <;> exact absurd hns (by decide)

theorem Token.trimmed (h : Token x) : trimmed x = x := by
  obtain ⟨hne, hns⟩ := h
  have hstart : x.dropWhile isSpace = x := by
    cases x with
    | nil => rfl
    | cons c x => exact List.dropWhile_cons_of_neg (by simp [hns c (.head _)])
  show trimEnd (x.dropWhile isSpace) = x
  rw [hstart]
  obtain ⟨x, c, rfl⟩ := (List.eq_nil_or_concat' x).resolve_left hne
  exact trimEnd_concat (hns c (by simp))

/-- Of a line that starts with a token only the end is trimmed. -/
theorem trimmed_line (hx : Token x) (hc : isSpace c = false) (w : Bytes) :
    trimmed (x ++ c :: w) = x ++ c :: trimEnd w := by
  obtain ⟨b, x, rfl⟩ := List.exists_cons_of_ne_nil hx.1
  have hstart : (b :: x ++ c :: w).dropWhile isSpace = b :: x ++ c :: w :=
    List.dropWhile_cons_of_neg (by simp [hx.2 b (.head _)])
  show trimEnd ((b :: x ++ c :: w).dropWhile isSpace) = _
  rw [hstart]
  simp only [trimEnd, List.reverse_append, List.reverse_cons, List.append_assoc,
    List.dropWhile_append]
  split
  · rename_i hempty
    simp [List.isEmpty_iff.mp hempty, hc]
  · simp

end Trim

/-! ### Reading a header block -/

section Read

variable {h : WireHeader} {r : WireRequest} {req : HttpRequest} {tail : Bytes}

theorem isSpace_gap (hh : h.WellFormed) {b : UInt8} (hb : b ∈ h.before ++ h.after) :
    isSpace b = true := by
  rcases hh.gaps b hb with rfl | rfl <;> decide

/-- A header as the parser stores it. -/
def storeHeader (req : HttpRequest) (h : WireHeader) : HttpRequest :=
  { req with headers := req.headers.insert (toLowerAscii h.name) h.value }

/-- What the parser makes of a header line that was cut. -/
theorem addHeader_cut {h : WireHeader} (hh : h.WellFormed) {tail : Bytes}
    (htail : ∀ b ∈ tail, isSpace b = true) (req : HttpRequest) (n : Nat) :
    (n ≤ h.name.length ∧ addHeader req (h.line.take n ++ tail) = req) ∨
      (h.name.length < n ∧ addHeader req (h.line.take n ++ tail) =
        storeHeader req { h with
          value := trimmed ((h.before ++ h.value ++ h.after).take (n - h.name.length - 1)) }) := by
  have hline : h.line = h.name ++ colon :: (h.before ++ h.value ++ h.after) := rfl
  by_cases hn : n ≤ h.name.length
  · refine .inl ⟨hn, if_neg fun hcolon => ?_⟩
    have htake : h.line.take n = h.name.take n := by
      rw [hline, List.take_append_of_le_length hn]
    rcases List.mem_append.mp (mem_trimmed hcolon.1) with hmem | hmem
    · rw [htake] at hmem
      exact hh.colon (List.mem_of_mem_take hmem)
    · exact absurd (htail _ hmem) (by decide)
  · refine .inr ⟨Nat.not_le.mp hn, ?_⟩
    obtain ⟨k, rfl⟩ : ∃ k, n = h.name.length + (k + 1) := ⟨n - h.name.length - 1, by omega⟩
    have hk : h.name.length + (k + 1) - h.name.length - 1 = k := by omega
    have htake : h.line.take (h.name.length + (k + 1)) =
        h.name ++ colon :: (h.before ++ h.value ++ h.after).take k := by
      rw [hline, List.take_length_add_append, List.take_succ_cons]
    rw [hk, htake]
    generalize (h.before ++ h.value ++ h.after).take k = w
    have htrim : trimmed (h.name ++ colon :: w ++ tail) =
        h.name ++ colon :: trimEnd (w ++ tail) := by
      rw [List.append_assoc, List.cons_append, trimmed_line hh.name (by decide)]
    have hidx : (h.name ++ colon :: trimEnd (w ++ tail)).idxOf colon = h.name.length := by
      rw [List.idxOf_append_of_notMem hh.colon, List.idxOf_cons_self, Nat.add_zero]
    unfold addHeader
    dsimp only
    rw [htrim, hidx, if_pos ⟨by simp, List.length_pos_iff.mpr hh.name.1⟩, List.take_left,
      hh.name.trimmed, ← List.drop_drop, List.drop_left, List.drop_one, List.tail_cons,
      trimmed_trimEnd, trimmed_append_spaces htail]
    rfl

/-- A header line is read, with or without the carriage return at its end. -/
theorem addHeader_line (hh : h.WellFormed) (htail : ∀ b ∈ tail, isSpace b = true) :
    addHeader req (h.line ++ tail) =
      { req with headers := req.headers.insert (toLowerAscii h.name) h.value } := by
  have hline : h.line.length = h.name.length + 1 + (h.before ++ h.value ++ h.after).length := by
    simp [WireHeader.line]
    omega
  have hvalue : trimmed (h.before ++ h.value ++ h.after) = h.value :=
    trimmed_surrounded (fun b hb => isSpace_gap hh (List.mem_append_left _ hb))
      (fun b hb => isSpace_gap hh (List.mem_append_right _ hb)) hh.value
  have hcut := addHeader_cut hh htail req h.line.length
  rw [List.take_length] at hcut
  rcases hcut with ⟨hle, -⟩ | ⟨-, hstored⟩
  · omega
  · have hwhole : (h.before ++ h.value ++ h.after).length ≤ h.line.length - h.name.length - 1 := by
      omega
    rw [hstored, List.take_of_length_le hwhole, hvalue]
    rfl

theorem setRequestLine_requestLine (hr : r.WellFormed) (htail : ∀ b ∈ tail, isSpace b = true) :
    setRequestLine req (r.requestLine ++ tail) =
      { req with method := r.method, target := r.target, httpVersion := r.httpVersion } := by
  have hmem : ∀ {x : Bytes}, Token x → space ∉ x := fun hx hmem => (hx.not_space hmem).1 rfl
  have htrim : trimmed (r.requestLine ++ tail) = r.requestLine := by
    obtain ⟨v, c, hv⟩ := (List.eq_nil_or_concat' r.httpVersion).resolve_left hr.httpVersion.1
    have hc : isSpace c = false := hr.httpVersion.2 c (by simp [hv])
    have hstart : (r.requestLine ++ tail).dropWhile isSpace = r.requestLine ++ tail := by
      obtain ⟨b, m, hm⟩ := List.exists_cons_of_ne_nil hr.method.1
      have hb : isSpace b = false := hr.method.2 b (by simp [hm])
      simp [WireRequest.requestLine, hm, hb]
    have hend : r.requestLine = (r.method ++ space :: (r.target ++ space :: v)) ++ [c] := by
      simp [WireRequest.requestLine, hv]
    show trimEnd ((r.requestLine ++ tail).dropWhile isSpace) = r.requestLine
    rw [hstart, trimEnd_append_spaces htail, hend, trimEnd_concat hc]
  have hsplit : r.requestLine.splitOn space = [r.method, r.target, r.httpVersion] := by
    unfold WireRequest.requestLine
    rw [List.splitOn_append_cons_self, List.splitOn_append_cons_self,
      List.splitOn_eq_singleton (hmem hr.method), List.splitOn_eq_singleton (hmem hr.target),
      List.splitOn_eq_singleton (hmem hr.httpVersion)]
    rfl
  unfold setRequestLine
  rw [htrim, hsplit]

end Read

end LLMQore.Network
