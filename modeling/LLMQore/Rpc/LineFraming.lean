import LLMQore.JsonTexts
import LLMQore.Rpc.LineFramer
import LLMQore.Streaming.Transducer

/-!
# LLMQore.Rpc.LineFraming

The lines of a stream do not depend on how it is cut.

What the framer keeps between two chunks is what follows the last line end, so a stream that is
read in two parts has the lines of the first, and then those of the second with that in front of
it (`splitOn_append`). It is the beginning of a line of the stream, and therefore within the
limit where the lines are.
-/

namespace LLMQore

open Bytes Streaming

/-! ### Text in UTF-8 -/

namespace Bytes

/-- A byte that is a letter of its own stands for no part of another one. -/
theorem val_of_mem_utf8EncodeChar {b : UInt8} (hb : b.toNat < 128) {c : Char}
    (h : b ∈ String.utf8EncodeChar c) : c.val.toNat = b.toNat := by
  -- every other byte of a letter is at least 128
  have hbig : ∀ n, 128 ≤ n → n < 256 → b ≠ UInt8.ofNat n := by
    rintro n hn hlt rfl
    rw [UInt8.toNat_ofNat_of_lt' hlt] at hb
    omega
  unfold String.utf8EncodeChar at h
  dsimp only at h
  split at h
  · rename_i hsmall
    obtain rfl := List.mem_singleton.mp h
    rw [UInt8.toNat_ofNat_of_lt' (by omega : c.val.toNat < 2 ^ 8)]
  · exfalso
    split at h
    · rcases List.mem_cons.mp h with h | h
      · exact hbig _ (by omega) (by omega) h
      · exact hbig _ (by omega) (by omega) (List.mem_singleton.mp h)
    · split at h
      · simp only [List.mem_cons, List.not_mem_nil, or_false] at h
        rcases h with h | h | h <;> exact hbig _ (by omega) (by omega) h
      · simp only [List.mem_cons, List.not_mem_nil, or_false] at h
        rcases h with h | h | h | h <;> exact hbig _ (by omega) (by omega) h

theorem ofString_append (s t : String) : ofString (s ++ t) = ofString s ++ ofString t := by
  simp [ofString_eq]

theorem lf_notMem_ofString {s : String} (h : '\n' ∉ s.toList) : lf ∉ ofString s := by
  intro hmem
  rw [ofString_eq] at hmem
  obtain ⟨c, hc, hbyte⟩ := List.mem_flatMap.mp hmem
  have hval : c.val.toNat = lf.toNat := val_of_mem_utf8EncodeChar (by decide) hbyte
  have hline : c = '\n' := Char.ext (UInt32.toNat_inj.mp hval)
  exact h (hline ▸ hc)

end Bytes

/-- In bytes, a text in braces ends with its brace. -/
theorem Braced.ofString {text : String} (h : Braced text) :
    ∃ body, Bytes.ofString text = body ++ [0x7D] := by
  obtain ⟨body, hbody⟩ := h.braces
  refine ⟨('{' :: body).flatMap String.utf8EncodeChar, ?_⟩
  rw [ofString_eq, hbody, ← List.cons_append, List.flatMap_append]
  rfl

namespace Rpc

/-! ### The lines of a stream -/

namespace LineFramer

/-- The lines that are complete and not empty, each without a carriage return at its end. -/
def completeLines (stream : Bytes) : List Bytes :=
  ((stream.splitOn lf).dropLast.map dropCr).filter (!·.isEmpty)

/-- What follows the last line end. -/
def unterminated (stream : Bytes) : Bytes :=
  (stream.splitOn lf).getLast (List.splitOn_ne_nil _ _)

/-- Every line is within the limit, if there is one. -/
def Fits (maxBufferBytes : Int) (stream : Bytes) : Prop :=
  0 < maxBufferBytes → ∀ line ∈ stream.splitOn lf, (line.length : Int) ≤ maxBufferBytes

section Lines

variable {line : Bytes} (h : lf ∉ line) (rest : Bytes)
include h

theorem completeLines_line : completeLines line = [] := by
  simp [completeLines, List.splitOn_eq_singleton h]

theorem unterminated_line : unterminated line = line := by
  simp [unterminated, List.splitOn_eq_singleton h]

theorem completeLines_end :
    completeLines (line ++ lf :: rest) =
      if (dropCr line).isEmpty then completeLines rest
      else dropCr line :: completeLines rest := by
  unfold completeLines
  rw [List.splitOn_append_cons_self_of_not_mem h,
    List.dropLast_cons_of_ne_nil (List.splitOn_ne_nil _ _), List.map_cons, List.filter_cons]
  cases (dropCr line).isEmpty <;> rfl

theorem unterminated_end : unterminated (line ++ lf :: rest) = unterminated rest := by
  unfold unterminated
  simp only [List.splitOn_append_cons_self_of_not_mem h]
  exact List.getLast_cons (List.splitOn_ne_nil _ _)

/-- The loop finds the lines of the stream. -/
theorem scan_eq : scan line rest = (completeLines (line ++ rest), unterminated (line ++ rest)) := by
  induction rest generalizing line with
  | nil =>
      rw [List.append_nil, completeLines_line h, unterminated_line h]
      rfl
  | cons c rest ih =>
      by_cases hc : c = lf
      · subst hc
        rw [scan, if_pos rfl, ih (List.not_mem_nil), completeLines_end h, unterminated_end h]
        rfl
      · have hline : lf ∉ line ++ [c] := by
          simpa [h] using Ne.symm hc
        rw [scan, if_neg hc, ih hline, List.append_assoc]
        rfl

end Lines

/-- A stream is an unterminated line, or begins with a line. -/
theorem eq_line_or (stream : Bytes) :
    lf ∉ stream ∨ ∃ line rest, stream = line ++ lf :: rest ∧ lf ∉ line := by
  by_cases h : lf ∈ stream
  · obtain ⟨line, rest, hstream, hline⟩ := List.eq_append_cons_of_mem h
    exact .inr ⟨line, rest, hstream, hline⟩
  · exact .inl h

/-- The lines of a stream in two parts. -/
theorem splitOn_append (x y : Bytes) :
    (x ++ y).splitOn lf = (x.splitOn lf).dropLast ++ (unterminated x ++ y).splitOn lf := by
  induction hlen : x.length using Nat.strong_induction_on generalizing x with
  | _ n ih =>
      rcases eq_line_or x with hx | ⟨line, rest, rfl, hline⟩
      · rw [unterminated_line hx, List.splitOn_eq_singleton hx]
        rfl
      · have hrest := ih rest.length (by simp at hlen; omega) rest rfl
        rw [unterminated_end hline, List.append_assoc, List.cons_append,
          List.splitOn_append_cons_self_of_not_mem hline,
          List.splitOn_append_cons_self_of_not_mem hline,
          List.dropLast_cons_of_ne_nil (List.splitOn_ne_nil _ _), List.cons_append, hrest]

theorem completeLines_append (x y : Bytes) :
    completeLines (x ++ y) = completeLines x ++ completeLines (unterminated x ++ y) := by
  unfold completeLines
  rw [splitOn_append, List.dropLast_append_of_ne_nil (List.splitOn_ne_nil _ _), List.map_append,
    List.filter_append]

theorem unterminated_append (x y : Bytes) :
    unterminated (x ++ y) = unterminated (unterminated x ++ y) := by
  unfold unterminated
  simp only [splitOn_append x y]
  exact List.getLast_append_of_ne_nil _ (List.splitOn_ne_nil _ _)

theorem lf_notMem_unterminated (stream : Bytes) : lf ∉ unterminated stream := fun hmem =>
  (mem_splitOn (List.getLast_mem _) hmem).2 rfl

/-- What is unterminated is the beginning of a line of the stream. -/
theorem Fits.unterminated {maxBufferBytes : Int} {x y : Bytes} (h : Fits maxBufferBytes (x ++ y))
    (hpos : 0 < maxBufferBytes) : ((unterminated x).length : Int) ≤ maxBufferBytes := by
  have hbegins : ∃ line ∈ (LineFramer.unterminated x ++ y).splitOn lf,
      (LineFramer.unterminated x).length ≤ line.length := by
    have hx := lf_notMem_unterminated x
    rcases eq_line_or y with hy | ⟨line, rest, rfl, hline⟩
    · refine ⟨LineFramer.unterminated x ++ y, ?_, by simp⟩
      rw [List.splitOn_eq_singleton (by simp [hx, hy])]
      exact .head _
    · refine ⟨LineFramer.unterminated x ++ line, ?_, by simp⟩
      rw [← List.append_assoc, List.splitOn_append_cons_self_of_not_mem (by simp [hx, hline])]
      exact .head _
  obtain ⟨line, hline, hle⟩ := hbegins
  have hfits := h hpos line (by rw [splitOn_append]; exact List.mem_append_right _ hline)
  omega

/-! ### Chunks -/

/-- A chunk completes the lines of what was read so far. -/
theorem append_eq {maxBufferBytes : Int} {before chunk after : Bytes}
    (h : Fits maxBufferBytes (before ++ chunk ++ after)) :
    append { maxBufferBytes, buffer := unterminated before } chunk =
      ({ maxBufferBytes, buffer := unterminated (before ++ chunk) },
        completeLines (unterminated before ++ chunk)) := by
  unfold append
  dsimp only
  rw [scan_eq List.not_mem_nil, List.nil_append, ← unterminated_append]
  have hkept : ¬((0 < maxBufferBytes &&
      maxBufferBytes < ((unterminated (before ++ chunk)).length : Int)) = true) := by
    intro hover
    simp only [Bool.and_eq_true, decide_eq_true_eq] at hover
    have := h.unterminated hover.1
    omega
  rw [if_neg hkept]

/-- The lines of a stream within the limit, of which some was read before. -/
theorem appendAll_eq {maxBufferBytes : Int} (chunks : List Bytes) {before : Bytes}
    (h : Fits maxBufferBytes (before ++ chunks.flatten)) :
    appendAll append { maxBufferBytes, buffer := unterminated before } chunks =
      ({ maxBufferBytes, buffer := unterminated (before ++ chunks.flatten) },
        completeLines (unterminated before ++ chunks.flatten)) := by
  induction chunks generalizing before with
  | nil =>
      rw [List.flatten_nil, List.append_nil, List.append_nil,
        completeLines_line (lf_notMem_unterminated _)]
      rfl
  | cons chunk chunks ih =>
      rw [List.flatten_cons, ← List.append_assoc] at h
      rw [appendAll, append_eq h, ih h, List.flatten_cons, ← List.append_assoc,
        ← List.append_assoc, completeLines_append (_ ++ chunk), unterminated_append before chunk]
      rfl

end LineFramer

/-! ### Messages -/

/-- The text the writer makes of a message is on one line and in braces, and is read back. -/
structure Written (json : JsonCodec) (message : JsonObject) : Prop where
  braced : Braced (json.toJson message)
  undone : json.fromJson (ofString (json.toJson message)) = .object message

namespace NdJsonCodec

variable {json : JsonCodec}

/-- The messages, as they are written one after the other. -/
def encodeAll (json : JsonCodec) (messages : List JsonObject) : Bytes :=
  messages.flatMap fun message => ofString (encode json message)

theorem encodeAll_cons (message : JsonObject) (messages : List JsonObject) :
    encodeAll json (message :: messages) =
      ofString (json.toJson message) ++ lf :: encodeAll json messages := by
  have hline : ofString (encode json message) = ofString (json.toJson message) ++ [lf] := by
    rw [encode, ofString_append]
    rfl
  rw [encodeAll, List.flatMap_cons, hline, List.append_assoc]
  rfl

open LineFramer

/-- Each message is a line. -/
theorem splitOn_encodeAll {messages : List JsonObject} (h : ∀ m ∈ messages, Written json m) :
    (encodeAll json messages).splitOn lf =
      messages.map (fun m => ofString (json.toJson m)) ++ [[]] := by
  induction messages with
  | nil => rfl
  | cons m messages ih =>
      obtain ⟨hm, hrest⟩ := List.forall_mem_cons.mp h
      rw [encodeAll_cons,
        List.splitOn_append_cons_self_of_not_mem (lf_notMem_ofString hm.braced.line), ih hrest]
      rfl

theorem completeLines_encodeAll {messages : List JsonObject}
    (h : ∀ m ∈ messages, Written json m) :
    completeLines (encodeAll json messages) =
      messages.map fun m => ofString (json.toJson m) := by
  have hwhole : ∀ m ∈ messages, dropCr (ofString (json.toJson m)) = ofString (json.toJson m) ∧
      (ofString (json.toJson m)).isEmpty = false := by
    intro m hm
    obtain ⟨body, hbody⟩ := (h m hm).braced.ofString
    rw [hbody]
    exact ⟨by simp [dropCr, cr], by simp⟩
  unfold completeLines
  rw [splitOn_encodeAll h, List.dropLast_concat, List.map_map]
  have hmap : messages.map (dropCr ∘ fun m => ofString (json.toJson m)) =
      messages.map fun m => ofString (json.toJson m) :=
    List.map_congr_left fun m hm => (hwhole m hm).1
  rw [hmap, List.filter_eq_self]
  intro line hline
  obtain ⟨m, hm, rfl⟩ := List.mem_map.mp hline
  rw [(hwhole m hm).2]
  rfl

theorem unterminated_encodeAll {messages : List JsonObject}
    (h : ∀ m ∈ messages, Written json m) : unterminated (encodeAll json messages) = [] := by
  unfold unterminated
  simp [splitOn_encodeAll h]

/-- What `decode` reads of a line. -/
def readLine (json : JsonCodec) (line : Bytes) : Option JsonObject :=
  match json.fromJson line with
  | .object o => some o
  | _ => none

theorem readLine_written {message : JsonObject} (h : Written json message) :
    readLine json (ofString (json.toJson message)) = some message := by
  simp [readLine, h.undone]

theorem readLine_all {messages : List JsonObject} (h : ∀ m ∈ messages, Written json m) :
    (messages.map fun m => ofString (json.toJson m)).filterMap (readLine json) = messages := by
  induction messages with
  | nil => rfl
  | cons m messages ih =>
      obtain ⟨hm, hrest⟩ := List.forall_mem_cons.mp h
      rw [List.map_cons, List.filterMap_cons_some (readLine_written hm), ih hrest]

/-- The chunks are framed, and what the framer finds is read. -/
theorem appendAll_decode (c : NdJsonCodec) (chunks : List Bytes) :
    appendAll (decode json) c chunks =
      ({ framer := (appendAll append c.framer chunks).1 },
        (appendAll append c.framer chunks).2.filterMap (readLine json)) := by
  induction chunks generalizing c with
  | nil => rfl
  | cons chunk chunks ih =>
      rw [appendAll, ih, appendAll]
      simp only [emit, List.filterMap_append]
      rfl

end NdJsonCodec

/-- A framer finds the lines of a stream, and messages written one after the other are decoded,
however the stream is cut. -/
theorem line_framing (json : JsonCodec) (maxBufferBytes : Int) (chunks : List Bytes) :
    (LineFramer.Fits maxBufferBytes chunks.flatten →
      appendAll LineFramer.append { maxBufferBytes } chunks =
        ({ maxBufferBytes, buffer := LineFramer.unterminated chunks.flatten },
          LineFramer.completeLines chunks.flatten)) ∧
    ∀ messages : List JsonObject, (∀ m ∈ messages, Written json m) →
      (0 < maxBufferBytes →
        ∀ m ∈ messages, ((ofString (json.toJson m)).length : Int) ≤ maxBufferBytes) →
      chunks.flatten = NdJsonCodec.encodeAll json messages →
      appendAll (NdJsonCodec.decode json) { framer := { maxBufferBytes } } chunks =
        ({ framer := { maxBufferBytes } }, messages) := by
  have hlines : LineFramer.Fits maxBufferBytes chunks.flatten →
      appendAll LineFramer.append { maxBufferBytes } chunks =
        ({ maxBufferBytes, buffer := LineFramer.unterminated chunks.flatten },
          LineFramer.completeLines chunks.flatten) := fun h =>
    @LineFramer.appendAll_eq maxBufferBytes chunks [] h
  refine ⟨hlines, fun messages hwritten hfits hwire => ?_⟩
  have hstream : LineFramer.Fits maxBufferBytes chunks.flatten := by
    intro hpos line hline
    rw [hwire, NdJsonCodec.splitOn_encodeAll hwritten] at hline
    rcases List.mem_append.mp hline with hline | hline
    · obtain ⟨m, hm, rfl⟩ := List.mem_map.mp hline
      exact hfits hpos m hm
    · obtain rfl := List.mem_singleton.mp hline
      exact Int.le_of_lt hpos
  rw [NdJsonCodec.appendAll_decode, hlines hstream, hwire,
    NdJsonCodec.completeLines_encodeAll hwritten, NdJsonCodec.unterminated_encodeAll hwritten,
    NdJsonCodec.readLine_all hwritten]

/-- The reader and the writer, on an empty message and on one with an id. -/
def idCodec : JsonCodec where
  fromJson line :=
    if line = ascii "\x7b\x7d" then .object []
    else if line = ascii "\x7b\"id\":7\x7d" then .object [("id", .num 7)]
    else .null
  toJson message := if message.isEmpty then "\x7b\x7d" else "\x7b\"id\":7\x7d"

theorem written_empty : Written idCodec [] where
  braced := ⟨⟨[], by decide⟩, by decide⟩
  undone := rfl

theorem written_id : Written idCodec [("id", .num 7)] where
  braced := ⟨⟨"\"id\":7".toList, by decide⟩, by decide⟩
  undone := rfl

/-- The second message is as long as the limit, and both are cut. -/
theorem line_framing_id :
    appendAll (NdJsonCodec.decode idCodec) { framer := { maxBufferBytes := 8 } }
        [ascii "\x7b", ascii "\x7d\n\x7b\"id\":7", [], ascii "\x7d", ascii "\n"] =
      ({ framer := { maxBufferBytes := 8 } }, [[], [("id", .num 7)]]) := by
  refine (line_framing idCodec 8 _).2 _ ?_ ?_ (by decide +kernel)
  · rintro m (_ | ⟨_, _ | ⟨_, h⟩⟩)
    · exact written_empty
    · exact written_id
    · cases h
  · decide +kernel

end Rpc

end LLMQore
