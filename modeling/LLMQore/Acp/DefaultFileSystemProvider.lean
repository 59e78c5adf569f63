import LLMQore.Lines
import LLMQore.Rpc.LineFraming
import LLMQore.Rpc.Session

/-!
# LLMQore.Acp.DefaultFileSystemProvider

The files an agent reads and writes through its client (`DefaultFileSystemProvider.cpp`).

A file is written as it is and read in text mode, and nothing looks at how many of its bytes were
written. The answers of the operating system (whether a file is opened, how much of it is stored)
are arguments.
-/

namespace LLMQore.Acp

open Bytes Lines
open Rpc (Exn)

/-- `lines.mid(pos, length)`. -/
def midLines (lines : List (List Char)) (pos length : Int) : List (List Char) :=
  if length < 0 then lines.drop pos.toNat else (lines.drop pos.toNat).take length.toNat

/-- `sliceLines`. Where there is no limit, the number of the other lines is cut to an `int`. -/
def sliceLines (text : String) (line limit : Option Int) : String :=
  if line.isNone && limit.isNone then text
  else
    let lines := text.toList.splitOn '\n'
    let start : Int := match line with
      | some n => max 0 (n - 1)
      | none => 0
    if lines.length ≤ start then ""
    else
      let count : Int := match limit with
        | some n => max 0 n
        | none => (lines.length - start).bmod (2 ^ 32)
      let count := min count (lines.length - start)
      String.ofList (['\n'].intercalate (midLines lines start count))

/-- What `QFile` gives of the bytes of a file that is opened with `QIODevice::Text`. -/
def readInTextMode (bytes : Bytes) : Bytes := dropBefore cr lf bytes

/-- The bytes of every file. -/
abbrev Disk := String → Bytes

/-- `readTextFile`. A file that is not opened brings the text of its error. -/
def readTextFile (opened : Except String Unit) (disk : Disk) (path : String)
    (line limit : Option Int) : Except Exn String :=
  match opened with
  | .error errorString =>
      .error (.remoteError (-32602) ("Cannot open '" ++ path ++ "': " ++ errorString) .undefined)
  | .ok () => .ok (sliceLines (toUtf8String (readInTextMode (disk path))) line limit)

structure DefaultFileSystemProvider where
  writable : Bool := true

/-- `writeTextFile`, of which `QFile::write` and `close` store `stored` bytes at most. -/
def DefaultFileSystemProvider.writeTextFile (p : DefaultFileSystemProvider)
    (opened : Except String Unit) (stored : Nat) (disk : Disk) (path content : String) :
    Except Exn Unit × Disk :=
  if !p.writable then
    (.error (.remoteError (-32601) "writes disabled" .undefined), disk)
  else
    match opened with
    | .error errorString =>
        (.error (.remoteError (-32602) ("Cannot write '" ++ path ++ "': " ++ errorString)
          .undefined), disk)
    | .ok () => (.ok (), Function.update disk path ((ofString content).take stored))

/-! ## What is read of what was written -/

/-- How the calls of `QFile` turn out. -/
structure FileCalls where
  openForWriting : Except String Unit
  stored : Nat
  openForReading : Except String Unit

/-- A text that was written is read, as a whole and in slices of its lines, and a text that is not
stored as a whole is reported. -/
def DefaultFileSystemProvider.ReturnsWhatWasWritten (p : DefaultFileSystemProvider)
    (calls : FileCalls) (disk : Disk) (path content : String) : Prop :=
  let w := p.writeTextFile calls.openForWriting calls.stored disk path content
  let read := readTextFile calls.openForReading w.2 path
  (w.1 = .ok () →
    read none none = .ok content ∧
      ∀ k : Nat, 1 ≤ k → ∃ slices : List String,
        ((List.range (sliceCount k (content.toList.splitOn '\n').length)).map fun i : Nat =>
          read (some (1 + i * k)) (some k)) = slices.map .ok ∧
        "\n".intercalate slices = content) ∧
    (calls.stored < (ofString content).length → w.1 ≠ .ok ())

theorem sliceLines_slice (text : String) {k i : Nat}
    (hi : i * k < (text.toList.splitOn '\n').length) :
    sliceLines text (some (1 + i * k)) (some k) =
      String.ofList (['\n'].intercalate (((text.toList.splitOn '\n').drop (i * k)).take k)) := by
  have hstart : max 0 ((1 : Int) + i * k - 1) = ((i * k : Nat) : Int) := by
    push_cast
    rw [Int.max_eq_right] <;> nlinarith
  have hlength : ¬(((text.toList.splitOn '\n').length : Int) ≤ ((i * k : Nat) : Int)) := by
    omega
  simp only [sliceLines, Option.isNone_some, Bool.and_self, Bool.false_eq_true, if_false, hstart,
    hlength, midLines]
  generalize text.toList.splitOn '\n' = lines at hi hlength ⊢
  generalize i * k = start at hi hlength ⊢
  have hcount : min (max 0 (k : Int)) (lines.length - start) =
      ((min k (lines.length - start) : Nat) : Int) := by
    omega
  have htake : (lines.drop start).take (min k (lines.length - start)) =
      (lines.drop start).take k := by
    refine List.take_eq_take_iff.mpr ?_
    rw [List.length_drop]
    omega
  rw [hcount, if_neg (by omega), Int.toNat_natCast, Int.toNat_natCast, htake]

/-- The slices of a text, joined, are the text. -/
theorem intercalate_sliceLines (text : String) {k : Nat} (hk : 1 ≤ k) :
    "\n".intercalate ((List.range (sliceCount k (text.toList.splitOn '\n').length)).map fun i : Nat =>
      sliceLines text (some (1 + i * k)) (some k)) = text := by
  have hslices : (List.range (sliceCount k (text.toList.splitOn '\n').length)).map (fun i : Nat =>
      sliceLines text (some (1 + i * k)) (some k)) =
        (slices k (sliceCount k (text.toList.splitOn '\n').length)
          (text.toList.splitOn '\n')).map fun slice => String.ofList (['\n'].intercalate slice) := by
    rw [slices, List.map_map]
    exact List.map_congr_left fun i hi =>
      sliceLines_slice text (lt_of_lt_sliceCount hk (List.mem_range.mp hi))
  refine String.toList_inj.mp ?_
  have htoList : (String.toList ∘ fun slice : List (List Char) =>
      String.ofList (['\n'].intercalate slice)) = ['\n'].intercalate := by
    funext slice
    exact String.toList_ofList
  rw [hslices, String.toList_intercalate, List.map_map, htoList,
    show ("\n" : String).toList = ['\n'] from rfl,
    intercalate_groups _ fun slice hslice => slice_ne_nil hk hslice, flatten_all_slices hk,
    List.intercalate_splitOn]

/-! ### Line ends and marks -/

theorem dropBefore_encode (cs : List Char) :
    dropBefore cr lf (cs.flatMap String.utf8EncodeChar) =
      (dropBefore '\r' '\n' cs).flatMap String.utf8EncodeChar := by
  have hself : ∀ {b : UInt8} {c d : Char}, b.toNat < 128 → d.val.toNat = b.toNat →
      b ∈ String.utf8EncodeChar c → c = d := fun hb hd h =>
    Char.ext (UInt32.toNat_inj.mp ((val_of_mem_utf8EncodeChar hb h).trans hd.symm))
  induction cs with
  | nil => rfl
  | cons c rest ih =>
      rw [List.flatMap_cons]
      by_cases hc : c = '\r'
      · subst hc
        have hhead : (rest.flatMap String.utf8EncodeChar).head? = some lf ↔
            rest.head? = some '\n' := by
          cases rest with
          | nil => simp
          | cons d rest =>
              obtain ⟨b, bs, hb⟩ :=
                List.exists_cons_of_ne_nil (String.utf8EncodeChar_ne_nil (c := d))
              rw [List.flatMap_cons, hb, List.cons_append, List.head?_cons, List.head?_cons,
                Option.some.injEq, Option.some.injEq]
              constructor
              · rintro rfl
                exact hself (by decide) (by decide) (hb ▸ List.mem_cons_self)
              · rintro rfl
                exact (List.cons.inj hb).1.symm
        show dropBefore cr lf (cr :: rest.flatMap String.utf8EncodeChar) = _
        rw [dropBefore, dropBefore]
        simp only [hhead, true_and, ih]
        split
        · rfl
        · rfl
      · have hnot : cr ∉ String.utf8EncodeChar c := fun h =>
          hc (hself (by decide) (by decide) h)
        rw [dropBefore_append cr lf hnot, ih, dropBefore, if_neg fun h => hc h.1,
          List.flatMap_cons]

/-- A text that starts with a byte order mark starts with the letter of that name. -/
theorem utf8Bom_isPrefixOf_iff (s : String) :
    utf8Bom.isPrefixOf (ofString s) = true ↔ s.toList.head? = some (Char.ofNat 0xFEFF) := by
  have hmark : utf8Bom = String.utf8EncodeChar (Char.ofNat 0xFEFF) := by decide
  rw [List.isPrefixOf_iff_prefix]
  constructor
  · rintro ⟨rest, hrest⟩
    have hdecode : decodeUtf8 (ofString s).length (ofString s) = s.toList := by
      rw [ofString_eq]
      exact decodeUtf8_chars _ _ (Nat.le_refl _)
    rw [← hdecode, ← hrest, hmark, List.length_append, String.length_utf8EncodeChar,
      show (Char.ofNat 0xFEFF).utf8Size = 2 + 1 from by decide, Nat.add_right_comm,
      decodeUtf8_char, List.head?_cons]
  · intro h
    obtain ⟨rest, hrest⟩ := List.head?_eq_some_iff.mp h
    rw [ofString_eq, hrest, List.flatMap_cons, hmark]
    exact List.prefix_append _ _

/-- What is read of the bytes of a text: its line ends are translated, and a byte order mark at its
start is skipped. -/
theorem read_eq_iff (content : String) :
    toUtf8String (readInTextMode (ofString content)) = content ↔
      ¬['\r', '\n'] <:+: content.toList ∧ content.toList.head? ≠ some (Char.ofNat 0xFEFF) := by
  have hread : readInTextMode (ofString content) =
      ofString (String.ofList (dropBefore '\r' '\n' content.toList)) := by
    rw [readInTextMode, ofString_eq, dropBefore_encode, ofString_eq, String.toList_ofList]
  rw [hread, toUtf8String_ofString, String.toList_ofList]
  by_cases hsame : dropBefore '\r' '\n' content.toList = content.toList
  · have hbreak := (dropBefore_eq_self_iff '\r' '\n' content.toList).mp hsame
    rw [hsame, String.ofList_toList]
    by_cases hbom : content.toList.head? = some (Char.ofNat 0xFEFF)
    · rw [if_pos ((utf8Bom_isPrefixOf_iff content).mpr hbom)]
      refine iff_of_false (fun heq => ?_) fun h => h.2 hbom
      have hlen := congrArg (fun s : String => s.toList.length) heq
      obtain ⟨rest, hrest⟩ := List.head?_eq_some_iff.mp hbom
      simp [hrest] at hlen
    · rw [if_neg (mt (utf8Bom_isPrefixOf_iff content).mp hbom)]
      exact iff_of_true rfl ⟨hbreak, hbom⟩
  · -- the text that is read is shorter
    have hshorter : (dropBefore '\r' '\n' content.toList).length < content.toList.length :=
      lt_of_le_of_ne (dropBefore_sublist _ _ _).length_le fun h =>
        hsame ((dropBefore_sublist _ _ _).eq_of_length h)
    refine iff_of_false (fun heq => ?_) fun h =>
      hsame ((dropBefore_eq_self_iff _ _ _).mpr h.1)
    have hlen := congrArg (fun s : String => s.toList.length) heq
    split at hlen
    · simp only [String.toList_ofList, List.length_tail] at hlen
      omega
    · simp only [String.toList_ofList] at hlen
      omega

namespace DefaultFileSystemProvider

/-- **Files return what was written** exactly if nothing was written, or if the file can be opened
again, all its bytes were stored, and the text has no line end of two letters and does not start
with a byte order mark. -/
theorem returnsWhatWasWritten_iff (p : DefaultFileSystemProvider) (calls : FileCalls) (disk : Disk)
    (path content : String) :
    p.ReturnsWhatWasWritten calls disk path content ↔
      p.writable = false ∨ calls.openForWriting ≠ .ok () ∨
        calls.openForReading = .ok () ∧ (ofString content).length ≤ calls.stored ∧
          ¬['\r', '\n'] <:+: content.toList ∧
          content.toList.head? ≠ some (Char.ofNat 0xFEFF) := by
  cases hwritable : p.writable with
  | false =>
      exact iff_of_true ⟨fun h => by simp [writeTextFile, hwritable] at h,
        fun _ h => by simp [writeTextFile, hwritable] at h⟩ (.inl rfl)
  | true =>
      cases hopen : calls.openForWriting with
      | error errorString =>
          exact iff_of_true ⟨fun h => by simp [writeTextFile, hwritable, hopen] at h,
            fun _ h => by simp [writeTextFile, hwritable, hopen] at h⟩ (.inr (.inl nofun))
      | ok u =>
          have hwrite : p.writeTextFile (.ok ()) calls.stored disk path content =
              (.ok (), Function.update disk path ((ofString content).take calls.stored)) := by
            simp [writeTextFile, hwritable]
          simp only [ReturnsWhatWasWritten, hopen, hwrite, forall_const]
          by_cases hstored : calls.stored < (ofString content).length
          · refine iff_of_false (fun h => h.2 hstored rfl) fun h => ?_
            rcases h with h | h | h
            · cases h
            · exact h rfl
            · exact absurd hstored (Nat.not_lt.mpr h.2.1)
          · have hall : (ofString content).take calls.stored = ofString content :=
              List.take_of_length_le (Nat.not_lt.mp hstored)
            cases hread : calls.openForReading with
            | error errorString =>
                refine iff_of_false (fun h => ?_) fun h => ?_
                · exact nomatch h.1.1
                · rcases h with h | h | h
                  · cases h
                  · exact h rfl
                  · exact nomatch h.1
            | ok u =>
                have htext : ∀ line limit, readTextFile (.ok ()) (Function.update disk path
                    ((ofString content).take calls.stored)) path line limit =
                      .ok (sliceLines (toUtf8String (readInTextMode (ofString content)))
                        line limit) := fun line limit => by
                  rw [readTextFile, Function.update_self, hall]
                have hwhole : sliceLines (toUtf8String (readInTextMode (ofString content)))
                    none none = toUtf8String (readInTextMode (ofString content)) := rfl
                simp only [htext, hwhole, Except.ok.injEq]
                constructor
                · rintro ⟨⟨hsame, -⟩, -⟩
                  exact .inr (.inr ⟨trivial, Nat.not_lt.mp hstored, (read_eq_iff content).mp hsame⟩)
                · rintro (h | h | ⟨-, -, htwo⟩)
                  · cases h
                  · exact absurd rfl h
                  · have hsame := (read_eq_iff content).mpr htwo
                    refine ⟨⟨hsame, fun k hk => ⟨_, ?_, intercalate_sliceLines content hk⟩⟩,
                      fun h => absurd h hstored⟩
                    rw [hsame, List.map_map]
                    rfl

/-- A text with line ends of two letters is read with others. -/
theorem lineEnds_changed :
    ¬ReturnsWhatWasWritten {} { openForWriting := .ok (), stored := 4, openForReading := .ok () }
      (fun _ => []) "note.txt" "a\r\nb" := by
  intro h
  have hread : toUtf8String (readInTextMode ((ofString "a\r\nb").take 4)) = "a\r\nb" :=
    Except.ok.inj (h.1 rfl).1
  have hall : (ofString "a\r\nb").take 4 = ofString "a\r\nb" := by decide
  rw [hall] at hread
  have hbreak := ((read_eq_iff "a\r\nb").mp hread).1
  exact hbreak ⟨['a'], ['b'], rfl⟩

end DefaultFileSystemProvider

end LLMQore.Acp
