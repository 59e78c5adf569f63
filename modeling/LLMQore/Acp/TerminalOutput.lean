import LLMQore.Acp.DefaultFileSystemProvider
import LLMQore.Acp.TerminalManager
import LLMQore.Tails

/-!
# LLMQore.Acp.TerminalOutput

What `terminalOutput` shows of the output of a process.

The buffer of a terminal is cut after every chunk, and these cuts are one cut of the whole. It is
a cut of bytes: where it falls inside a character, what is left of that character is shown as
replacement characters, and where it falls before a byte order mark, the mark is not shown.
-/

namespace LLMQore.Acp

open AcpTypes Bytes Tails

/-- The bytes of the output that a limit leaves. -/
def keptBytes (limit : Option Nat) (output : Bytes) : Bytes :=
  match limit with
  | none => output
  | some n => output.rtake n

/-- `shown` is the longest end of the text that fits the limit, and `truncated` tells whether it is
shorter than the text. -/
structure ShowsTail (limit : Option Nat) (text shown : String) (truncated : Bool) : Prop where
  tail : shown.toList <:+ text.toList
  fits : ∀ n ∈ limit, (ofString shown).length ≤ n
  longest : ∀ other : String, other.toList <:+ text.toList →
    (∀ n ∈ limit, (ofString other).length ≤ n) → other.toList.length ≤ shown.toList.length
  truncated : truncated = true ↔ shown.toList.length < text.toList.length

/-- What is kept of the text starts where a character does, and not with a byte order mark. -/
def CutBetween (limit : Option Nat) (text : String) : Prop :=
  ∃ kept : String, kept.toList <:+ text.toList ∧
    ofString kept = keptBytes limit (ofString text) ∧
      kept.toList.head? ≠ some (Char.ofNat 0xFEFF)

namespace TerminalManager

variable (m : TerminalManager)

/-- What the process of the terminal `id'` writes, where it is that of `id` and is running. -/
def chunk (id id' : String) (data : Bytes) : Bytes :=
  if id' = id then
    match m.terminals.lookup id' with
    | some t => if t.process = .running then data else []
    | none => []
  else []

/-- The output of the process of a terminal that an event hands over. -/
def delivered (id : String) : TerminalEvent → Bytes
  | .readyReadStandardOutput id' data => m.chunk id id' data
  | .processFinished id' rest _ _ => m.chunk id id' rest
  | _ => []

/-- The output of the process of a terminal that a run hands over. -/
def outputOf (id : String) : TerminalManager → List TerminalEvent → Bytes
  | _, [] => []
  | m, e :: events => m.delivered id e ++ outputOf id (m.step e) events

end TerminalManager

/-! ### The buffer -/

/-- The terminal keeps what its limit leaves of the output. -/
structure Terminal.Buffers (t : Terminal) (limit : Option Nat) (output : Bytes) : Prop where
  limited : 0 < t.byteLimit → limit = some t.byteLimit.toNat
  unlimited : ¬0 < t.byteLimit → limit = none
  kept : t.output = keptBytes limit output
  truncated : t.truncated = true ↔ ∃ n ∈ limit, n < output.length

/-- A chunk is cut with what was kept before, and that is a cut of the whole. -/
theorem Terminal.Buffers.appendOutput {t : Terminal} {limit : Option Nat} {output : Bytes}
    (h : t.Buffers limit output) (data : Bytes) :
    (t.appendOutput data).Buffers limit (output ++ data) := by
  unfold Terminal.appendOutput
  by_cases hempty : data.isEmpty = true
  · rw [if_pos hempty, List.isEmpty_iff.mp hempty, List.append_nil]
    exact h
  rw [if_neg hempty]
  by_cases hlimit : 0 < t.byteLimit
  · obtain rfl := h.limited hlimit
    have hkept : t.output = output.rtake t.byteLimit.toNat := h.kept
    have htruncated : t.truncated = true ↔ t.byteLimit.toNat < output.length := by
      simpa using h.truncated
    have hlength : t.output.length = min t.byteLimit.toNat output.length := by
      rw [hkept, List.rtake, List.length_drop]
      omega
    have hwhole := rtake_rtake_append t.byteLimit.toNat output data
    rw [← hkept] at hwhole
    have hdata := List.length_pos_iff.mpr (mt List.isEmpty_iff.mpr hempty)
    split
    · rename_i hcut
      have hmore : t.byteLimit.toNat < (output ++ data).length := by
        have := hcut.2
        rw [List.length_append, hlength] at this
        rw [List.length_append]
        omega
      exact ⟨h.limited, h.unlimited, hwhole, by simpa using hmore⟩
    · rename_i hcut
      have hfew : (t.output ++ data).length ≤ t.byteLimit.toNat := by omega
      have hfits : (output ++ data).length ≤ t.byteLimit.toNat := by
        rw [List.length_append, hlength] at hfew
        rw [List.length_append]
        omega
      have hall : output.length ≤ t.byteLimit.toNat := by
        rw [List.length_append] at hfits
        omega
      refine ⟨h.limited, h.unlimited, (rtake_of_length_le hfew).symm.trans hwhole, ?_⟩
      show t.truncated = true ↔ _
      rw [htruncated]
      simpa using ⟨fun hlt => absurd hall (by omega), fun hlt => absurd hfits (by simpa using hlt)⟩
  · obtain rfl := h.unlimited hlimit
    rw [if_neg fun hcut => hlimit hcut.1]
    have houtput : t.output = output := h.kept
    exact ⟨h.limited, h.unlimited, congrArg (· ++ data) houtput, by simpa using h.truncated⟩

theorem Terminal.Buffers.finish {t : Terminal} {limit : Option Nat} {output : Bytes}
    (h : t.Buffers limit output) (rest : Bytes) (exitCode : Int32) (normalExit : Bool) :
    (t.finish rest exitCode normalExit).Buffers limit (output ++ rest) := by
  obtain ⟨hlimited, hunlimited, houtput, htruncated⟩ := h.appendOutput rest
  unfold Terminal.finish
  cases normalExit <;> exact ⟨hlimited, hunlimited, houtput, htruncated⟩

/-- Nothing that is kept of the output changes. -/
theorem Terminal.Buffers.of_eq {t t' : Terminal} {limit : Option Nat} {output : Bytes}
    (h : t.Buffers limit output) (hlimit : t'.byteLimit = t.byteLimit)
    (hkept : t'.output = t.output) (htruncated : t'.truncated = t.truncated) :
    t'.Buffers limit output where
  limited := hlimit ▸ h.limited
  unlimited := hlimit ▸ h.unlimited
  kept := hkept.trans h.kept
  truncated := htruncated ▸ h.truncated

/-- The terminal `id` is there, and keeps what its limit leaves of the output. -/
structure Watched (m : TerminalManager) (id : String) (limit : Option Nat) (output : Bytes) :
    Prop where
  named : ∃ n < m.nextId, id = terminalId n
  there : ∃ t, m.terminals.lookup id = some t ∧ t.Buffers limit output

section Watched

variable {m : TerminalManager} {id : String} {limit : Option Nat} {output : Bytes}

theorem Watched.buffers (h : Watched m id limit output) {t : Terminal}
    (hl : m.terminals.lookup id = some t) : t.Buffers limit output := by
  obtain ⟨t', hl', ht⟩ := h.there
  exact Option.some.inj (hl'.symm.trans hl) ▸ ht

/-- A terminal is filed anew. -/
theorem Watched.put (h : Watched m id limit output) {id' : String} {t' : Terminal} {data : Bytes}
    (hself : id' = id → t'.Buffers limit (output ++ data)) (hother : id' ≠ id → data = []) :
    Watched (m.put id' t') id limit (output ++ data) where
  named := h.named
  there := by
    by_cases hid : id' = id
    · exact ⟨t', hid ▸ lookup_put t', hself hid⟩
    · obtain ⟨t, hl, ht⟩ := h.there
      rw [hother hid, List.append_nil]
      exact ⟨t, (AList.lookup_insert_ne (Ne.symm hid)).trans hl, ht⟩

/-- A terminal is filed anew, with the same output. -/
theorem Watched.refile (h : Watched m id limit output) {id' : String} {t t' : Terminal}
    (hl : m.terminals.lookup id' = some t) (hlimit : t'.byteLimit = t.byteLimit)
    (hkept : t'.output = t.output) (htruncated : t'.truncated = t.truncated) :
    Watched (m.put id' t') id limit output := by
  have hput : Watched (m.put id' t') id limit (output ++ []) := by
    refine h.put (fun hid => ?_) fun _ => rfl
    rw [List.append_nil]
    exact (h.buffers (hid ▸ hl)).of_eq hlimit hkept htruncated
  rwa [List.append_nil] at hput

theorem Watched.signal {state : ProcessState} {id' : String} {p : Terminal → TerminalManager}
    (hp : ∀ t, m.terminals.lookup id' = some t → t.process = state → Watched (p t) id limit output)
    (hnot : (∀ t, m.terminals.lookup id' = some t → t.process ≠ state) →
      Watched m id limit output) : Watched (m.signal id' state p) id limit output := by
  unfold TerminalManager.signal
  cases hl : m.terminals.lookup id' with
  | none => exact hnot fun t ht => by simp [hl] at ht
  | some t =>
      dsimp only
      split
      · exact hp t hl ‹_›
      · rename_i hstate
        exact hnot fun t' ht' => Option.some.inj (hl.symm.trans ht') ▸ hstate

/-- The chunk of a process is filed with its terminal. -/
theorem Watched.handOver (h : Watched m id limit output) {id' : String} {data : Bytes}
    {p : Terminal → TerminalManager}
    (hp : ∀ t, ∃ news t', p t = { m with history := news }.put id' t' ∧
      ∀ output, t.Buffers limit output → t'.Buffers limit (output ++ data)) :
    Watched (m.signal id' .running p) id limit (output ++ m.chunk id id' data) := by
  refine Watched.signal (fun t hl hrunning => ?_) fun hnot => ?_
  · obtain ⟨news, t', heq, hbuffers⟩ := hp t
    rw [heq]
    have hold : Watched { m with history := news } id limit output := ⟨h.named, h.there⟩
    refine hold.put (fun hid => ?_) fun hid => by simp [TerminalManager.chunk, hid]
    have hchunk : m.chunk id id' data = data := by
      simp [TerminalManager.chunk, hid, hl, hrunning]
    rw [hchunk]
    exact hbuffers output (h.buffers (hid ▸ hl))
  · have hchunk : m.chunk id id' data = [] := by
      unfold TerminalManager.chunk
      split
      · split
        · exact if_neg (hnot _ ‹_›)
        · rfl
      · rfl
    rw [hchunk, List.append_nil]
    exact h

/-- What one step does to the output that is kept. -/
theorem Watched.step (h : Watched m id limit output) {e : TerminalEvent}
    (hkeeps : e ≠ .releaseTerminal id) :
    Watched (m.step e) id limit (output ++ m.delivered id e) := by
  have hsilent : m.delivered id e = [] → Watched (m.step e) id limit output →
      Watched (m.step e) id limit (output ++ m.delivered id e) := fun hnone hstep => by
    rw [hnone, List.append_nil]
    exact hstep
  cases e with
  | createTerminal params startFails =>
      obtain ⟨t, hl, ht⟩ := h.there
      refine hsilent rfl ⟨?_, t, ?_, ht⟩
      · obtain ⟨n, hn, hid⟩ := h.named
        exact ⟨n, by cases startFails <;> exact Nat.lt_succ_of_lt hn, hid⟩
      · -- the new terminal has another name
        have hne : id ≠ terminalId m.nextId := by
          obtain ⟨n, hn, rfl⟩ := h.named
          intro heq
          have := natRepr_inj ((String.append_right_inj _).mp heq)
          omega
        refine Eq.trans ?_ hl
        cases startFails <;> exact AList.lookup_insert_ne hne
  | waitForExit id' =>
      refine hsilent rfl ?_
      show Watched (m.waitForExit id').1 id limit output
      unfold TerminalManager.waitForExit
      cases hl : m.terminals.lookup id' with
      | none => exact h
      | some t =>
          dsimp only
          split
          · exact h
          · have hwaits : Watched ({ m with nextWaiter := m.nextWaiter + 1 }.observe
                (.waits m.nextWaiter id')) id limit output := ⟨h.named, h.there⟩
            exact hwaits.refile hl rfl rfl rfl
  | killTerminal id' =>
      refine hsilent rfl ?_
      show Watched (m.killTerminal id') id limit output
      unfold TerminalManager.killTerminal
      split
      · exact h
      · split
        · exact h
        · exact ⟨h.named, h.there⟩
  | releaseTerminal id' =>
      refine hsilent rfl ?_
      show Watched (m.releaseTerminal id') id limit output
      unfold TerminalManager.releaseTerminal
      split
      · exact h
      · rw [resolve_eq]
        obtain ⟨t, hl, ht⟩ := h.there
        have hid : id ≠ id' := fun hid => hkeeps (hid ▸ rfl)
        exact ⟨h.named, t, (AList.lookup_erase_ne hid).trans hl, ht⟩
  | processStarted id' =>
      exact hsilent rfl (Watched.signal (fun t hl _ => h.refile hl rfl rfl rfl) fun _ => h)
  | processFailedToStart id' =>
      have hfails : Watched (m.observe (.failedToStart id')) id limit output :=
        ⟨h.named, h.there⟩
      exact hsilent rfl (Watched.signal (fun t hl _ => hfails.refile hl rfl rfl rfl) fun _ => h)
  | readyReadStandardOutput id' data =>
      exact h.handOver fun t => ⟨m.history, _, rfl, fun _ ht => ht.appendOutput data⟩
  | processFinished id' rest exitCode normalExit =>
      refine h.handOver fun t => ?_
      unfold TerminalManager.onFinished
      dsimp only
      rw [resolve_eq]
      exact ⟨_, _, rfl, fun _ ht =>
        (ht.finish rest exitCode normalExit).of_eq rfl rfl rfl⟩

/-- And what a run does to it, however it is cut into chunks. -/
theorem Watched.run (events : List TerminalEvent) (hkeeps : .releaseTerminal id ∉ events) :
    ∀ {m : TerminalManager} {output : Bytes}, Watched m id limit output →
      Watched (events.foldl TerminalManager.step m) id limit
        (output ++ TerminalManager.outputOf id m events) := by
  induction events with
  | nil =>
      intro m output h
      rw [TerminalManager.outputOf, List.append_nil]
      exact h
  | cons e events ih =>
      intro m output h
      rw [TerminalManager.outputOf, ← List.append_assoc]
      exact ih (fun hmem => hkeeps (.tail _ hmem)) (h.step fun heq => hkeeps (heq ▸ .head _))

/-- The limit of a request, where it has one that counts. -/
def outputLimit (params : CreateTerminalParams) : Option Nat :=
  match params.outputByteLimit with
  | some n => if 0 < n.toInt then some n.toInt.toNat else none
  | none => none

theorem buffers_new (params : CreateTerminalParams) (process : ProcessState) :
    Terminal.Buffers
      { process := process, byteLimit := (params.outputByteLimit.map Int32.toInt).getD 0 }
      (outputLimit params) [] := by
  unfold outputLimit
  cases params.outputByteLimit with
  | none => exact ⟨fun h => absurd h (lt_irrefl _), fun _ => rfl, rfl, by simp⟩
  | some n =>
      dsimp only
      split
      · rename_i hn
        exact ⟨fun _ => rfl, fun h => absurd hn h, by simp [keptBytes], by simp⟩
      · rename_i hn
        exact ⟨fun h => absurd h hn, fun _ => rfl, rfl, by simp⟩

theorem watched_createTerminal (m : TerminalManager) (params : CreateTerminalParams)
    (startFails : Bool) :
    Watched (m.createTerminal params startFails).1 (terminalId m.nextId) (outputLimit params)
      [] where
  named := ⟨m.nextId, by cases startFails <;> exact Nat.lt_succ_self _, rfl⟩
  there := by
    refine ⟨_, ?_, buffers_new params (if startFails then .notRunning else .starting)⟩
    cases startFails <;> exact AList.lookup_insert ..

end Watched

/-! ### What is shown -/

/-- A byte with which no character starts is shown as a replacement character. -/
theorem decodeUtf8_stray {b : UInt8} (hb : ¬b.IsUTF8FirstByte) (rest : Bytes) (fuel : Nat) :
    decodeUtf8 (fuel + 1) (b :: rest) = Char.ofNat 0xFFFD :: decodeUtf8 fuel rest := by
  have hnone : (ByteArray.mk (b :: rest).toArray).utf8DecodeChar? 0 = none := by
    by_contra hsome
    have hfirst := Option.isSome_iff_ne_none.mpr hsome
    exact hb (ByteArray.isUTF8FirstByte_of_isSome_utf8DecodeChar? hfirst)
  simp only [decodeUtf8, hnone]

/-- With the bytes of a character but the first no character starts. -/
theorem stray_of_mem_drop {c : Char} {k : Nat} (hk : 0 < k) {b : UInt8}
    (hb : b ∈ (String.utf8EncodeChar c).drop k) : ¬b.IsUTF8FirstByte := by
  obtain ⟨i, hi, rfl⟩ := List.mem_iff_getElem.mp hb
  rw [List.getElem_drop, UInt8.isUTF8FirstByte_getElem_utf8EncodeChar]
  omega

/-- What is left of a character is shown as replacement characters. -/
theorem decodeUtf8_cut {strays : Bytes} (hstrays : ∀ b ∈ strays, ¬b.IsUTF8FirstByte)
    (cs : List Char) :
    decodeUtf8 (strays ++ cs.flatMap String.utf8EncodeChar).length
        (strays ++ cs.flatMap String.utf8EncodeChar) =
      List.replicate strays.length (Char.ofNat 0xFFFD) ++ cs := by
  induction strays with
  | nil => exact decodeUtf8_chars cs _ (Nat.le_refl _)
  | cons b strays ih =>
      rw [List.cons_append, List.length_cons, decodeUtf8_stray (hstrays b List.mem_cons_self),
        ih fun b hb => hstrays b (List.mem_cons_of_mem _ hb)]
      rfl

theorem toUtf8String_cut {c : Char} {k : Nat} (hk : 0 < k)
    (hlength : k < (String.utf8EncodeChar c).length) (cs : List Char) :
    (toUtf8String ((String.utf8EncodeChar c).drop k ++ cs.flatMap String.utf8EncodeChar)).toList =
      List.replicate ((String.utf8EncodeChar c).length - k) (Char.ofNat 0xFFFD) ++ cs := by
  have hstrays : ∀ b ∈ (String.utf8EncodeChar c).drop k, ¬b.IsUTF8FirstByte :=
    fun b hb => stray_of_mem_drop hk hb
  have hbom : utf8Bom.isPrefixOf
      ((String.utf8EncodeChar c).drop k ++ cs.flatMap String.utf8EncodeChar) = false := by
    obtain ⟨b, bs, heq⟩ := List.exists_cons_of_ne_nil (l := (String.utf8EncodeChar c).drop k)
      (by rw [Ne, List.drop_eq_nil_iff]; omega)
    have hb := hstrays b (heq ▸ List.mem_cons_self)
    rw [heq, List.cons_append, utf8Bom, List.isPrefixOf_cons_cons, Bool.and_eq_false_iff]
    left
    rw [beq_eq_false_iff_ne]
    rintro rfl
    exact hb (by decide)
  unfold toUtf8String
  rw [hbom, if_neg Bool.false_ne_true]
  dsimp only
  rw [decodeUtf8_cut hstrays, List.length_drop,
    String.toList_ofList]

section Shown

variable {limit : Option Nat} {text kept : String}

theorem ofString_inj {s t : String} (h : ofString s = ofString t) : s = t := by
  have hdecode : ∀ u : String, decodeUtf8 (ofString u).length (ofString u) = u.toList := fun u => by
    rw [ofString_eq]
    exact decodeUtf8_chars _ _ (Nat.le_refl _)
  exact String.toList_inj.mp (by rw [← hdecode s, ← hdecode t, h])

theorem length_keptBytes (limit : Option Nat) (output : Bytes) :
    (keptBytes limit output).length = min (limit.getD output.length) output.length := by
  cases limit with
  | none => simp [keptBytes]
  | some n =>
      show (output.rtake n).length = min n output.length
      rw [List.rtake, List.length_drop]
      omega

/-- An end of the text fits the limit if it is not longer than what is kept. -/
theorem fits_iff (h : kept.toList <:+ text.toList) :
    (∀ n ∈ limit, (ofString kept).length ≤ n) ↔
      (ofString kept).length ≤ (keptBytes limit (ofString text)).length := by
  have hle : (ofString kept).length ≤ (ofString text).length := by
    rw [ofString_eq, ofString_eq]
    exact length_written_le h
  rw [length_keptBytes]
  cases limit with
  | none => simpa using hle
  | some n => simpa using fun _ => hle

/-- What is kept is the longest end that fits, if it is an end of the text. -/
theorem showsTail_kept (h : kept.toList <:+ text.toList)
    (hkept : ofString kept = keptBytes limit (ofString text)) {truncated : Bool}
    (htruncated : truncated = true ↔ ∃ n ∈ limit, n < (ofString text).length) :
    ShowsTail limit text kept truncated where
  tail := h
  fits := (fits_iff h).mpr (hkept ▸ Nat.le_refl _)
  longest other hother hfits := by
    by_contra hlonger
    have hmore := written_lt_of_length_lt (fun c => String.utf8EncodeChar_ne_nil (c := c)) h hother
      (Nat.not_le.mp hlonger)
    rw [← ofString_eq, ← ofString_eq] at hmore
    have hless := (fits_iff hother).mp hfits
    rw [← hkept] at hless
    omega
  truncated := by
    have hshorter : kept.toList.length < text.toList.length ↔
        (ofString kept).length < (ofString text).length := by
      rw [ofString_eq, ofString_eq]
      exact ⟨written_lt_of_length_lt (fun c => String.utf8EncodeChar_ne_nil (c := c)) h
        (List.suffix_refl _), length_lt_of_written_lt h (List.suffix_refl _)⟩
    rw [htruncated, hshorter, hkept, length_keptBytes]
    cases limit with
    | none => simp
    | some n => simp

/-- Where the cut is inside a character, nothing that is shown is an end of the text. -/
theorem not_cutBetween_inside {x : Char} {tail : List Char} {k : Nat}
    (hcut : x :: tail <:+ text.toList) (hk : 0 < k) (hlength : k < (String.utf8EncodeChar x).length)
    (hkept : keptBytes limit (ofString text) =
      (String.utf8EncodeChar x).drop k ++ tail.flatMap String.utf8EncodeChar) {truncated : Bool} :
    ¬CutBetween limit text ∧
      ¬ShowsTail limit text (toUtf8String (keptBytes limit (ofString text))) truncated := by
  have hsize : (keptBytes limit (ofString text)).length =
      (String.utf8EncodeChar x).length - k + (tail.flatMap String.utf8EncodeChar).length := by
    rw [hkept, List.length_append, List.length_drop]
  have hcons : ((x :: tail).flatMap String.utf8EncodeChar).length =
      (String.utf8EncodeChar x).length + (tail.flatMap String.utf8EncodeChar).length := by
    rw [List.flatMap_cons, List.length_append]
  constructor
  · rintro ⟨kept, hsuffix, heq, -⟩
    -- its length is between those of two ends of which one has but a character more
    rw [← heq, ofString_eq] at hsize
    have hmore : tail.length < kept.toList.length := by
      have htail := (List.suffix_cons x tail).trans hcut
      exact @length_lt_of_written_lt _ _ String.utf8EncodeChar _ _ _ htail hsuffix (by omega)
    have hless : kept.toList.length < (x :: tail).length :=
      @length_lt_of_written_lt _ _ String.utf8EncodeChar _ _ _ hsuffix hcut (by omega)
    rw [List.length_cons] at hless
    omega
  · intro hshows
    have hshown := toUtf8String_cut hk hlength tail
    have htail := hshows.tail
    have hfits := (fits_iff htail).mp hshows.fits
    rw [hkept] at htail
    have hlonger : x :: tail <:+
        (toUtf8String ((String.utf8EncodeChar x).drop k ++
          tail.flatMap String.utf8EncodeChar)).toList := by
      refine List.suffix_of_suffix_length_le hcut htail ?_
      rw [hshown, List.length_append, List.length_replicate, List.length_cons]
      omega
    have hle := @length_written_le _ _ String.utf8EncodeChar _ _ hlonger
    rw [← ofString_eq, ← hkept] at hle
    omega

/-- The longest end that fits is shown if and only if the cut is between two characters, and no byte
order mark is behind it. -/
theorem showsTail_iff (limit : Option Nat) (text : String) {truncated : Bool}
    (htruncated : truncated = true ↔ ∃ n ∈ limit, n < (ofString text).length) :
    ShowsTail limit text (toUtf8String (keptBytes limit (ofString text))) truncated ↔
      CutBetween limit text := by
  have hrtake : keptBytes limit (ofString text) =
      (text.toList.flatMap String.utf8EncodeChar).rtake (limit.getD (ofString text).length) := by
    rw [← ofString_eq]
    cases limit with
    | none => exact (rtake_of_length_le (Nat.le_refl _)).symm
    | some n => rfl
  rcases rtake_written String.utf8EncodeChar (limit.getD (ofString text).length) text.toList with
    ⟨tail, htail, heq⟩ | ⟨x, tail, k, hcut, hk, hlength, heq⟩
  · obtain ⟨kept, rfl⟩ : ∃ kept : String, kept.toList = tail := ⟨_, String.toList_ofList⟩
    have hkept : ofString kept = keptBytes limit (ofString text) := by
      rw [hrtake, heq, ofString_eq]
    rw [← hkept, toUtf8String_ofString]
    have hshows := showsTail_kept htail hkept htruncated
    by_cases hbom : kept.toList.head? = some (Char.ofNat 0xFEFF)
    · rw [if_pos ((utf8Bom_isPrefixOf_iff kept).mpr hbom)]
      refine iff_of_false (fun hshort => ?_) ?_
      · have hle := hshort.longest kept hshows.tail hshows.fits
        obtain ⟨rest, hrest⟩ := List.head?_eq_some_iff.mp hbom
        simp [hrest] at hle
      · rintro ⟨other, -, hother, hnot⟩
        obtain rfl := ofString_inj (hother.trans hkept.symm)
        exact hnot hbom
    · rw [if_neg (mt (utf8Bom_isPrefixOf_iff kept).mp hbom)]
      exact iff_of_true hshows ⟨kept, htail, hkept, hbom⟩
  · obtain ⟨hcutBetween, hshows⟩ := not_cutBetween_inside hcut hk hlength (hrtake.trans heq)
    exact iff_of_false hshows hcutBetween

end Shown

/-- **The output of a terminal.** However the process of a terminal has delivered a text in chunks,
and whatever else has happened but the release of the terminal: what is shown depends on the text
and the limit alone, and it is the longest end of the text that fits, with the truth about its
truncation, if and only if the limit cuts between two characters and no byte order mark is behind
the cut. -/
theorem terminalOutput_iff (before after : List TerminalEvent) (params : CreateTerminalParams)
    (startFails : Bool) (text : String) :
    let created := (TerminalManager.run before).createTerminal params startFails
    let id := created.2.terminalId
    let limit := outputLimit params
    .releaseTerminal id ∉ after →
      TerminalManager.outputOf id created.1 after = ofString text →
        ∃ shown, (after.foldl TerminalManager.step created.1).terminalOutput id = .ok shown ∧
          shown.output = toUtf8String (keptBytes limit (ofString text)) ∧
          (ShowsTail limit text shown.output shown.truncated ↔ CutBetween limit text) := by
  intro created id limit hkeeps htext
  have hwatched : Watched (after.foldl TerminalManager.step created.1) id limit (ofString text) := by
    have hrun := (watched_createTerminal (TerminalManager.run before) params startFails).run after
      hkeeps
    rw [List.nil_append] at hrun
    exact htext ▸ hrun
  obtain ⟨t, hl, hbuffers⟩ := hwatched.there
  refine ⟨{ output := toUtf8String t.output
            truncated := t.truncated
            exitStatus := if t.finished then some ⟨t.exitCode, t.signal⟩ else none }, ?_, ?_⟩
  · unfold TerminalManager.terminalOutput
    rw [hl]
  · dsimp only
    rw [hbuffers.kept]
    exact ⟨rfl, showsTail_iff limit text hbuffers.truncated⟩

/-- A character that comes in two chunks, and a limit of its size. -/
theorem terminalOutput_twoChunks :
    ∃ shown, ([.processStarted "term-1", .readyReadStandardOutput "term-1" [0x61, 0xC3],
        .processFinished "term-1" [0xA9] 0 true].foldl TerminalManager.step
          ((TerminalManager.run []).createTerminal
            { command := "printf", outputByteLimit := some 2 } false).1).terminalOutput "term-1" =
          .ok shown ∧
        shown.output = toUtf8String (keptBytes (some 2) (ofString "aé")) ∧
        (ShowsTail (some 2) "aé" shown.output shown.truncated ↔ CutBetween (some 2) "aé") :=
  terminalOutput_iff [] _ { command := "printf", outputByteLimit := some 2 } false "aé" (by simp)
    (by decide +kernel)

/-- A limit inside the only character of the output. -/
theorem terminalOutput_halfCharacter :
    ¬∃ shown, (TerminalManager.run
        [.createTerminal { command := "printf", outputByteLimit := some 1 } false,
          .processStarted "term-1", .readyReadStandardOutput "term-1" (ofString "é"),
          .processFinished "term-1" [] 0 true]).terminalOutput "term-1" = .ok shown ∧
      ShowsTail (some 1) "é" shown.output shown.truncated := by
  rintro ⟨shown, hshown, htail⟩
  have houtput : shown.output = toUtf8String [0xA9] := by
    have heq := Except.ok.inj hshown
    rw [← heq]
    rfl
  have hsuffix := htail.tail
  rw [houtput] at hsuffix
  exact absurd hsuffix (by decide +kernel)

end LLMQore.Acp
