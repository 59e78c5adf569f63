import LLMQore.Bytes

/-!
# LLMQore.PlaceMarkers

The place markers of `QString::arg`: a percent sign and one or two digits, with an `L` between
them where the number is to be in the language of the user. `arg` puts its argument in place of
every marker of the lowest number there is, those that an earlier argument brought included.
-/

namespace LLMQore

namespace Text

/-- The number of a place marker from its first digit on, and how many digits it has. -/
def markerDigits : List Char → Option (Nat × Nat)
  | [] => none
  | c :: rest =>
      if !c.isDigit then none
      else
        match rest.head?.filter Char.isDigit with
        | some d => some (10 * (c.toNat - 48) + (d.toNat - 48), 2)
        | none => some (c.toNat - 48, 1)

/-- The number of a place marker after its percent sign, and how long the rest of it is. -/
def markerAt : List Char → Option (Nat × Nat)
  | [] => none
  | c :: rest =>
      if c = 'L' then (markerDigits rest).map fun (number, length) => (number, length + 1)
      else markerDigits (c :: rest)

inductive ArgPiece where
  | char (c : Char)
  | marker (number : Nat) (text : List Char)
  deriving DecidableEq

/-- The pieces of a text, the first `skip` characters left out. -/
def argPieces : Nat → List Char → List ArgPiece
  | _, [] => []
  | skip + 1, _ :: rest => argPieces skip rest
  | 0, c :: rest =>
      match if c = '%' then markerAt rest else none with
      | some (number, length) => .marker number (c :: rest.take length) :: argPieces length rest
      | none => .char c :: argPieces 0 rest

namespace ArgPiece

def number? : ArgPiece → Option Nat
  | .char _ => none
  | .marker number _ => some number

/-- The text of a piece, where `value` is put in place of the markers of a number. -/
def filled (number : Nat) (value : List Char) : ArgPiece → List Char
  | .char c => [c]
  | .marker n text => if n = number then value else text

end ArgPiece

/-- Put `value` in place of the markers of a number. -/
def fill (number : Nat) (value : List Char) (pieces : List ArgPiece) : List Char :=
  pieces.flatMap (ArgPiece.filled number value)

/-- The numbers of the markers. -/
def markers (pieces : List ArgPiece) : List Nat := pieces.filterMap ArgPiece.number?

/-- `QString::arg`, in the C locale. -/
def arg (s value : String) : String :=
  let pieces := argPieces 0 s.toList
  match (markers pieces).min? with
  | some number => String.ofList (fill number value.toList pieces)
  | none => s

/-! ### Where a text ends before a character that is in no marker -/

section Append

variable {s t : List Char}

theorem markerDigits_append (s t : List Char) :
    markerDigits (s ++ '_' :: t) = markerDigits s := by
  match s with
  | [] => rfl
  | [c] =>
      have hdigit : (some '_').filter Char.isDigit = none := by decide
      simp [markerDigits, hdigit]
  | c :: d :: rest => rfl

theorem markerAt_append (s t : List Char) : markerAt (s ++ '_' :: t) = markerAt s := by
  match s with
  | [] => rfl
  | c :: rest =>
      rw [List.cons_append, markerAt, markerAt, markerDigits_append, ← List.cons_append,
        markerDigits_append]

theorem markerDigits_length {number length : Nat} (h : markerDigits s = some (number, length)) :
    length ≤ s.length := by
  match s with
  | [] => cases h
  | [c] =>
      have hlength : 1 = length := by
        simp only [markerDigits, List.head?_nil, Option.filter_none, Option.ite_none_left_eq_some,
          Option.some.injEq, Prod.mk.injEq] at h
        exact h.2.2
      simp [← hlength]
  | c :: d :: rest =>
      have hlength : length ≤ 2 := by
        simp only [markerDigits, Option.ite_none_left_eq_some] at h
        replace h := h.2
        split at h <;> simp only [Option.some.injEq, Prod.mk.injEq] at h <;> omega
      exact Nat.le_trans hlength (by simp)

theorem markerAt_length {number length : Nat} (h : markerAt s = some (number, length)) :
    length ≤ s.length := by
  match s with
  | [] => cases h
  | c :: rest =>
      rw [markerAt] at h
      split at h
      · obtain ⟨⟨n, l⟩, hdigits, he⟩ := Option.map_eq_some_iff.mp h
        cases he
        simpa using markerDigits_length hdigits
      · exact markerDigits_length h

theorem argPieces_append {skip : Nat} (h : skip ≤ s.length) (t : List Char) :
    argPieces skip (s ++ '_' :: t) = argPieces skip s ++ .char '_' :: argPieces 0 t := by
  induction s generalizing skip with
  | nil =>
      obtain rfl : skip = 0 := Nat.le_zero.mp h
      rfl
  | cons c rest ih =>
      cases skip with
      | succ skip => exact ih (Nat.le_of_succ_le_succ h)
      | zero =>
          have hmarker : (if c = '%' then markerAt (rest ++ '_' :: t) else none) =
              if c = '%' then markerAt rest else none := by
            rw [markerAt_append]
          simp only [List.cons_append, argPieces, hmarker]
          split
          · rename_i number length hsome
            have hlength : length ≤ rest.length := by
              split at hsome
              · exact markerAt_length hsome
              · cases hsome
            rw [ih hlength, List.take_append_of_le_length hlength]
            rfl
          · rw [ih (Nat.zero_le _)]
            rfl

end Append

example : arg (arg "call_%1_%2" "look up") "7" = "call_look up_7" := by decide

end Text

end LLMQore
