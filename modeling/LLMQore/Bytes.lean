import Mathlib.Algebra.Group.Int.Defs
import Mathlib.Algebra.Group.Nat.Defs
import Mathlib.Data.List.Basic

/-!
# LLMQore.Bytes

Byte arrays (`QByteArray`) and what the library reads out of them, and white space
in texts (`QString`).
-/

namespace LLMQore

abbrev Bytes := List UInt8

namespace Bytes

/-- The bytes of a string of ASCII characters. -/
def ascii (s : String) : Bytes := s.toList.map fun c => UInt8.ofNat c.toNat

def lf : UInt8 := 10
def cr : UInt8 := 13
def crlf : Bytes := [cr, lf]
def space : UInt8 := 32
def colon : UInt8 := 58

/-- The byte order mark `QString::fromUtf8` skips at the start. -/
def utf8Bom : Bytes := [0xEF, 0xBB, 0xBF]

/-- The loop of `QString::fromUtf8` over at most `fuel` bytes: a byte at which no
character starts becomes the replacement character. -/
def decodeUtf8 : Nat → Bytes → List Char
  | 0, _ => []
  | _, [] => []
  | fuel + 1, b :: rest =>
      match (ByteArray.mk (b :: rest).toArray).utf8DecodeChar? 0 with
      | some c => c :: decodeUtf8 fuel ((b :: rest).drop c.utf8Size)
      | none => Char.ofNat 0xFFFD :: decodeUtf8 fuel rest

/-- `QString::fromUtf8`. -/
def toUtf8String (bytes : Bytes) : String :=
  let bytes := if utf8Bom.isPrefixOf bytes then bytes.drop 3 else bytes
  String.ofList (decodeUtf8 bytes.length bytes)

/-- The number written in decimal digits. -/
def decimal (digits : Bytes) : Nat := digits.foldl (fun n d => 10 * n + (d.toNat - 48)) 0

/-- White space of `QByteArray::trimmed`. -/
def isSpace (b : UInt8) : Bool := b == space || (9 ≤ b && b ≤ 13)

def trimmed (bytes : Bytes) : Bytes :=
  ((bytes.dropWhile isSpace).reverse.dropWhile isSpace).reverse

/-- A piece does not hold the separator, and no byte the data does not hold. -/
theorem mem_splitOn {sep : UInt8} {data line : Bytes} (h : line ∈ data.splitOn sep)
    {b : UInt8} (hb : b ∈ line) :
    b ∈ data ∧ b ≠ sep := by
  induction data generalizing line with
  | nil =>
      rw [List.splitOn_nil, List.mem_singleton] at h
      subst h
      cases hb
  | cons c rest ih =>
      obtain ⟨first, lines, hsplit⟩ := List.exists_cons_of_ne_nil (List.splitOn_ne_nil sep rest)
      rw [List.splitOn_cons_eq_if_modifyHead] at h
      rw [hsplit] at h ih
      split at h
      · rcases List.mem_cons.mp h with rfl | h
        · cases hb
        · exact (ih h hb).imp_left (List.mem_cons_of_mem c)
      · rename_i hc
        rcases List.mem_cons.mp h with rfl | h
        · rcases List.mem_cons.mp hb with rfl | hb
          · exact ⟨List.mem_cons_self, by simpa using hc⟩
          · exact (ih List.mem_cons_self hb).imp_left (List.mem_cons_of_mem c)
        · exact (ih (List.mem_cons_of_mem _ h) hb).imp_left (List.mem_cons_of_mem c)

/-- The digit of six bits. -/
def base64Digit (n : Nat) : Char :=
  if n < 26 then Char.ofNat (65 + n)
  else if n < 52 then Char.ofNat (97 + (n - 26))
  else if n < 62 then Char.ofNat (48 + (n - 52))
  else if n = 62 then '+' else '/'

def base64Chars : Bytes → List Char
  | [] => []
  | [a] =>
      let n := a.toNat * 16
      [base64Digit (n / 64), base64Digit (n % 64), '=', '=']
  | [a, b] =>
      let n := (a.toNat * 256 + b.toNat) * 4
      [base64Digit (n / 4096), base64Digit (n / 64 % 64), base64Digit (n % 64), '=']
  | a :: b :: c :: rest =>
      let n := (a.toNat * 256 + b.toNat) * 256 + c.toNat
      base64Digit (n / 262144) :: base64Digit (n / 4096 % 64) :: base64Digit (n / 64 % 64) ::
        base64Digit (n % 64) :: base64Chars rest

/-- `QByteArray::toBase64`. -/
def toBase64 (bytes : Bytes) : String := String.ofList (base64Chars bytes)

/-- The value of a base 64 digit. -/
def base64Value (c : Char) : Option Nat :=
  if 'A' ≤ c && c ≤ 'Z' then some (c.toNat - 65)
  else if 'a' ≤ c && c ≤ 'z' then some (c.toNat - 71)
  else if '0' ≤ c && c ≤ '9' then some (c.toNat + 4)
  else if c = '+' then some 62
  else if c = '/' then some 63
  else none

/-- The bytes of base 64 digits, with `nbits` bits of `buffer` left over. -/
def base64Bytes (buffer nbits : Nat) : List Nat → Bytes
  | [] => []
  | d :: rest =>
      let buffer := buffer * 64 + d
      if 8 ≤ nbits + 6 then
        let left := nbits + 6 - 8
        UInt8.ofNat (buffer / 2 ^ left) :: base64Bytes (buffer % 2 ^ left) left rest
      else base64Bytes buffer (nbits + 6) rest

/-- `QByteArray::fromBase64`: what is no digit is skipped. -/
def fromBase64 (s : String) : Bytes := base64Bytes 0 0 (s.toList.filterMap base64Value)

example : fromBase64 (toBase64 (ascii "light")) = ascii "light" := by decide

theorem base64Value_digit {n : Nat} (h : n < 64) : base64Value (base64Digit n) = some n := by
  have hall : ∀ n : Fin 64, base64Value (base64Digit n) = some n.val := by decide
  exact hall ⟨n, h⟩

/-- Two digits are a byte and four bits of the next. -/
theorem base64Bytes_two (d₁ d₂ : Nat) (rest : List Nat) :
    base64Bytes 0 0 (d₁ :: d₂ :: rest) =
      UInt8.ofNat ((d₁ * 64 + d₂) / 16) :: base64Bytes ((d₁ * 64 + d₂) % 16) 4 rest := by
  simp [base64Bytes]

theorem base64Bytes_four (b d : Nat) (rest : List Nat) :
    base64Bytes b 4 (d :: rest) =
      UInt8.ofNat ((b * 64 + d) / 4) :: base64Bytes ((b * 64 + d) % 4) 2 rest := by
  simp [base64Bytes]

theorem base64Bytes_last (b d : Nat) (rest : List Nat) :
    base64Bytes b 2 (d :: rest) = UInt8.ofNat (b * 64 + d) :: base64Bytes 0 0 rest := by
  simp [base64Bytes, Nat.mod_one]

@[simp] theorem fromBase64_toBase64 (bytes : Bytes) : fromBase64 (toBase64 bytes) = bytes := by
  have hbyte : ∀ (a : UInt8) (n : Nat), n = a.toNat → UInt8.ofNat n = a := by
    rintro a n rfl
    exact UInt8.ofNat_toNat
  unfold fromBase64 toBase64
  rw [String.toList_ofList]
  fun_induction base64Chars bytes with
  | case1 => rfl
  | case2 a n =>
      have ha := a.toNat_lt
      rw [List.filterMap_cons_some (base64Value_digit (by omega)),
        List.filterMap_cons_some (base64Value_digit (by omega)),
        base64Bytes_two]
      congr 1
      exact hbyte a _ (by omega)
  | case3 a b n =>
      have ha := a.toNat_lt
      have hb := b.toNat_lt
      rw [List.filterMap_cons_some (base64Value_digit (by omega)),
        List.filterMap_cons_some (base64Value_digit (by omega)),
        List.filterMap_cons_some (base64Value_digit (by omega)),
        base64Bytes_two, base64Bytes_four]
      congr 1
      · exact hbyte a _ (by omega)
      · congr 1
        exact hbyte b _ (by omega)
  | case4 a b c rest n ih =>
      have ha := a.toNat_lt
      have hb := b.toNat_lt
      have hc := c.toNat_lt
      rw [List.filterMap_cons_some (base64Value_digit (by omega)),
        List.filterMap_cons_some (base64Value_digit (by omega)),
        List.filterMap_cons_some (base64Value_digit (by omega)),
        List.filterMap_cons_some (base64Value_digit (by omega)),
        base64Bytes_two, base64Bytes_four, base64Bytes_last, ih]
      congr 1
      · exact hbyte a _ (by omega)
      · congr 1
        · exact hbyte b _ (by omega)
        · congr 1
          exact hbyte c _ (by omega)

/-- `QString::toUtf8`. -/
def ofString (s : String) : Bytes := s.toUTF8.data.toList

/-! ### Decoding what was encoded -/

theorem ofString_eq (s : String) : ofString s = s.toList.flatMap String.utf8EncodeChar := by
  obtain ⟨cs, rfl⟩ : ∃ cs, s = String.ofList cs := ⟨s.toList, by simp⟩
  simp [ofString, List.utf8Encode]

theorem decodeUtf8_char (c : Char) (rest : Bytes) (fuel : Nat) :
    decodeUtf8 (fuel + 1) (String.utf8EncodeChar c ++ rest) = c :: decodeUtf8 fuel rest := by
  obtain ⟨b, bs, hb⟩ := List.exists_cons_of_ne_nil (String.utf8EncodeChar_ne_nil (c := c))
  have hdecode : (ByteArray.mk (String.utf8EncodeChar c ++ rest).toArray).utf8DecodeChar? 0 =
      some c := by
    have hcore := ByteArray.utf8DecodeChar?_utf8EncodeChar_append
      (b := ByteArray.mk rest.toArray) (c := c)
    rw [← hcore]
    congr 1
    apply ByteArray.ext
    simp
  have hdrop : (String.utf8EncodeChar c ++ rest).drop c.utf8Size = rest := by
    rw [← String.length_utf8EncodeChar, List.drop_left]
  rw [hb, List.cons_append] at hdecode hdrop ⊢
  simp only [decodeUtf8, hdecode, hdrop]

theorem decodeUtf8_chars (cs : List Char) :
    ∀ fuel, (cs.flatMap String.utf8EncodeChar).length ≤ fuel →
      decodeUtf8 fuel (cs.flatMap String.utf8EncodeChar) = cs := by
  induction cs with
  | nil =>
      intro fuel _
      cases fuel <;> rfl
  | cons c rest ih =>
      intro fuel h
      have hpos := c.utf8Size_pos
      rw [List.flatMap_cons, List.length_append, String.length_utf8EncodeChar] at h
      obtain ⟨n, rfl⟩ : ∃ n, fuel = n + 1 := Nat.exists_eq_succ_of_ne_zero (by omega)
      rw [List.flatMap_cons, decodeUtf8_char, ih n (by omega)]

/-- Decoding gives the string that was encoded, but for a byte order mark it starts with. -/
theorem toUtf8String_ofString (s : String) :
    toUtf8String (ofString s) =
      if utf8Bom.isPrefixOf (ofString s) then String.ofList s.toList.tail else s := by
  have hdecode : decodeUtf8 (ofString s).length (ofString s) = s.toList := by
    rw [ofString_eq]
    exact decodeUtf8_chars _ _ (Nat.le_refl _)
  unfold toUtf8String
  split
  · rename_i hbom
    obtain ⟨rest, hrest⟩ := List.isPrefixOf_iff_prefix.mp hbom
    -- the mark is one character, so the string is that character and what the rest decodes to
    have hmark : utf8Bom = String.utf8EncodeChar (Char.ofNat 0xFEFF) := by decide
    have hlist : s.toList = Char.ofNat 0xFEFF :: decodeUtf8 (rest.length + 2) rest := by
      rw [← hdecode, ← hrest, hmark, List.length_append, String.length_utf8EncodeChar,
        show (Char.ofNat 0xFEFF).utf8Size = 3 from by decide,
        show 3 + rest.length = rest.length + 2 + 1 from by omega, decodeUtf8_char]
    have hchars : rest = (s.toList.tail).flatMap String.utf8EncodeChar := by
      have henc := ofString_eq s
      rw [← hrest, hmark, hlist, List.flatMap_cons] at henc
      rw [hlist, List.tail_cons]
      exact List.append_cancel_left henc
    rw [← hrest]
    dsimp only
    rw [show (utf8Bom ++ rest).drop 3 = rest from List.drop_left' rfl]
    refine congrArg String.ofList ?_
    conv => lhs; rw [hchars]
    exact decodeUtf8_chars _ _ (Nat.le_refl _)
  · dsimp only
    rw [hdecode, String.ofList_toList]

end Bytes

namespace Text

/-- `QChar::isSpace`. -/
def isSpace (c : Char) : Bool :=
  let n := c.toNat
  n == 0x20 || (9 ≤ n && n ≤ 13) || n == 0x85 || n == 0xA0 || n == 0x1680 ||
    (0x2000 ≤ n && n ≤ 0x200A) || n == 0x2028 || n == 0x2029 || n == 0x202F || n == 0x205F ||
    n == 0x3000

def trimChars (isSpace : Char → Bool) (cs : List Char) : List Char :=
  ((cs.dropWhile isSpace).reverse.dropWhile isSpace).reverse

/-- `QString::trimmed`. -/
def trimmed (s : String) : String := String.ofList (trimChars isSpace s.toList)

end Text

/-- A number can be read back from its decimal digits. -/
theorem natRepr_inj {m n : Nat} (h : m.repr = n.repr) : m = n := by
  have hdigits : Nat.toDigits 10 m = Nat.toDigits 10 n := by
    rw [← Nat.toList_repr, ← Nat.toList_repr, h]
  rw [← Nat.ofDigitChars_toDigits (b := 10) (n := m) (by decide) (by decide), hdigits]
  exact Nat.ofDigitChars_toDigits (by decide) (by decide)

end LLMQore
