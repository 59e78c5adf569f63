import Mathlib.Data.Rat.Floor
import Mathlib.Data.List.Basic
import LLMQore.Bytes

/-!
# LLMQore.Json

The JSON values the library exchanges (`QJsonValue`, `QJsonObject`).

A number is a finite double or a 64-bit integer, so it denotes a rational. `undefined` is the value
`QJsonObject::value` returns for a missing key; storing it in an object removes
the key. An object is kept sorted by key, as `QJsonObject` keeps it, so equal
objects are equal lists of fields.
-/

namespace LLMQore

/-- A JSON value. -/
inductive JsonValue where
  | undefined
  | null
  | bool (b : Bool)
  | num (d : Rat)
  | str (s : String)
  | arr (xs : List JsonValue)
  | obj (fields : List (String × JsonValue))
  deriving Inhabited

/-- A JSON object: its fields, sorted by key. -/
abbrev JsonObject := List (String × JsonValue)

namespace JsonValue

mutual
/-- Structural equality test. -/
def beq : JsonValue → JsonValue → Bool
  | undefined, undefined => true
  | null, null => true
  | bool a, bool b => a == b
  | num a, num b => a == b
  | str a, str b => a == b
  | arr xs, arr ys => beqList xs ys
  | obj xs, obj ys => beqFields xs ys
  | _, _ => false
def beqList : List JsonValue → List JsonValue → Bool
  | [], [] => true
  | x :: xs, y :: ys => beq x y && beqList xs ys
  | _, _ => false
def beqFields : List (String × JsonValue) → List (String × JsonValue) → Bool
  | [], [] => true
  | (k, x) :: xs, (l, y) :: ys => k == l && beq x y && beqFields xs ys
  | _, _ => false
end

mutual
theorem beq_iff : ∀ a b : JsonValue, beq a b = true ↔ a = b
  | undefined, b => by cases b <;> simp [beq]
  | null, b => by cases b <;> simp [beq]
  | bool _, b => by cases b <;> simp [beq]
  | num _, b => by cases b <;> simp [beq]
  | str _, b => by cases b <;> simp [beq]
  | arr xs, b => by
      cases b with
      | arr ys => simp [beq, beqList_iff xs ys]
      | _ => simp [beq]
  | obj xs, b => by
      cases b with
      | obj ys => simp [beq, beqFields_iff xs ys]
      | _ => simp [beq]
theorem beqList_iff : ∀ xs ys : List JsonValue, beqList xs ys = true ↔ xs = ys
  | [], ys => by cases ys <;> simp [beqList]
  | x :: xs, ys => by
      cases ys with
      | nil => simp [beqList]
      | cons y ys => simp [beqList, beq_iff x y, beqList_iff xs ys]
theorem beqFields_iff : ∀ xs ys : List (String × JsonValue), beqFields xs ys = true ↔ xs = ys
  | [], ys => by cases ys <;> simp [beqFields]
  | (k, x) :: xs, ys => by
      cases ys with
      | nil => simp [beqFields]
      | cons y ys =>
          obtain ⟨l, y⟩ := y
          simp [beqFields, beq_iff x y, beqFields_iff xs ys, and_assoc]
end

instance : DecidableEq JsonValue := fun a b => decidable_of_iff _ (beq_iff a b)

def isNull : JsonValue → Bool
  | null => true
  | _ => false

def isUndefined : JsonValue → Bool
  | undefined => true
  | _ => false

def toString : JsonValue → String
  | str s => s
  | _ => ""

def toObject : JsonValue → JsonObject
  | obj fields => fields
  | _ => []

def toArray : JsonValue → List JsonValue
  | arr xs => xs
  | _ => []

def isObject : JsonValue → Bool
  | obj _ => true
  | _ => false

def isString : JsonValue → Bool
  | str _ => true
  | _ => false

def toBool : JsonValue → Bool
  | bool b => b
  | _ => false

/-- The double next to a natural number: 53 bits, ties to the even one. -/
def nearestDouble (m : Nat) : Nat :=
  let unit := 2 ^ (m.log2 - 52)
  let q := m / unit
  let r := m % unit
  (if unit < 2 * r ∨ (2 * r = unit ∧ q % 2 = 1) then q + 1 else q) * unit

example : nearestDouble (2 ^ 53 + 1) = 2 ^ 53 ∧ nearestDouble (2 ^ 53 + 3) = 2 ^ 53 + 4 := by decide

/-- `QJsonValue::toDouble`. An integer is kept with all of its bits and is rounded here; a number
with a fraction is a double as it is. -/
def toDouble : JsonValue → Rat
  | num d => if d.den = 1 then (d.num.sign * nearestDouble d.num.natAbs : Int) else d
  | _ => 0

/-- `QJsonValue::toInt`: a number that is not an `int` gives the default `0`. -/
def toInt : JsonValue → Int
  | num d => if d.den = 1 ∧ -2 ^ 31 ≤ d.num ∧ d.num < 2 ^ 31 then d.num else 0
  | _ => 0

@[simp] theorem isUndefined_str (s : String) : (str s).isUndefined = false := rfl
@[simp] theorem isUndefined_bool (b : Bool) : (bool b).isUndefined = false := rfl
@[simp] theorem isUndefined_arr (xs : List JsonValue) : (arr xs).isUndefined = false := rfl
@[simp] theorem isUndefined_obj (fields : JsonObject) : (obj fields).isUndefined = false := rfl

@[simp] theorem toString_str (s : String) : (str s).toString = s := rfl
@[simp] theorem toString_undefined : undefined.toString = "" := rfl
@[simp] theorem toObject_obj (fields : JsonObject) : (obj fields).toObject = fields := rfl
@[simp] theorem toObject_undefined : undefined.toObject = [] := rfl
@[simp] theorem toArray_arr (xs : List JsonValue) : (arr xs).toArray = xs := rfl
@[simp] theorem toBool_bool (b : Bool) : (bool b).toBool = b := rfl
@[simp] theorem toBool_undefined : undefined.toBool = false := rfl

end JsonValue

namespace JsonObject

/-- The value of a key, `undefined` where the object has no such key. -/
def value : JsonObject → String → JsonValue
  | [], _ => .undefined
  | (k, v) :: rest, key => if k = key then v else value rest key

def contains (o : JsonObject) (key : String) : Bool := o.any fun f => f.1 == key

/-- Place a field at its sorted position, replacing the value of an equal key. -/
def place (key : String) (v : JsonValue) : JsonObject → JsonObject
  | [] => [(key, v)]
  | (k, w) :: rest =>
      if key < k then (key, v) :: (k, w) :: rest
      else if key = k then (key, v) :: rest
      else (k, w) :: place key v rest

/-- `QJsonObject::insert`: inserting `undefined` removes the key. -/
def insert (o : JsonObject) (key : String) (v : JsonValue) : JsonObject :=
  if v.isUndefined then o.filter fun f => f.1 != key else place key v o

/-- `QJsonObject{{...}, ...}`. -/
def ofFields (fields : List (String × JsonValue)) : JsonObject :=
  fields.foldl (fun o f => o.insert f.1 f.2) []

@[simp] theorem value_nil (key : String) : value [] key = .undefined := rfl

@[simp] theorem contains_nil (key : String) : contains [] key = false := rfl

theorem value_place_self (o : JsonObject) (key : String) (v : JsonValue) :
    (place key v o).value key = v := by
  induction o with
  | nil => simp [place, value]
  | cons f rest ih =>
      obtain ⟨k, w⟩ := f
      rw [place]
      split
      · simp [value]
      · split
        · simp [value]
        · rename_i hne
          simp [value, Ne.symm hne, ih]

theorem value_place_ne (o : JsonObject) {key key' : String} (v : JsonValue)
    (h : key ≠ key') : (place key v o).value key' = o.value key' := by
  induction o with
  | nil => simp [place, value, h]
  | cons f rest ih =>
      obtain ⟨k, w⟩ := f
      rw [place]
      split
      · simp [value, h]
      · split
        · rename_i heq
          subst heq
          simp [value, h]
        · simp [value, ih]

theorem contains_place (o : JsonObject) (key key' : String) (v : JsonValue) :
    (place key v o).contains key' = (key == key' || o.contains key') := by
  induction o with
  | nil => simp [place, contains]
  | cons f rest ih =>
      obtain ⟨k, w⟩ := f
      rw [place]
      split
      · simp [contains]
      · split
        · rename_i heq
          subst heq
          simp [contains]
        · simp only [contains, List.any_cons] at ih ⊢
          rw [ih, Bool.or_left_comm]

/-- A key that an object does not have has no value. -/
theorem value_of_not_contains {o : JsonObject} {key : String} (h : o.contains key = false) :
    o.value key = .undefined := by
  induction o with
  | nil => rfl
  | cons f rest ih =>
      obtain ⟨hf, hrest⟩ : (f.1 == key) = false ∧ contains rest key = false :=
        Bool.or_eq_false_iff.mp h
      obtain ⟨k, v⟩ := f
      rw [value, if_neg (ne_of_beq_false hf), ih hrest]

theorem insert_eq_place (o : JsonObject) (key : String) {v : JsonValue}
    (hv : v.isUndefined = false) : o.insert key v = place key v o := by
  rw [insert, hv, if_neg Bool.false_ne_true]

theorem contains_insert (o : JsonObject) (key key' : String) {v : JsonValue}
    (hv : v.isUndefined = false) :
    (o.insert key v).contains key' = (key == key' || o.contains key') := by
  rw [insert_eq_place o key hv, contains_place]

theorem contains_insert_str (o : JsonObject) (key key' s : String) :
    (o.insert key (.str s)).contains key' = (key == key' || o.contains key') :=
  contains_insert o key key' rfl

theorem value_insert_self (o : JsonObject) (key : String) {v : JsonValue}
    (hv : v.isUndefined = false) : (o.insert key v).value key = v := by
  rw [insert_eq_place o key hv, value_place_self]

@[simp] theorem value_insert_arr (o : JsonObject) (key : String) (xs : List JsonValue) :
    (o.insert key (.arr xs)).value key = .arr xs :=
  value_insert_self o key rfl

@[simp] theorem value_insert_obj (o : JsonObject) (key : String) (fields : JsonObject) :
    (o.insert key (.obj fields)).value key = .obj fields :=
  value_insert_self o key rfl

theorem value_filter_ne (o : JsonObject) {key key' : String} (h : key ≠ key') :
    JsonObject.value (o.filter fun f => f.1 != key) key' = o.value key' := by
  induction o with
  | nil => rfl
  | cons f rest ih =>
      obtain ⟨k, w⟩ := f
      rw [List.filter_cons]
      by_cases hk : k = key
      · subst hk
        simp [value, h, ih]
      · simp [value, hk, ih]

theorem value_insert_ne (o : JsonObject) {key key' : String} (v : JsonValue)
    (h : key ≠ key') : (o.insert key v).value key' = o.value key' := by
  unfold insert
  split
  · exact value_filter_ne o h
  · exact value_place_ne o v h

theorem contains_insert_ne (o : JsonObject) {key key' : String} (v : JsonValue)
    (h : key ≠ key') : (o.insert key v).contains key' = o.contains key' := by
  unfold insert
  split
  · simp only [contains, List.any_filter]
    refine List.any_congr rfl fun f => ?_
    by_cases hk : f.1 = key'
    · simp [hk, Ne.symm h]
    · simp [hk]
  · rw [contains_place]
    simp [h]

theorem contains_foldl_insert (fields : List (String × JsonValue)) (key : String)
    (h : ∀ f ∈ fields, f.2.isUndefined = false) :
    ∀ o : JsonObject, (fields.foldl (fun o f => o.insert f.1 f.2) o).contains key =
      (o.contains key || fields.any fun f => f.1 == key) := by
  induction fields with
  | nil => intro o; simp
  | cons f rest ih =>
      intro o
      have hf := h f List.mem_cons_self
      rw [List.foldl_cons, ih fun g hg => h g (List.mem_cons_of_mem _ hg),
        contains_insert o f.1 key hf, List.any_cons, Bool.or_assoc, Bool.or_left_comm]

/-- An object has the keys it was made with. -/
theorem contains_ofFields {fields : List (String × JsonValue)} (key : String)
    (h : ∀ f ∈ fields, f.2.isUndefined = false) :
    (ofFields fields).contains key = fields.any fun f => f.1 == key := by
  unfold ofFields
  rw [contains_foldl_insert fields key h]
  rfl

/-- `if (!s.isEmpty()) o.insert(key, s)`. -/
def insertText (o : JsonObject) (key : String) (s : String) : JsonObject :=
  if s.isEmpty then o else o.insert key (.str s)

theorem value_insert (o : JsonObject) (key key' : String) {v : JsonValue} (hv : v ≠ .undefined) :
    (o.insert key v).value key' = if key = key' then v else o.value key' := by
  split
  · rename_i h
    rw [← h, value_insert_self o key (by cases v <;> first | rfl | exact absurd rfl hv)]
  · rename_i h
    exact value_insert_ne o v h

@[simp] theorem value_insertText_ne (o : JsonObject) {key key' : String} (s : String)
    (h : key ≠ key') : (o.insertText key s).value key' = o.value key' := by
  unfold insertText
  split
  · rfl
  · exact value_insert_ne o _ h

/-- A text that was left out where it is empty reads as it was. -/
@[simp] theorem toString_value_insertText (o : JsonObject) {key : String} (s : String)
    (h : (o.value key).toString = "") : ((o.insertText key s).value key).toString = s := by
  unfold insertText
  split
  · rename_i he
    rw [h, String.isEmpty_iff.mp he]
  · rw [value_insert_self o key rfl]
    rfl

@[simp] theorem contains_insertText_ne (o : JsonObject) {key key' : String} (s : String)
    (h : key ≠ key') : (o.insertText key s).contains key' = o.contains key' := by
  unfold insertText
  split
  · rfl
  · exact contains_insert_ne o _ h

/-- `QJsonObject::remove`. -/
def remove (o : JsonObject) (key : String) : JsonObject := o.filter fun f => f.1 != key

theorem filter_place (o : JsonObject) {key : String} (v : JsonValue)
    {p : String × JsonValue → Bool} (hp : ∀ w, p (key, w) = false) :
    (place key v o).filter p = o.filter p := by
  induction o with
  | nil => simp [place, hp]
  | cons f rest ih =>
      obtain ⟨k, w⟩ := f
      rw [place]
      split
      · simp [hp]
      · split
        · rename_i heq
          subst heq
          simp [hp]
        · simp only [List.filter_cons, ih]

/-- An insertion changes nothing about the other keys. -/
theorem filter_insert (o : JsonObject) {key : String} (v : JsonValue)
    {p : String × JsonValue → Bool} (hp : ∀ w, p (key, w) = false) :
    (o.insert key v).filter p = o.filter p := by
  unfold insert
  split
  · rw [List.filter_filter]
    refine List.filter_congr fun f _ => ?_
    by_cases hk : f.1 = key
    · obtain ⟨k, w⟩ := f
      subst hk
      simp [hp]
    · simp [hk]
  · exact filter_place o v hp

end JsonObject

/-! ### The values `QJsonValue` has -/

mutual
/-- Every object in the value is sorted by key, and nothing in the value is undefined. -/
def JsonValue.Ordered : JsonValue → Prop
  | .arr xs => OrderedItems xs
  | .obj fields => OrderedFields fields
  | _ => True
def JsonValue.OrderedItems : List JsonValue → Prop
  | [] => True
  | x :: rest => x.isUndefined = false ∧ x.Ordered ∧ OrderedItems rest
def JsonValue.OrderedFields : List (String × JsonValue) → Prop
  | [] => True
  | (key, v) :: rest =>
      (∀ f ∈ rest, key < f.1) ∧ v.isUndefined = false ∧ v.Ordered ∧ OrderedFields rest
end

/-- The object is sorted by key, at every depth. -/
abbrev JsonObject.Ordered (o : JsonObject) : Prop := JsonValue.OrderedFields o

/-- `QJsonDocument`. -/
inductive JsonDocument where
  | null
  | object (o : JsonObject)
  | array (xs : List JsonValue)

/-- `QJsonDocument::object`. -/
def JsonDocument.toObject : JsonDocument → JsonObject
  | .object o => o
  | _ => []

/-- The reader and the writer of JSON texts (`QJsonDocument::fromJson` and `toJson`
in its compact form). Nothing is assumed of them. -/
structure JsonCodec where
  fromJson : Bytes → JsonDocument
  toJson : JsonObject → String

end LLMQore
