import LLMQore.Json

/-!
# LLMQore.JsonFields

The declarative codec of records (`JsonFields.hpp`): a record type has a schema, which is a
list of fields, and the codec writes and reads a record field by field.

What the templates of the codec tell apart by the type of a member is told apart here by a
`MemberType`. A member that is itself a record brings its own codec, together with the values
that codec gives back: a nested codec that is written by hand need not give back all of them.
-/

namespace LLMQore

namespace JsonValue

/-- `QJsonValue::toString(defaultValue)`. -/
def toStringD : JsonValue → String → String
  | str s, _ => s
  | _, m => m

/-- `QJsonValue::toBool(defaultValue)`. -/
def toBoolD : JsonValue → Bool → Bool
  | bool b, _ => b
  | _, m => m

/-- `QJsonValue::toDouble(defaultValue)`. -/
def toDoubleD : JsonValue → Rat → Rat
  | num d, _ => d
  | _, m => m

/-- `QJsonValue::toInt(defaultValue)`. -/
def toIntD : JsonValue → Int32 → Int32
  | num d, m => if d.den = 1 ∧ -2 ^ 31 ≤ d.num ∧ d.num < 2 ^ 31 then Int32.ofInt d.num else m
  | _, m => m

end JsonValue

namespace Json

/-- `Presence`. -/
inductive Presence where
  | always | omitWhenEmpty | nullWhenEmpty
  deriving DecidableEq

/-- The codec of a record type, its value-initialized value, and the values the codec is
known to give back. -/
structure WireJson (R : Type) where
  blank : R
  toJson : R → JsonObject
  fromJson : JsonObject → R
  Proper : R → Prop
  fromJson_toJson : ∀ r, Proper r → fromJson (toJson r) = r

/-- A codec that is written by hand: what it gives back is for its user to say. -/
def WireJson.byHand {R : Type} (blank : R) (toJson : R → JsonObject)
    (fromJson : JsonObject → R) : WireJson R where
  blank := blank
  toJson := toJson
  fromJson := fromJson
  Proper r := fromJson (toJson r) = r
  fromJson_toJson _ h := h

/-- The type of a member, as the templates of the codec see it. -/
inductive MemberType : Type 1 where
  | string | bool | int | float | object | stringList
  | record (R : Type) (codec : WireJson R)
  | list (t : MemberType)
  | optional (t : MemberType)

namespace MemberType

@[reducible] def Carrier : MemberType → Type
  | string => String
  | bool => Bool
  | int => Int32
  | float => Rat
  | object => JsonObject
  | stringList => List String
  | record R _ => R
  | list t => List t.Carrier
  | optional t => Option t.Carrier

/-- `M{}`. -/
def blank : (t : MemberType) → t.Carrier
  | string => ""
  | bool => false
  | int => 0
  | float => 0
  | object => []
  | stringList => []
  | record _ codec => codec.blank
  | list _ => []
  | optional _ => none

/-- `IsOptional`. -/
@[simp] def isOptional : MemberType → Bool
  | optional _ => true
  | _ => false

/-- `HasWireJson`. -/
def hasWireJson : MemberType → Bool
  | record _ _ => true
  | _ => false

/-- `isEmptyValue`, and of an optional whether it has no value. -/
@[simp] def isEmptyValue : (t : MemberType) → t.Carrier → Bool
  | string, m => m.isEmpty
  | bool, m => !m
  | object, m => m.isEmpty
  | stringList, m => m.isEmpty
  | list _, m => m.isEmpty
  | optional _, m => m.isNone
  | int, _ => false
  | float, _ => false
  | record _ _, _ => false

/-- `encodeValue`. -/
def encodeValue : (t : MemberType) → t.Carrier → JsonValue
  | optional t, m =>
      match m with
      | some x => t.encodeValue x
      | none => .null
  | stringList, m => .arr (m.map .str)
  | list t, m => .arr (m.map t.encodeValue)
  | record _ codec, m => .obj (codec.toJson m)
  | object, m => .obj m
  | string, m => .str m
  | bool, m => .bool m
  | int, m => .num (m.toInt : Rat)
  | float, m => .num m

/-- `decodeValue`, with the value the member has before. -/
def decodeValue : (t : MemberType) → JsonValue → t.Carrier → t.Carrier
  | optional t, v, m =>
      if v.isNull || v.isUndefined then m
      else if t.hasWireJson && !v.isObject then m
      else some (t.decodeValue v t.blank)
  | stringList, v, _ => v.toArray.map JsonValue.toString
  | list t, v, _ => v.toArray.map fun item => t.decodeValue item t.blank
  | record _ codec, v, _ => codec.fromJson v.toObject
  | object, v, _ => v.toObject
  | string, v, m => v.toStringD m
  | bool, v, m => v.toBoolD m
  | int, v, m => v.toIntD m
  | float, v, m => v.toDoubleD m

end MemberType

/-- `Field`: a name, and a member of `T` given by its reader and its writer. -/
structure Field (T : Type) where
  name : String
  type : MemberType
  get : T → type.Carrier
  set : type.Carrier → T → T
  presence : Presence

section Fields

variable {T : Type}

/-- `field`. -/
@[simp] def field (name : String) (type : MemberType) (get : T → type.Carrier)
    (set : type.Carrier → T → T) : Field T :=
  ⟨name, type, get, set, .always⟩

/-- `omitEmpty`. -/
@[simp] def omitEmpty (name : String) (type : MemberType) (get : T → type.Carrier)
    (set : type.Carrier → T → T) : Field T :=
  ⟨name, type, get, set, .omitWhenEmpty⟩

/-- `nullWhenEmpty`. -/
@[simp] def nullWhenEmpty (name : String) (type : MemberType) (get : T → type.Carrier)
    (set : type.Carrier → T → T) : Field T :=
  ⟨name, type, get, set, .nullWhenEmpty⟩

/-- What `writeField` writes for a member, if anything. -/
def Field.written (f : Field T) (value : T) : Option JsonValue :=
  let m := f.get value
  let empty := f.type.isEmptyValue m
  match f.presence with
  | .omitWhenEmpty => if empty then none else some (f.type.encodeValue m)
  | .nullWhenEmpty => if empty then some .null else some (f.type.encodeValue m)
  | .always => if f.type.isOptional && empty then none else some (f.type.encodeValue m)

/-- `writeField`. -/
def writeField (value : T) (out : JsonObject) (f : Field T) : JsonObject :=
  match f.written value with
  | some v => out.insert f.name v
  | none => out

/-- `readField`. -/
def readField (obj : JsonObject) (value : T) (f : Field T) : T :=
  if obj.contains f.name then f.set (f.type.decodeValue (obj.value f.name) (f.get value)) value
  else value

end Fields

/-- The member of `T` that keeps the keys no field declares. -/
structure ExtrasMember (T : Type) where
  get : T → JsonObject
  set : JsonObject → T → T

/-- `jsonSchema` and `jsonExtras` of a record type, and its value-initialized value. -/
structure Schema (T : Type) where
  blank : T
  fields : List (Field T)
  extras : Option (ExtrasMember T) := none

namespace Schema

variable {T : Type}

/-- The object the fields are written to. -/
def base (S : Schema T) (value : T) : JsonObject :=
  match S.extras with
  | some e => e.get value
  | none => []

/-- `toJson`. -/
def toJson (S : Schema T) (value : T) : JsonObject :=
  S.fields.foldl (writeField value) (S.base value)

/-- `fromJson`. -/
def fromJson (S : Schema T) (obj : JsonObject) : T :=
  let value := S.fields.foldl (readField obj) S.blank
  match S.extras with
  | some e => e.set (S.fields.foldl (fun extras f => extras.remove f.name) obj) value
  | none => value

end Schema

/-! ### Values that are given back -/

namespace MemberType

/-- The member is made of values its codecs give back. An optional in an optional is not
told from an empty one. -/
def Proper : (t : MemberType) → t.Carrier → Prop
  | record _ codec, m => codec.Proper m
  | list t, m => ∀ x ∈ m, t.Proper x
  | optional t, m => ∀ x ∈ m, t.isOptional = false ∧ t.Proper x
  | string, _ => True
  | bool, _ => True
  | int, _ => True
  | float, _ => True
  | object, _ => True
  | stringList, _ => True

/-- What is written is never `undefined`. -/
theorem encodeValue_isUndefined (t : MemberType) (m : t.Carrier) :
    (t.encodeValue m).isUndefined = false := by
  induction t with
  | optional t ih =>
      cases m with
      | none => rfl
      | some x => exact ih x
  | _ => rfl

theorem encodeValue_isNull {t : MemberType} (ht : t.isOptional = false) (m : t.Carrier) :
    (t.encodeValue m).isNull = false := by
  cases t with
  | optional t => simp [isOptional] at ht
  | _ => rfl

theorem encodeValue_isObject {t : MemberType} (ht : t.hasWireJson = true) (m : t.Carrier) :
    (t.encodeValue m).isObject = true := by
  cases t with
  | record R codec => rfl
  | _ => simp [hasWireJson] at ht

/-- An `int` is read as it was written. -/
theorem toIntD_toInt (m d : Int32) : (JsonValue.num (m.toInt : Rat)).toIntD d = m := by
  have hle := Int32.le_toInt m
  have hlt := Int32.toInt_lt m
  have hint : ((m.toInt : Rat)).den = 1 ∧ -2 ^ 31 ≤ ((m.toInt : Rat)).num ∧
      ((m.toInt : Rat)).num < 2 ^ 31 := by
    refine ⟨Rat.den_intCast _, ?_, ?_⟩
    · rw [Rat.num_intCast]; omega
    · rw [Rat.num_intCast]; omega
  unfold JsonValue.toIntD
  dsimp only
  rw [if_pos hint, Rat.num_intCast, Int32.ofInt_toInt]

/-- A member is read as it was written. One that may be empty must be empty before. -/
theorem decodeValue_encodeValue (t : MemberType) (m d : t.Carrier) (hm : t.Proper m)
    (hd : t.isOptional = true → t.isEmptyValue d = true) :
    t.decodeValue (t.encodeValue m) d = m := by
  induction t with
  | string => rfl
  | bool => rfl
  | float => rfl
  | object => rfl
  | int => exact toIntD_toInt m d
  | stringList =>
      have hstr : JsonValue.toString ∘ JsonValue.str = id := rfl
      simp only [encodeValue, decodeValue, JsonValue.toArray_arr, List.map_map, hstr, List.map_id]
  | record R codec => exact codec.fromJson_toJson m hm
  | list t ih =>
      simp only [encodeValue, decodeValue, JsonValue.toArray_arr, List.map_map]
      refine (List.map_congr_left fun x hx => ?_).trans (List.map_id m)
      -- an element is read into a value-initialized one, which is empty where it is optional
      refine ih x t.blank (hm x hx) fun ht => ?_
      cases t with
      | optional t => rfl
      | _ => simp [isOptional] at ht
  | optional t ih =>
      cases m with
      | none =>
          have hnone : d = none := Option.isNone_iff_eq_none.mp (hd rfl)
          rw [hnone]
          rfl
      | some x =>
          obtain ⟨ht, hx⟩ := hm x rfl
          have hnull := encodeValue_isNull ht x
          have hundefined := t.encodeValue_isUndefined x
          have hobject : (t.hasWireJson && !(t.encodeValue x).isObject) = false := by
            cases hw : t.hasWireJson with
            | false => rfl
            | true => rw [encodeValue_isObject hw x]; rfl
          simp only [encodeValue, decodeValue, hnull, hundefined, hobject, Bool.or_self,
            Bool.false_eq_true, if_false]
          rw [ih x t.blank hx fun ht' => by rw [ht] at ht'; exact absurd ht' Bool.false_ne_true]

/-- An empty member is read from `null` as it is. -/
theorem decodeValue_null {t : MemberType} {m : t.Carrier} (hm : t.isEmptyValue m = true) :
    t.decodeValue .null m = m := by
  cases t with
  | string => rfl
  | bool => rfl
  | int => rfl
  | float => rfl
  | object => exact (List.isEmpty_iff.mp hm).symm
  | stringList => exact (List.isEmpty_iff.mp hm).symm
  | record R codec => exact absurd hm Bool.false_ne_true
  | list t => exact (List.isEmpty_iff.mp hm).symm
  | optional t => rfl

end MemberType

/-! ### Schemas -/

section Laws

variable {T : Type}

/-- Where a field is not written, its member is read as the value it has before: that one
must be the empty one. -/
@[simp] def Field.EmptyDefault (f : Field T) (blank : T) : Prop :=
  f.presence ≠ .always ∨ f.type.isOptional = true →
    ∀ m, f.type.isEmptyValue m = true → f.get blank = m

/-- Writing the member of a field leaves the members of the others alone. -/
@[simp] def Untouched (f : Field T) : List (Field T) → Prop
  | [] => True
  | g :: rest => (∀ m v, g.get (f.set m v) = g.get v) ∧ Untouched f rest

/-- The fields are about members of their own. -/
@[simp] def Independent : List (Field T) → Prop
  | [] => True
  | f :: rest =>
      (∀ m v, f.get (f.set m v) = m) ∧ (∀ v, f.set (f.get v) v = v) ∧ Untouched f rest ∧
        Independent rest

/-- A schema names its fields apart, they are about different members, and the members that
may not be written are empty in a record that was not read. -/
structure Schema.Lawful (S : Schema T) : Prop where
  names : (S.fields.map (·.name)).Nodup
  independent : Independent S.fields
  empty : ∀ f ∈ S.fields, f.EmptyDefault S.blank

/-- The record that has the members of `v` the fields are about. -/
def Schema.restore (S : Schema T) (v : T) : T :=
  let value := S.fields.foldl (fun w f => f.set (f.get v) w) S.blank
  match S.extras with
  | some e => e.set (e.get v) value
  | none => value

/-- The extra keys of a record are not names of its fields. -/
def Schema.ExtrasApart (S : Schema T) (v : T) : Prop :=
  ∀ e ∈ S.extras, ∀ f ∈ S.fields, (e.get v).contains f.name = false

/-- All `v` holds is in members the schema declares, the codecs of these give them back, and
the extra keys are not names of fields. -/
structure Schema.Proper (S : Schema T) (v : T) : Prop where
  complete : S.restore v = v
  members : ∀ f ∈ S.fields, f.type.Proper (f.get v)
  extras : S.ExtrasApart v

theorem Field.written_isUndefined {f : Field T} {value : T} {v : JsonValue}
    (h : f.written value = some v) : v.isUndefined = false := by
  have hcode := f.type.encodeValue_isUndefined (f.get value)
  unfold Field.written at h
  dsimp only at h
  split at h
  · split at h
    · exact absurd h (by simp)
    · exact Option.some.inj h ▸ hcode
  · split at h
    · exact Option.some.inj h ▸ rfl
    · exact Option.some.inj h ▸ hcode
  · split at h
    · exact absurd h (by simp)
    · exact Option.some.inj h ▸ hcode

/-- A field that is not written has the value of a record that was not read. -/
theorem Field.get_of_not_written {f : Field T} {value blank : T} (hf : f.EmptyDefault blank)
    (h : f.written value = none) : f.get blank = f.get value := by
  unfold Field.written at h
  dsimp only at h
  split at h
  · rename_i hp
    split at h
    · rename_i he
      exact hf (.inl (by rw [hp]; simp)) _ he
    · exact absurd h (by simp)
  · split at h
    · exact absurd h (by simp)
    · exact absurd h (by simp)
  · split at h
    · rename_i he
      obtain ⟨ho, he⟩ := Bool.and_eq_true_iff.mp he
      exact hf (.inr ho) _ he
    · exact absurd h (by simp)

/-- A field that is written is read as it was written, into a record that was not read. -/
theorem Field.decode_written {f : Field T} {value blank : T} {v : JsonValue}
    (hf : f.EmptyDefault blank) (hm : f.type.Proper (f.get value))
    (h : f.written value = some v) :
    f.type.decodeValue v (f.get blank) = f.get value := by
  have hcode : f.type.decodeValue (f.type.encodeValue (f.get value)) (f.get blank) =
      f.get value := by
    refine f.type.decodeValue_encodeValue _ _ hm fun ho => ?_
    have hempty : ∃ m, f.type.isEmptyValue m = true := by
      obtain ⟨name, type, get, set, presence⟩ := f
      cases type with
      | optional t => exact ⟨none, rfl⟩
      | _ => simp [MemberType.isOptional] at ho
    obtain ⟨m, hm⟩ := hempty
    rw [hf (.inr ho) m hm, hm]
  unfold Field.written at h
  dsimp only at h
  split at h
  · split at h
    · exact absurd h (by simp)
    · exact Option.some.inj h ▸ hcode
  · rename_i hp
    split at h
    · rename_i he
      rw [← Option.some.inj h, hf (.inl (by rw [hp]; simp)) _ he]
      exact f.type.decodeValue_null he
    · exact Option.some.inj h ▸ hcode
  · split at h
    · exact absurd h (by simp)
    · exact Option.some.inj h ▸ hcode

end Laws

/-! ### What is written -/

section Written

variable {T : Type} {v : T} {f : Field T} {fields : List (Field T)} {out : JsonObject}

theorem contains_writeField_ne {key : String} (h : f.name ≠ key) :
    (writeField v out f).contains key = out.contains key := by
  unfold writeField
  split
  · exact JsonObject.contains_insert_ne out _ h
  · rfl

theorem value_writeField_ne {key : String} (h : f.name ≠ key) :
    (writeField v out f).value key = out.value key := by
  unfold writeField
  split
  · exact JsonObject.value_insert_ne out _ h
  · rfl

/-- A key that is no field's is as it was. -/
theorem contains_writeFields_ne {key : String} (h : ∀ f ∈ fields, f.name ≠ key) :
    (fields.foldl (writeField v) out).contains key = out.contains key := by
  induction fields generalizing out with
  | nil => rfl
  | cons f rest ih =>
      have hrest := @ih (writeField v out f) fun g hg => h g (List.mem_cons_of_mem f hg)
      exact hrest.trans (contains_writeField_ne (h f List.mem_cons_self))

theorem value_writeFields_ne {key : String} (h : ∀ f ∈ fields, f.name ≠ key) :
    (fields.foldl (writeField v) out).value key = out.value key := by
  induction fields generalizing out with
  | nil => rfl
  | cons f rest ih =>
      have hrest := @ih (writeField v out f) fun g hg => h g (List.mem_cons_of_mem f hg)
      exact hrest.trans (value_writeField_ne (h f List.mem_cons_self))

/-- The fields of names apart from each other do not disturb what one of them wrote. -/
theorem written_writeFields (hnames : (fields.map (·.name)).Nodup) (hf : f ∈ fields)
    (hout : ∀ g ∈ fields, out.contains g.name = false) :
    match f.written v with
    | some w => (fields.foldl (writeField v) out).contains f.name = true ∧
        (fields.foldl (writeField v) out).value f.name = w
    | none => (fields.foldl (writeField v) out).contains f.name = false := by
  induction fields generalizing out with
  | nil => exact absurd hf List.not_mem_nil
  | cons g rest ih =>
      obtain ⟨hg, hrest⟩ := List.nodup_cons.mp hnames
      have hapart : ∀ f ∈ rest, f.name ≠ g.name := fun f hf he =>
        hg (List.mem_map.mpr ⟨f, hf, he⟩)
      rcases List.mem_cons.mp hf with rfl | hf
      · -- the field itself: what follows leaves its key alone
        rw [List.foldl_cons, contains_writeFields_ne hapart, value_writeFields_ne hapart]
        cases hw : f.written v with
        | none => simp only [writeField, hw]; exact hout f List.mem_cons_self
        | some w =>
            have hdefined := Field.written_isUndefined hw
            simp only [writeField, hw, JsonObject.contains_insert out _ _ hdefined,
              JsonObject.value_insert_self out _ hdefined, beq_self_eq_true, Bool.true_or,
              and_self]
      · refine ih hrest hf fun g' hg' => ?_
        rw [contains_writeField_ne (hapart g' hg').symm]
        exact hout g' (List.mem_cons_of_mem g hg')

/-- Of the extra keys nothing is lost: the keys of the fields are the only new ones. -/
theorem filter_writeField {p : String × JsonValue → Bool} (hp : ∀ w, p (f.name, w) = false) :
    (writeField v out f).filter p = out.filter p := by
  unfold writeField
  split
  · exact JsonObject.filter_insert out _ hp
  · rfl

theorem filter_writeFields {p : String × JsonValue → Bool}
    (hp : ∀ f ∈ fields, ∀ w, p (f.name, w) = false) :
    (fields.foldl (writeField v) out).filter p = out.filter p := by
  induction fields generalizing out with
  | nil => rfl
  | cons f rest ih =>
      exact (ih fun g hg => hp g (List.mem_cons_of_mem f hg)).trans
        (filter_writeField (hp f List.mem_cons_self))

theorem removeFields_eq_filter (obj : JsonObject) :
    fields.foldl (fun extras f => extras.remove f.name) obj =
      obj.filter fun e => fields.all fun f => e.1 != f.name := by
  induction fields generalizing obj with
  | nil => exact (List.filter_eq_self.mpr fun _ _ => rfl).symm
  | cons f rest ih =>
      rw [List.foldl_cons, ih, JsonObject.remove, List.filter_filter]
      refine List.filter_congr fun e _ => ?_
      rw [List.all_cons, Bool.and_comm]

end Written

/-! ### The round trip -/

section RoundTrip

variable {T : Type} {S : Schema T} {v w : T} {fields : List (Field T)}

/-- The members of other fields are as they were. -/
theorem Untouched.get {f g : Field T} (h : Untouched f fields) (hg : g ∈ fields)
    (m : f.type.Carrier) (w : T) : g.get (f.set m w) = g.get w := by
  induction fields with
  | nil => exact absurd hg List.not_mem_nil
  | cons g' rest ih =>
      rcases List.mem_cons.mp hg with rfl | hg
      · exact h.1 m w
      · exact ih h.2 hg

/-- One field of what was written is read. -/
theorem readField_toJson (hS : S.Lawful) (hv : S.Proper v) {f : Field T} (hf : f ∈ S.fields)
    (hset : ∀ v, f.set (f.get v) v = v) (hw : f.get w = f.get S.blank) :
    readField (S.toJson v) w f = f.set (f.get v) w := by
  have hout : ∀ g ∈ S.fields, (S.base v).contains g.name = false := by
    intro g hg
    unfold Schema.base
    cases he : S.extras with
    | none => rfl
    | some e => exact hv.extras e he g hg
  have hwritten := written_writeFields (v := v) hS.names hf hout
  unfold readField Schema.toJson
  cases hc : f.written v with
  | none =>
      rw [hc] at hwritten
      rw [hwritten, if_neg Bool.false_ne_true,
        ← Field.get_of_not_written (hS.empty f hf) hc, ← hw, hset]
  | some x =>
      rw [hc] at hwritten
      rw [hwritten.1, if_pos rfl, hwritten.2, hw,
        Field.decode_written (hS.empty f hf) (hv.members f hf) hc]

/-- The fields are read one after the other, each into a record whose other members were not
read yet or are not its own. -/
theorem readFields_toJson (hS : S.Lawful) (hv : S.Proper v) (hsub : ∀ f ∈ fields, f ∈ S.fields)
    (hind : Independent fields) (hw : ∀ f ∈ fields, f.get w = f.get S.blank) :
    fields.foldl (readField (S.toJson v)) w = fields.foldl (fun w f => f.set (f.get v) w) w := by
  induction fields generalizing w with
  | nil => rfl
  | cons f rest ih =>
      obtain ⟨-, hset, huntouched, hrest⟩ := hind
      rw [List.foldl_cons, List.foldl_cons,
        readField_toJson hS hv (hsub f List.mem_cons_self) hset (hw f List.mem_cons_self)]
      refine ih (fun g hg => hsub g (List.mem_cons_of_mem f hg)) hrest fun g hg => ?_
      rw [huntouched.get hg]
      exact hw g (List.mem_cons_of_mem f hg)

/-- The keys no field declares are the extra ones. -/
theorem extras_toJson (hv : S.Proper v) {e : ExtrasMember T} (he : S.extras = some e) :
    S.fields.foldl (fun extras f => extras.remove f.name) (S.toJson v) = e.get v := by
  have hkeep : ∀ f ∈ S.fields, ∀ w : JsonValue,
      (S.fields.all fun g => ((f.name, w) : String × JsonValue).1 != g.name) = false := by
    intro f hf w
    rw [List.all_eq_false]
    exact ⟨f, hf, by simp⟩
  rw [removeFields_eq_filter, Schema.toJson, filter_writeFields hkeep, Schema.base, he]
  refine List.filter_eq_self.mpr fun x hx => List.all_eq_true.mpr fun f hf => ?_
  have hnot := hv.extras e he f hf
  rw [JsonObject.contains, List.any_eq_false] at hnot
  simpa using hnot x hx

/-- A proper record is read as it was written. -/
theorem Schema.fromJson_toJson_of_proper (hS : S.Lawful) (hv : S.Proper v) :
    S.fromJson (S.toJson v) = v := by
  have hread := readFields_toJson (w := S.blank) hS hv (fun _ hf => hf) hS.independent
    fun _ _ => rfl
  refine Eq.trans ?_ hv.complete
  unfold Schema.fromJson Schema.restore
  rw [hread]
  cases he : S.extras with
  | none => rfl
  | some e => dsimp only; rw [extras_toJson hv he]

/-- The codec of a record type with a lawful schema. -/
def Schema.codec (S : Schema T) (hS : S.Lawful) : WireJson T where
  blank := S.blank
  toJson := S.toJson
  fromJson := S.fromJson
  Proper := S.Proper
  fromJson_toJson _ hv := Schema.fromJson_toJson_of_proper hS hv

end RoundTrip

/-! ### One field of what is read -/

section Read

variable {T : Type} {fields : List (Field T)} {obj : JsonObject}

/-- What is read of one field. -/
theorem get_readField {f : Field T} (hset : ∀ m v, f.get (f.set m v) = m) (w : T) :
    f.get (readField obj w f) =
      if obj.contains f.name then f.type.decodeValue (obj.value f.name) (f.get w) else f.get w := by
  unfold readField
  split
  · exact hset _ _
  · rfl

theorem get_readField_other {f g : Field T} (h : ∀ m v, f.get (g.set m v) = f.get v) (w : T) :
    f.get (readField obj w g) = f.get w := by
  unfold readField
  split
  · exact h _ _
  · rfl

/-- What is read of one field among others that leave its member alone. -/
theorem get_readFields (hind : Independent fields)
    (hapart : fields.Pairwise fun f g => ∀ m v, f.get (g.set m v) = f.get v) {f : Field T}
    (hf : f ∈ fields) (w : T) :
    f.get (fields.foldl (readField obj) w) =
      if obj.contains f.name then f.type.decodeValue (obj.value f.name) (f.get w) else f.get w := by
  have hlater : ∀ {rest : List (Field T)} {w : T},
      (∀ g ∈ rest, ∀ m v, f.get (g.set m v) = f.get v) →
        f.get (rest.foldl (readField obj) w) = f.get w := by
    intro rest
    induction rest with
    | nil => exact fun _ => rfl
    | cons g rest ih =>
        intro w h
        rw [List.foldl_cons, ih fun g' hg' => h g' (List.mem_cons_of_mem g hg')]
        exact get_readField_other (h g List.mem_cons_self) w
  induction fields generalizing w with
  | nil => exact absurd hf List.not_mem_nil
  | cons g rest ih =>
      obtain ⟨hset, -, huntouched, hrest⟩ := hind
      obtain ⟨hfirst, hothers⟩ := List.pairwise_cons.mp hapart
      rw [List.foldl_cons]
      rcases List.mem_cons.mp hf with rfl | hf
      · rw [hlater hfirst]
        exact get_readField hset w
      · rw [ih hrest hothers hf, get_readField_other (huntouched.get hf) w]

end Read

/-- A line of a table of schemas: a record type and its schema, with what a record holds when
the members its schema declares are all of it. -/
structure SchemaEntry where
  Record : Type
  schema : Schema Record
  lawful : schema.Lawful
  Declared : Record → Prop
  restore_eq_iff : ∀ v, schema.restore v = v ↔ Declared v

/-- The line of a record type whose members are all declared. -/
def SchemaEntry.whole {T : Type} (S : Schema T) (hS : S.Lawful) (h : ∀ v, S.restore v = v) :
    SchemaEntry where
  Record := T
  schema := S
  lawful := hS
  Declared _ := True
  restore_eq_iff v := iff_of_true (h v) trivial

/-- What a record of the table has to be to be given back: its undeclared members are as they
are read, its extra keys are not declared, and the records in it are given back by their own
codecs. -/
structure SchemaEntry.Proper (e : SchemaEntry) (v : e.Record) : Prop where
  declared : e.Declared v
  members : ∀ f ∈ e.schema.fields, f.type.Proper (f.get v)
  extras : e.schema.ExtrasApart v

/-- A proper record of the table is read as it was written. -/
theorem SchemaEntry.fromJson_toJson (e : SchemaEntry) {v : e.Record} (hv : e.Proper v) :
    e.schema.fromJson (e.schema.toJson v) = v :=
  Schema.fromJson_toJson_of_proper e.lawful
    ⟨(e.restore_eq_iff v).mpr hv.declared, hv.members, hv.extras⟩

end Json

end LLMQore
