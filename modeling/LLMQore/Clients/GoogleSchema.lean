import LLMQore.Json

/-!
# LLMQore.Clients.GoogleSchema

How the schema of a tool is written for Gemini (`sanitizeSchemaForGoogle`), and what becomes
of the parameters it declares.

The schema is stripped of keywords Gemini rejects. The names are looked for at every depth,
whether the object at hand is a schema, a map of properties or a literal.
-/

namespace LLMQore

namespace GoogleMessage

def kUnsupported : List String :=
  ["$schema", "$id", "$ref", "$defs", "definitions", "additionalProperties", "patternProperties",
    "unevaluatedProperties", "dependencies", "dependentSchemas", "dependentRequired", "allOf",
    "oneOf", "not", "const"]

mutual
def sanitizeSchemaValueForGoogle : JsonValue → JsonValue
  | .obj schema => .obj (sanitizeFields schema [])
  | .arr items => .arr (sanitizeItems items)
  | .undefined => .undefined
  | .null => .null
  | .bool b => .bool b
  | .num d => .num d
  | .str s => .str s
/-- The loop of `sanitizeSchemaForGoogle`. -/
def sanitizeFields : JsonObject → JsonObject → JsonObject
  | [], result => result
  | (key, value) :: rest, result =>
      if key ∈ kUnsupported then sanitizeFields rest result
      else sanitizeFields rest (result.insert key (sanitizeSchemaValueForGoogle value))
/-- The loop of `sanitizeSchemaValueForGoogle` over an array. -/
def sanitizeItems : List JsonValue → List JsonValue
  | [] => []
  | item :: rest => sanitizeSchemaValueForGoogle item :: sanitizeItems rest
end

def sanitizeSchemaForGoogle (schema : JsonObject) : JsonObject := sanitizeFields schema []

end GoogleMessage

/-! ### Schemas and the parameters they declare -/

/-- The properties a schema declares. -/
def declared (schema : JsonObject) : JsonObject := (schema.value "properties").toObject

/-- A step from an object level of a schema to one below it. -/
inductive SchemaStep where
  | property (name : String)
  | items
  /-- One of the schemas of an array `items`. -/
  | item (index : Nat)

/-- The object level a value is. -/
def levelOf : JsonValue → Option JsonObject
  | .obj schema => some schema
  | _ => none

def SchemaStep.from (schema : JsonObject) : SchemaStep → Option JsonObject
  | .property name => levelOf ((declared schema).value name)
  | .items => levelOf (schema.value "items")
  | .item index => (schema.value "items").toArray[index]?.bind levelOf

mutual
/-- No object in the value has a key that is an unsupported keyword. -/
def NoKeyword : JsonValue → Prop
  | .obj fields => NoKeywordFields fields
  | .arr items => NoKeywordItems items
  | _ => True
def NoKeywordFields : JsonObject → Prop
  | [] => True
  | (key, value) :: rest => key ∉ GoogleMessage.kUnsupported ∧ NoKeyword value ∧ NoKeywordFields rest
def NoKeywordItems : List JsonValue → Prop
  | [] => True
  | item :: rest => NoKeyword item ∧ NoKeywordItems rest
end

section Sanitize

open GoogleMessage

theorem isUndefined_sanitize (v : JsonValue) :
    (sanitizeSchemaValueForGoogle v).isUndefined = v.isUndefined := by
  cases v <;> simp [sanitizeSchemaValueForGoogle, JsonValue.isUndefined]

theorem place_last (o : JsonObject) {key : String} (v : JsonValue) (h : ∀ f ∈ o, f.1 < key) :
    JsonObject.place key v o = o ++ [(key, v)] := by
  induction o with
  | nil => rfl
  | cons f rest ih =>
      obtain ⟨k, w⟩ := f
      have hk : k < key := h (k, w) (.head _)
      rw [JsonObject.place, if_neg (String.lt_asymm hk), if_neg (String.ne_of_lt hk).symm,
        ih fun f hf => h f (.tail _ hf), List.cons_append]

/-- The fields that stay, with their values sanitized. -/
theorem sanitizeFields_eq (schema : JsonObject) (h : schema.Ordered) :
    ∀ result : JsonObject, (∀ f ∈ result, ∀ g ∈ schema, f.1 < g.1) →
      sanitizeFields schema result =
        result ++ (schema.filter (·.1 ∉ kUnsupported)).map
          fun f => (f.1, sanitizeSchemaValueForGoogle f.2) := by
  induction schema with
  | nil => simp [sanitizeFields]
  | cons f rest ih =>
      obtain ⟨key, v⟩ := f
      obtain ⟨hlt, hdefined, -, hrest⟩ := h
      intro result hresult
      have hlater : ∀ f ∈ result, ∀ g ∈ rest, f.1 < g.1 := fun f hf g hg =>
        hresult f hf g (.tail _ hg)
      rw [sanitizeFields]
      split
      · rename_i hkey
        simp [ih hrest result hlater, hkey]
      · rename_i hkey
        have hplace : result.insert key (sanitizeSchemaValueForGoogle v) =
            result ++ [(key, sanitizeSchemaValueForGoogle v)] := by
          rw [JsonObject.insert_eq_place _ _ ((isUndefined_sanitize v).trans hdefined)]
          exact place_last result _ fun f hf => hresult f hf (key, v) (.head _)
        have hnext : ∀ f ∈ result ++ [(key, sanitizeSchemaValueForGoogle v)], ∀ g ∈ rest,
            f.1 < g.1 := by
          intro f hf g hg
          rcases List.mem_append.mp hf with hf | hf
          · exact hlater f hf g hg
          · obtain rfl := List.mem_singleton.mp hf
            exact hlt g hg
        rw [hplace, ih hrest _ hnext]
        simp [hkey]

theorem sanitize_eq {schema : JsonObject} (h : schema.Ordered) :
    sanitizeSchemaForGoogle schema =
      (schema.filter (·.1 ∉ kUnsupported)).map fun f => (f.1, sanitizeSchemaValueForGoogle f.2) :=
  sanitizeFields_eq schema h [] (by simp)

mutual
theorem sanitize_eq_self_iff : ∀ v : JsonValue, v.Ordered →
    (sanitizeSchemaValueForGoogle v = v ↔ NoKeyword v)
  | .obj fields, h => by
      have hfields := sanitizeFields_eq_self_iff fields h
      rw [← sanitize_eq h] at hfields
      exact ⟨fun heq => hfields.mp (JsonValue.obj.inj heq), fun h => congrArg _ (hfields.mpr h)⟩
  | .arr items, h => by
      have hitems := sanitizeItems_eq_self_iff items h
      exact ⟨fun heq => hitems.mp (JsonValue.arr.inj heq), fun h => congrArg _ (hitems.mpr h)⟩
  | .undefined, _ => ⟨fun _ => trivial, fun _ => rfl⟩
  | .null, _ => ⟨fun _ => trivial, fun _ => rfl⟩
  | .bool _, _ => ⟨fun _ => trivial, fun _ => rfl⟩
  | .num _, _ => ⟨fun _ => trivial, fun _ => rfl⟩
  | .str _, _ => ⟨fun _ => trivial, fun _ => rfl⟩
theorem sanitizeFields_eq_self_iff : ∀ fields : JsonObject, fields.Ordered →
    ((fields.filter (·.1 ∉ kUnsupported)).map
        (fun f => (f.1, sanitizeSchemaValueForGoogle f.2)) = fields ↔ NoKeywordFields fields)
  | [], _ => ⟨fun _ => trivial, fun _ => rfl⟩
  | (key, v) :: rest, h => by
      have hv := sanitize_eq_self_iff v h.2.2.1
      have hrest := sanitizeFields_eq_self_iff rest h.2.2.2
      by_cases hkey : key ∈ kUnsupported
      · refine iff_of_false (fun heq => ?_) fun hplain => hplain.1 hkey
        have hlen := congrArg List.length heq
        have hle := List.length_filter_le (fun f : String × JsonValue => f.1 ∉ kUnsupported) rest
        simp [hkey] at hlen hle
        omega
      · rw [List.filter_cons_of_pos (by simpa using hkey), List.map_cons, List.cons.injEq, hrest,
          Prod.mk.injEq, hv]
        simp [hkey, NoKeywordFields]
theorem sanitizeItems_eq_self_iff : ∀ items : List JsonValue, JsonValue.OrderedItems items →
    (sanitizeItems items = items ↔ NoKeywordItems items)
  | [], _ => ⟨fun _ => trivial, fun _ => rfl⟩
  | item :: rest, h => by
      have hitem := sanitize_eq_self_iff item h.2.1
      have hrest := sanitizeItems_eq_self_iff rest h.2.2
      simp [sanitizeItems, NoKeywordItems, hitem, hrest]
end

end Sanitize

end LLMQore
