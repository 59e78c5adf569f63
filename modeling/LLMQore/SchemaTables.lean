import LLMQore.Mcp.McpTypes
import LLMQore.Acp.AcpTypes

/-!
# LLMQore.SchemaTables

What the declarative codec gives back: of any lawful schema, and of the schemas in the two
tables of the protocols.

A member no schema declares is lost: the capabilities that are only there or not there come
back with `present` set. A field that is always written is not written where it is an optional
without a value, so its default must be to have none, like that of a field that is left out
where it is empty.
-/

namespace LLMQore

open Json

/-- The tables of schemas of both protocols. -/
def messageSchemas : List SchemaEntry := McpTypes.schemas ++ AcpTypes.schemas

/-- The codec of a lawful schema gives back every proper record; so it does for all message
types of both tables. -/
theorem schema_round_trip :
    (∀ (T : Type) (S : Schema T), S.Lawful → ∀ v, S.Proper v → S.fromJson (S.toJson v) = v) ∧
      ∀ e ∈ messageSchemas, ∀ v, e.Proper v → e.schema.fromJson (e.schema.toJson v) = v :=
  ⟨fun _ _ hS _ hv => Schema.fromJson_toJson_of_proper hS hv,
    fun e _ _ hv => e.fromJson_toJson hv⟩

/-- The result of a server that declares a capability with an extra key and an icon. -/
def sampleResult : McpTypes.InitializeResult where
  protocolVersion := "2025-11-25"
  capabilities :=
    { tools := some { listChanged := true }
      extras := [("experimental", .obj [])] }
  serverInfo := { name := "server", icons := [{ src := "icon.svg" }] }

theorem sampleResult_proper : McpTypes.InitializeResult.schema.Proper sampleResult := by
  have hicon : McpTypes.IconInfo.schema.Proper { src := "icon.svg" } :=
    ⟨rfl, by simp [McpTypes.IconInfo.schema, MemberType.Proper],
      by simp [Schema.ExtrasApart, McpTypes.IconInfo.schema]⟩
  have htools : McpTypes.ToolsCapability.schema.Proper { listChanged := true } :=
    ⟨rfl, by simp [McpTypes.ToolsCapability.schema, MemberType.Proper],
      by simp [Schema.ExtrasApart, McpTypes.ToolsCapability.schema]⟩
  have hserver : McpTypes.Implementation.schema.Proper sampleResult.serverInfo := by
    refine ⟨rfl, ?_, by simp [Schema.ExtrasApart, McpTypes.Implementation.schema]⟩
    simpa [McpTypes.Implementation.schema, MemberType.Proper, sampleResult,
      McpTypes.IconInfo.codec, Schema.codec] using hicon
  have hcapabilities : McpTypes.ServerCapabilities.schema.Proper sampleResult.capabilities := by
    refine ⟨rfl, ?_, ?_⟩
    · simpa [McpTypes.ServerCapabilities.schema, MemberType.Proper, sampleResult,
        McpTypes.ToolsCapability.codec, Schema.codec] using htools
    · simp [Schema.ExtrasApart, McpTypes.ServerCapabilities.schema, sampleResult,
        JsonObject.contains]
  refine ⟨rfl, ?_, by simp [Schema.ExtrasApart, McpTypes.InitializeResult.schema]⟩
  simpa [McpTypes.InitializeResult.schema, MemberType.Proper, McpTypes.ServerCapabilities.codec,
    McpTypes.Implementation.codec, Schema.codec] using ⟨hcapabilities, hserver⟩

theorem schema_round_trip_sample :
    McpTypes.InitializeResult.schema.fromJson
        (McpTypes.InitializeResult.schema.toJson sampleResult) = sampleResult ∧
      McpTypes.LoggingCapability.schema.fromJson
        (McpTypes.LoggingCapability.schema.toJson {}) = {} := by
  have hentry : McpTypes.LoggingCapability.entry ∈ messageSchemas :=
    List.mem_of_getElem? (i := 5) rfl
  refine ⟨schema_round_trip.1 _ _ McpTypes.InitializeResult.lawful _ sampleResult_proper,
    schema_round_trip.2 _ hentry {} ⟨rfl, ?_, ?_⟩⟩
  · exact fun _ hf => absurd hf List.not_mem_nil
  · exact fun _ _ _ hf => absurd hf List.not_mem_nil

/-- A record that is one optional, which has a value by default. -/
def defaultedSchema : Schema (Option Int32) where
  blank := some 1
  fields := [field "line" (.optional .int) id fun m _ => m]

/-- A capability that is not present comes back as one that is, and an optional that is always
written, where it has none, with the value it has by default. -/
theorem not_given_back :
    (¬ ∀ e ∈ messageSchemas, ∀ v, (∀ f ∈ e.schema.fields, f.type.Proper (f.get v)) →
      e.schema.ExtrasApart v → e.schema.fromJson (e.schema.toJson v) = v) ∧
    ¬ ∀ (T : Type) (S : Schema T), (S.fields.map (·.name)).Nodup → Independent S.fields →
      (∀ f ∈ S.fields, f.presence ≠ .always → f.EmptyDefault S.blank) →
      ∀ v, S.Proper v → S.fromJson (S.toJson v) = v := by
  constructor
  · intro h
    have hentry : McpTypes.LoggingCapability.entry ∈ messageSchemas :=
      List.mem_of_getElem? (i := 5) rfl
    have hlost := h _ hentry { present := false } (fun _ hf => absurd hf List.not_mem_nil)
      fun _ _ _ hf => absurd hf List.not_mem_nil
    have hpresent := congrArg McpTypes.LoggingCapability.present hlost
    exact absurd hpresent (by decide)
  · intro h
    have hproper : defaultedSchema.Proper none :=
      ⟨rfl, by simp [defaultedSchema, MemberType.Proper],
        by simp [Schema.ExtrasApart, defaultedSchema]⟩
    have hkept := h _ defaultedSchema (by simp [defaultedSchema]) (by simp [defaultedSchema])
      (by simp [defaultedSchema]) none hproper
    exact absurd hkept (by decide)

end LLMQore
