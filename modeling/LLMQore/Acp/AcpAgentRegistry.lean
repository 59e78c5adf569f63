import Mathlib.Data.String.Basic
import LLMQore.Keyed
import LLMQore.Acp.AcpTypes

/-!
# LLMQore.Acp.AcpAgentRegistry

The catalogue of agents (`AcpAgentRegistry.cpp`, `AcpAgentConfig.cpp`): the entries, the launch
configuration of each, and the JSON catalogue they are loaded from and saved to.

An entry and its configuration share one object of the catalogue. The configuration is written
without its start-up timeout, which is read.
-/

namespace LLMQore.Acp

open AcpTypes

structure AcpAgentConfig where
  command : String := ""
  args : List String := []
  env : List EnvVariable := []
  cwd : String := ""
  startupTimeoutMs : Int32 := 10000

namespace AcpAgentConfig

/-- The variables `toLaunchConfig` inserts into the system's environment. -/
def environment (c : AcpAgentConfig) : String → Option String :=
  c.env.foldl (fun m e => Function.update m e.name (some e.value)) fun _ => none

/-- The `env` object. -/
def envObject (env : List EnvVariable) : JsonObject :=
  env.foldl (fun e v => e.insert v.name (.str v.value)) []

def toJson (c : AcpAgentConfig) : JsonObject :=
  let o := JsonObject.insert [] "command" (.str c.command)
  let o := o.insert "args" (.arr (c.args.map .str))
  let o := if c.env.isEmpty then o else o.insert "env" (.obj (envObject c.env))
  o.insertText "cwd" c.cwd

/-- The `env` member, in either of its forms. -/
def readEnv : JsonValue → List EnvVariable
  | .arr xs => McpServer.envFromJson xs
  | v => v.toObject.map fun f => { name := f.1, value := f.2.toString }

def fromJson (obj : JsonObject) : AcpAgentConfig where
  command := (obj.value "command").toString
  args := (obj.value "args").toArray.map JsonValue.toString
  env := readEnv (obj.value "env")
  cwd := (obj.value "cwd").toString
  startupTimeoutMs :=
    if obj.contains "startupTimeoutMs" then
      (obj.value "startupTimeoutMs").toIntD 10000
    else 10000

end AcpAgentConfig

structure AcpAgentEntry where
  id : String := ""
  name : String := ""
  description : String := ""
  config : AcpAgentConfig := {}

namespace AcpAgentEntry

def toJson (e : AcpAgentEntry) : JsonObject :=
  let o := e.config.toJson
  let o := o.insert "id" (.str e.id)
  let o := o.insert "name" (.str e.name)
  o.insertText "description" e.description

def fromJson (obj : JsonObject) : AcpAgentEntry :=
  let id := (obj.value "id").toString
  let name := (obj.value "name").toString
  { id
    name := if name.isEmpty then id else name
    description := (obj.value "description").toString
    config := AcpAgentConfig.fromJson obj }

end AcpAgentEntry

structure AcpAgentRegistry where
  entries : List AcpAgentEntry := []

namespace AcpAgentRegistry

def indexOf (r : AcpAgentRegistry) (id : String) : Option Nat :=
  r.entries.findIdx? fun e => e.id == id

def add (r : AcpAgentRegistry) (entry : AcpAgentEntry) : AcpAgentRegistry :=
  if entry.id.isEmpty then r
  else
    match r.indexOf entry.id with
    | some idx => { entries := r.entries.set idx entry }
    | none => { entries := r.entries ++ [entry] }

/-- One turn of `loadFromJson`'s loop. -/
def loadAgent (r : AcpAgentRegistry) (v : JsonValue) : AcpAgentRegistry :=
  if v.isObject then
    let e := AcpAgentEntry.fromJson v.toObject
    if e.id.isEmpty then r else r.add e
  else r

def loadFromJson (r : AcpAgentRegistry) (obj : JsonObject) : AcpAgentRegistry :=
  (obj.value "agents").toArray.foldl loadAgent r

def ids (r : AcpAgentRegistry) : List String := r.entries.map (·.id)

def entry (r : AcpAgentRegistry) (id : String) : Option AcpAgentEntry :=
  (r.indexOf id).bind fun idx => r.entries[idx]?

def toJson (r : AcpAgentRegistry) : JsonObject :=
  JsonObject.ofFields [("agents", .arr (r.entries.map fun e => .obj e.toJson))]

/-- A call that changes a catalogue. -/
inductive Call where
  | add (entry : AcpAgentEntry)
  | loadFromJson (obj : JsonObject)

def call (r : AcpAgentRegistry) : Call → AcpAgentRegistry
  | .add entry => r.add entry
  | .loadFromJson obj => r.loadFromJson obj

/-- The catalogue after the calls. -/
def after (calls : List Call) : AcpAgentRegistry := calls.foldl call {}

end AcpAgentRegistry

/-! ## What a catalogue is for -/

/-- The two configurations launch the agent in the same way. -/
structure AcpAgentConfig.SameLaunch (a b : AcpAgentConfig) : Prop where
  command : a.command = b.command
  args : a.args = b.args
  environment : a.environment = b.environment
  cwd : a.cwd = b.cwd
  startupTimeoutMs : a.startupTimeoutMs = b.startupTimeoutMs

/-- The two entries describe the same agent. -/
structure AcpAgentEntry.Same (a b : AcpAgentEntry) : Prop where
  id : a.id = b.id
  name : a.name = b.name
  description : a.description = b.description
  config : a.config.SameLaunch b.config

namespace AcpAgentRegistry

/-- The two catalogues list the same agents in the same order. -/
def Same (a b : AcpAgentRegistry) : Prop := List.Forall₂ AcpAgentEntry.Same a.entries b.entries

/-- The entries a call gives. -/
def Call.given : Call → List AcpAgentEntry
  | .add entry => [entry].filter fun e => e.id ≠ ""
  | .loadFromJson obj =>
      (((obj.value "agents").toArray.filter JsonValue.isObject).map
        fun v => AcpAgentEntry.fromJson v.toObject).filter fun e => e.id ≠ ""

/-- The entries the calls give, in order. -/
def given (calls : List Call) : List AcpAgentEntry := calls.flatMap Call.given

end AcpAgentRegistry

/-! ## The environment -/

/-- The keys of the object are sorted. -/
def Sorted (o : JsonObject) : Prop := (o.map (·.1)).Pairwise (· < ·)

theorem mem_place {o : JsonObject} {key : String} {v : JsonValue} {f : String × JsonValue}
    (hf : f ∈ JsonObject.place key v o) : f = (key, v) ∨ f ∈ o := by
  induction o with
  | nil => exact .inl (List.mem_singleton.mp hf)
  | cons g rest ih =>
      obtain ⟨k, w⟩ := g
      rw [JsonObject.place] at hf
      split at hf
      · exact List.mem_cons.mp hf
      · split at hf
        · exact (List.mem_cons.mp hf).imp_right (List.mem_cons_of_mem _)
        · rcases List.mem_cons.mp hf with rfl | hf
          · exact .inr List.mem_cons_self
          · exact (ih hf).imp_right (List.mem_cons_of_mem _)

theorem Sorted.place {o : JsonObject} (ho : Sorted o) (key : String) (v : JsonValue) :
    Sorted (JsonObject.place key v o) := by
  induction o with
  | nil => simp [Sorted, JsonObject.place]
  | cons g rest ih =>
      obtain ⟨k, w⟩ := g
      have hhead : ∀ f ∈ rest, k < f.1 := fun f hf =>
        List.rel_of_pairwise_cons ho (List.mem_map_of_mem hf)
      have hrest : Sorted rest := List.Pairwise.of_cons ho
      unfold Sorted
      rw [JsonObject.place]
      split
      · rename_i hlt
        refine List.Pairwise.cons (fun k' hk' => ?_) ho
        obtain rfl | hk' := List.mem_cons.mp hk'
        · exact hlt
        · obtain ⟨f, hf, rfl⟩ := List.mem_map.mp hk'
          exact hlt.trans (hhead f hf)
      · split
        · rename_i heq
          subst heq
          exact ho
        · rename_i hlt hne
          have hk : k < key := lt_of_le_of_ne (not_lt.mp hlt) (Ne.symm hne)
          refine List.Pairwise.cons (fun k' hk' => ?_) (ih hrest)
          obtain ⟨f, hf, rfl⟩ := List.mem_map.mp hk'
          rcases mem_place hf with rfl | hf
          · exact hk
          · exact hhead f hf

namespace AcpAgentConfig

/-- The variable of a name that stands last in a list. -/
theorem environment_eq (env : List EnvVariable) (m : String → Option String) (name : String) :
    env.foldl (fun m (e : EnvVariable) => Function.update m e.name (some e.value)) m name =
      ((env.reverse.find? fun e => e.name == name).map (·.value)).or (m name) := by
  induction env generalizing m with
  | nil => rfl
  | cons e env ih =>
      rw [List.foldl_cons, ih, List.reverse_cons, List.find?_append]
      cases env.reverse.find? fun e => e.name == name with
      | some e' => rfl
      | none =>
          by_cases h : e.name = name
          · simp [h]
          · simp [h, Function.update_of_ne (Ne.symm h)]

/-- An object holds each variable once, with its last value. -/
theorem sorted_envObject (env : List EnvVariable) {o : JsonObject} (ho : Sorted o) :
    Sorted (env.foldl (fun e v => e.insert v.name (.str v.value)) o) := by
  induction env generalizing o with
  | nil => exact ho
  | cons v env ih =>
      rw [List.foldl_cons, JsonObject.insert_eq_place _ _ rfl]
      exact ih (ho.place v.name _)

/-- The variables of an object's fields. -/
def ofFields (o : JsonObject) : List EnvVariable :=
  o.map fun f => { name := f.1, value := f.2.toString }

theorem environment_ofFields {o : JsonObject} (ho : Sorted o) (name : String) :
    (ofFields o).reverse.find? (fun e => e.name == name) =
      if o.contains name then some { name, value := (o.value name).toString } else none := by
  induction o with
  | nil => rfl
  | cons f rest ih =>
      obtain ⟨k, v⟩ := f
      have hhead : ∀ f ∈ rest, k < f.1 := fun f hf =>
        List.rel_of_pairwise_cons ho (List.mem_map_of_mem hf)
      have hrest := ih (List.Pairwise.of_cons ho)
      have hlist : ofFields ((k, v) :: rest) = { name := k, value := v.toString } :: ofFields rest :=
        rfl
      have hcontains : JsonObject.contains ((k, v) :: rest) name =
        (k == name || JsonObject.contains rest name) := rfl
      rw [hlist, List.reverse_cons, List.find?_append, hrest, hcontains, JsonObject.value]
      by_cases hk : k = name
      · have hnew : JsonObject.contains rest name = false := by
          simp only [JsonObject.contains, List.any_eq_false, beq_iff_eq]
          exact fun f hf h => (hhead f hf).ne (hk.trans h.symm)
        simp [hk, hnew]
      · simp [hk, beq_eq_false_iff_ne.mpr hk]

theorem environment_envObject (env : List EnvVariable) (name : String) :
    (if (envObject env).contains name then some ((envObject env).value name).toString else none) =
      (env.reverse.find? fun e => e.name == name).map (·.value) := by
  induction env using List.reverseRecOn with
  | nil => rfl
  | append_singleton env v ih =>
      have hlast : envObject (env ++ [v]) = (envObject env).insert v.name (.str v.value) := by
        simp [envObject]
      rw [hlast, JsonObject.contains_insert_str, JsonObject.value_insert _ _ _ (by simp),
        List.reverse_append, List.reverse_singleton, List.singleton_append, List.find?_cons]
      by_cases h : v.name = name
      · simp [h]
      · simpa [h, beq_eq_false_iff_ne.mpr h] using ih

/-- The variables come back from the object as the environment they make. -/
theorem environment_readEnv (env : List EnvVariable) :
    environment { env := readEnv (if env.isEmpty then .undefined else .obj (envObject env)) } =
      environment { env } := by
  cases env with
  | nil => rfl
  | cons v vs =>
      funext name
      have hsorted : Sorted (envObject (v :: vs)) := sorted_envObject _ List.Pairwise.nil
      rw [List.isEmpty_cons, if_neg Bool.false_ne_true]
      show environment { env := ofFields (envObject (v :: vs)) } name = _
      rw [environment, environment, environment_eq, environment_eq, environment_ofFields hsorted,
        ← environment_envObject]
      split <;> rfl

end AcpAgentConfig

/-! ## What is saved -/

namespace AcpAgentEntry

variable (e : AcpAgentEntry)

/-- The members of the entry itself hide none of its configuration's. -/
theorem value_toJson_ne {key : String} (hid : "id" ≠ key) (hname : "name" ≠ key)
    (hdescription : "description" ≠ key) : e.toJson.value key = e.config.toJson.value key := by
  rw [toJson, JsonObject.value_insertText_ne _ _ hdescription, JsonObject.value_insert_ne _ _ hname,
    JsonObject.value_insert_ne _ _ hid]

theorem value_toJson_command : (e.toJson.value "command").toString = e.config.command := by
  rw [value_toJson_ne e (by decide) (by decide) (by decide), AcpAgentConfig.toJson,
    JsonObject.value_insertText_ne _ _ (by decide)]
  split <;> simp [JsonObject.value_insert]

theorem value_toJson_args : (e.toJson.value "args").toArray = e.config.args.map .str := by
  rw [value_toJson_ne e (by decide) (by decide) (by decide), AcpAgentConfig.toJson,
    JsonObject.value_insertText_ne _ _ (by decide)]
  split <;> simp [JsonObject.value_insert]

theorem value_toJson_env : e.toJson.value "env" =
    if e.config.env.isEmpty then .undefined else .obj (AcpAgentConfig.envObject e.config.env) := by
  rw [value_toJson_ne e (by decide) (by decide) (by decide), AcpAgentConfig.toJson,
    JsonObject.value_insertText_ne _ _ (by decide)]
  split <;> simp [JsonObject.value_insert]

theorem value_toJson_cwd : (e.toJson.value "cwd").toString = e.config.cwd := by
  rw [value_toJson_ne e (by decide) (by decide) (by decide), AcpAgentConfig.toJson]
  refine JsonObject.toString_value_insertText _ _ ?_
  split <;> simp [JsonObject.value_insert]

/-- The start-up timeout is not saved. -/
theorem contains_toJson_startupTimeoutMs : e.toJson.contains "startupTimeoutMs" = false := by
  rw [toJson, JsonObject.contains_insertText_ne _ _ (by decide),
    JsonObject.contains_insert_ne _ _ (by decide), JsonObject.contains_insert_ne _ _ (by decide),
    AcpAgentConfig.toJson, JsonObject.contains_insertText_ne _ _ (by decide)]
  split
  · rw [JsonObject.contains_insert_ne _ _ (by decide),
      JsonObject.contains_insert_ne _ _ (by decide), JsonObject.contains_nil]
  · rw [JsonObject.contains_insert_ne _ _ (by decide),
      JsonObject.contains_insert_ne _ _ (by decide),
      JsonObject.contains_insert_ne _ _ (by decide), JsonObject.contains_nil]

/-- What is read of a saved entry. -/
theorem fromJson_toJson : fromJson e.toJson =
    { e with
      name := if e.name.isEmpty then e.id else e.name
      config := { e.config with
        env := AcpAgentConfig.readEnv
          (if e.config.env.isEmpty then .undefined
            else .obj (AcpAgentConfig.envObject e.config.env))
        startupTimeoutMs := 10000 } } := by
  have hid : (e.toJson.value "id").toString = e.id := by
    rw [toJson, JsonObject.value_insertText_ne _ _ (by decide)]
    simp [JsonObject.value_insert]
  have hname : (e.toJson.value "name").toString = e.name := by
    rw [toJson, JsonObject.value_insertText_ne _ _ (by decide)]
    simp [JsonObject.value_insert]
  have hdescription : (e.toJson.value "description").toString = e.description := by
    rw [toJson]
    refine JsonObject.toString_value_insertText _ _ ?_
    rw [JsonObject.value_insert_ne _ _ (by decide), JsonObject.value_insert_ne _ _ (by decide),
      AcpAgentConfig.toJson, JsonObject.value_insertText_ne _ _ (by decide)]
    split <;> simp [JsonObject.value_insert]
  have hargs : (JsonValue.toString ∘ JsonValue.str : String → String) = fun s => s := rfl
  simp only [fromJson, AcpAgentConfig.fromJson, hid, hname, hdescription, value_toJson_command,
    value_toJson_args, value_toJson_env, value_toJson_cwd, contains_toJson_startupTimeoutMs,
    List.map_map, hargs, List.map_id', Bool.false_eq_true, if_false]

/-- An entry with a name is read back as the same agent if its start-up timeout is the one every
configuration starts with. -/
theorem same_fromJson_toJson (hname : e.name ≠ "") :
    (fromJson e.toJson).Same e ↔ e.config.startupTimeoutMs = 10000 := by
  rw [fromJson_toJson, if_neg (mt String.isEmpty_iff.mp hname)]
  constructor
  · exact fun h => h.config.startupTimeoutMs.symm
  · intro h
    exact ⟨rfl, rfl, rfl, rfl, rfl, AcpAgentConfig.environment_readEnv _, rfl, h.symm⟩

end AcpAgentEntry

/-! ## The histories of a catalogue -/

namespace AcpAgentRegistry

theorem entries_add (r : AcpAgentRegistry) {entry : AcpAgentEntry} (hid : entry.id ≠ "") :
    (r.add entry).entries = Keyed.put (·.id) entry r.entries := by
  rw [add, if_neg (mt String.isEmpty_iff.mp hid)]
  cases hidx : r.indexOf entry.id with
  | some idx => exact (Keyed.put_of_idx _ hidx).symm
  | none =>
      refine (Keyed.put_of_new _ fun hmem => ?_).symm
      obtain ⟨e, he, hsame⟩ := List.mem_map.mp hmem
      simpa [hsame] using List.findIdx?_eq_none_iff.mp hidx e he

theorem entries_loadAgents (xs : List JsonValue) (r : AcpAgentRegistry) :
    (xs.foldl loadAgent r).entries =
      Keyed.puts (·.id) (((xs.filter JsonValue.isObject).map
        fun v => AcpAgentEntry.fromJson v.toObject).filter fun e => e.id ≠ "") r.entries := by
  induction xs generalizing r with
  | nil => rfl
  | cons v xs ih =>
      rw [List.foldl_cons, ih, loadAgent]
      by_cases hv : v.isObject = true
      · by_cases hid : (AcpAgentEntry.fromJson v.toObject).id = ""
        · simp [hv, hid]
        · simp [hv, hid, entries_add]
      · simp [hv]

theorem entries_call (r : AcpAgentRegistry) (c : Call) :
    (r.call c).entries = Keyed.puts (·.id) c.given r.entries := by
  cases c with
  | add entry =>
      by_cases hid : entry.id = ""
      · simp [call, Call.given, add, hid]
      · simp [call, Call.given, hid, entries_add]
  | loadFromJson obj => exact entries_loadAgents _ r

/-- The catalogue holds what the calls gave, each entry in the place of its id. -/
theorem entries_after (calls : List Call) :
    (after calls).entries = Keyed.puts (·.id) (given calls) [] := by
  induction calls using List.reverseRecOn with
  | nil => rfl
  | append_singleton calls c ih =>
      have hlast : after (calls ++ [c]) = (after calls).call c := by simp [after]
      have hgiven : given (calls ++ [c]) = given calls ++ c.given := by simp [given]
      rw [hlast, entries_call, ih, hgiven, Keyed.puts_append]

theorem given_id {calls : List Call} {e : AcpAgentEntry} (he : e ∈ given calls) : e.id ≠ "" := by
  obtain ⟨c, -, hc⟩ := List.mem_flatMap.mp he
  cases c with
  | add entry => simpa using (List.mem_filter.mp hc).2
  | loadFromJson obj => simpa using (List.mem_filter.mp hc).2

theorem entry_eq (r : AcpAgentRegistry) (id : String) :
    r.entry id = r.entries.find? fun e => e.id == id :=
  List.find?_eq_bind_findIdx?_getElem?.symm

/-- A saved catalogue with distinct ids is read entry by entry. -/
theorem entries_reload {r : AcpAgentRegistry} (hids : r.ids.Nodup) (hnamed : "" ∉ r.ids) :
    (({} : AcpAgentRegistry).loadFromJson r.toJson).entries =
      r.entries.map fun e => AcpAgentEntry.fromJson e.toJson := by
  have hagents : (r.toJson.value "agents").toArray =
      r.entries.map fun e => JsonValue.obj e.toJson := by
    simp [toJson, JsonObject.ofFields]
  have hread : ∀ e : AcpAgentEntry, (AcpAgentEntry.fromJson e.toJson).id = e.id := fun e => by
    rw [AcpAgentEntry.fromJson_toJson]
  have hloaded : (((r.entries.map fun e => JsonValue.obj e.toJson).filter JsonValue.isObject).map
      fun v => AcpAgentEntry.fromJson v.toObject) =
        r.entries.map fun e => AcpAgentEntry.fromJson e.toJson := by
    rw [List.filter_eq_self.mpr fun v hv => ?_, List.map_map]
    · rfl
    · obtain ⟨e, -, rfl⟩ := List.mem_map.mp hv
      rfl
  have hfilter : ((r.entries.map fun e => AcpAgentEntry.fromJson e.toJson).filter
      fun e => e.id ≠ "") = r.entries.map fun e => AcpAgentEntry.fromJson e.toJson := by
    refine List.filter_eq_self.mpr fun e he => ?_
    obtain ⟨e, he', rfl⟩ := List.mem_map.mp he
    rw [hread]
    exact decide_eq_true fun h => hnamed (h ▸ List.mem_map_of_mem he')
  rw [loadFromJson, hagents, entries_loadAgents, hloaded, hfilter]
  refine Keyed.puts_of_nodup _ ?_
  rw [List.map_map]
  exact (List.map_congr_left fun e _ => hread e) ▸ hids

theorem same_reload {r : AcpAgentRegistry} (hids : r.ids.Nodup) (hnamed : "" ∉ r.ids)
    (hnames : ∀ e ∈ r.entries, e.name ≠ "") :
    (({} : AcpAgentRegistry).loadFromJson r.toJson).Same r ↔
      ∀ e ∈ r.entries, e.config.startupTimeoutMs = 10000 := by
  rw [Same, entries_reload hids hnamed, List.forall₂_map_left_iff, List.forall₂_same]
  exact forall₂_congr fun e he => AcpAgentEntry.same_fromJson_toJson e (hnames e he)

/-- **The catalogue.** Whatever calls made it, its ids are distinct and not empty, stand in the
order in which they were first given, and each has the entry that was given last for it. Where
every entry has a name, the saved catalogue is loaded back exactly when no entry has a start-up
timeout of its own, whatever its variables are. -/
theorem catalogue (calls : List Call) :
    (after calls).ids.Nodup ∧ "" ∉ (after calls).ids ∧
      (after calls).ids = ((given calls).map (·.id)).eraseDups ∧
      (∀ id, (after calls).entry id = (given calls).reverse.find? fun e => e.id == id) ∧
      ((∀ e ∈ (after calls).entries, e.name ≠ "") →
        ((({} : AcpAgentRegistry).loadFromJson (after calls).toJson).Same (after calls) ↔
          ∀ e ∈ (after calls).entries, e.config.startupTimeoutMs = 10000)) := by
  have hids : (after calls).ids = ((given calls).map (·.id)).eraseDups := by
    rw [ids, entries_after, Keyed.map_puts]
  have hnodup : (after calls).ids.Nodup := by
    rw [ids, entries_after]
    exact Keyed.nodup_puts _ List.nodup_nil
  have hnamed : "" ∉ (after calls).ids := by
    rw [hids, List.mem_eraseDups]
    intro h
    obtain ⟨e, he, hid⟩ := List.mem_map.mp h
    exact given_id he hid
  refine ⟨hnodup, hnamed, hids, fun id => ?_, fun hnames => ?_⟩
  · rw [entry_eq, entries_after, Keyed.find_puts]
  · exact same_reload hnodup hnamed hnames

/-- An agent that is launched with a variable. -/
def localAgent : AcpAgentEntry :=
  { id := "local", name := "Local", config := { command := "agent", env := [⟨"HOME", "/tmp"⟩] } }

theorem catalogue_local :
    (after [.add { id := "local", name := "Old" }, .add localAgent]).entry "local" =
        some localAgent ∧
      (({} : AcpAgentRegistry).loadFromJson (after [.add { id := "local", name := "Old" },
        .add localAgent]).toJson).Same
        (after [.add { id := "local", name := "Old" }, .add localAgent]) := by
  have hentries : (after [.add { id := "local", name := "Old" }, .add localAgent]).entries =
      [localAgent] := rfl
  obtain ⟨-, -, -, hlast, hreload⟩ :=
    catalogue [.add { id := "local", name := "Old" }, .add localAgent]
  refine ⟨(hlast "local").trans rfl, (hreload fun e he => ?_).mpr fun e he => ?_⟩
  all_goals
    rw [hentries, List.mem_singleton] at he
    subst he
    decide

/-- An agent that may take a minute to start. -/
def slowAgent : AcpAgentEntry :=
  { id := "slow", name := "Slow", config := { command := "slow", startupTimeoutMs := 60000 } }

/-- A start-up timeout that is not the default one is lost when the catalogue is saved and
loaded. -/
theorem timeout_lost :
    (∀ e ∈ (after [.add slowAgent]).entries,
        e.name ≠ "" ∧ (e.config.env.map (·.name)).Nodup) ∧
      ¬(({} : AcpAgentRegistry).loadFromJson (after [.add slowAgent]).toJson).Same
        (after [.add slowAgent]) := by
  have hentries : (after [.add slowAgent]).entries = [slowAgent] := rfl
  refine ⟨fun e he => ?_, fun hsame => ?_⟩
  · rw [hentries, List.mem_singleton] at he
    subst he
    exact ⟨by decide, List.nodup_nil⟩
  · have hreload := (same_reload (by rw [ids, hentries]; simp) (by rw [ids, hentries]; decide)
      (by rw [hentries]; simp [slowAgent])).mp hsame
    rw [hentries] at hreload
    exact absurd (hreload slowAgent List.mem_cons_self) (by decide)

end AcpAgentRegistry

end LLMQore.Acp
