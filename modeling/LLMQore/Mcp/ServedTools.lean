import LLMQore.Mcp.BridgedTools

/-!
# LLMQore.Mcp.ServedTools

The tools of an MCP server (`McpServer`): those it was given one by one, and those of a registry.

`tools/list` merges the two into one map, `tools/call` looks into the one and then into the
other. Both find the same tool under a name (`lookup_collectTools`); but only `tools/list` asks
whether it is enabled.
-/

namespace LLMQore.Mcp

open McpTypes Rpc

/-- What a server reads of a `BaseTool`. -/
structure ServedTool where
  id : String
  displayName : String
  description : String := ""
  parametersSchema : JsonObject := []
  isEnabled : Bool := true

/-- The tools of a `McpServer`. Tools are objects with an identity; a registry owns its tools,
so that they are not destroyed while they are in it. -/
structure ServedTools where
  /-- What the functions of a tool return. -/
  tool : ToolRef → ServedTool
  destroyed : Finset ToolRef := ∅
  standaloneTools : AList (fun _ : String => ToolRef) := ∅
  toolRegistry : Option (AList fun _ : String => ToolRef) := none
  standalone_id : ∀ {name ref}, standaloneTools.lookup name = some ref → (tool ref).id = name := by
    exact nofun
  registry_id : ∀ {registry name ref}, toolRegistry = some registry →
    registry.lookup name = some ref → (tool ref).id = name := by exact nofun
  registry_alive : ∀ {registry name ref}, toolRegistry = some registry →
    registry.lookup name = some ref → ref ∉ destroyed := by exact nofun

/-- What comes of `tools/call`. -/
inductive ServedCall where
  | executed (tool : ToolRef) (args : JsonObject)
  | failed (code : Int) (message : String)

namespace ServedTools

variable (s : ServedTools)

/-! ### What changes the tools -/

/-- `McpServer::addTool`. -/
def addTool (ref : ToolRef) : ServedTools :=
  { s with
    standaloneTools := s.standaloneTools.insert (s.tool ref).id ref
    standalone_id := by
      intro name r hr
      by_cases hname : name = (s.tool ref).id
      · subst hname
        rw [AList.lookup_insert] at hr
        rw [Option.some.inj hr]
      · rw [AList.lookup_insert_ne hname] at hr
        exact s.standalone_id hr }

/-- `McpServer::removeTool`. -/
def removeTool (name : String) : ServedTools :=
  { s with
    standaloneTools := s.standaloneTools.erase name
    standalone_id := by
      intro n r hr
      by_cases hn : n = name
      · rw [hn, AList.lookup_erase] at hr
        cases hr
      · rw [AList.lookup_erase_ne hn] at hr
        exact s.standalone_id hr }

/-- `setToolRegistry`, with a registry that holds `registry`; without one the pointer is null,
as it is after the registry was destroyed. -/
def setToolRegistry (registry : Option (AList fun _ : String => ToolRef))
    (h : ∀ {r name ref}, registry = some r → r.lookup name = some ref →
      (s.tool ref).id = name ∧ ref ∉ s.destroyed) : ServedTools :=
  { s with
    toolRegistry := registry
    registry_id := fun hr href => (h hr href).1
    registry_alive := fun hr href => (h hr href).2 }

/-- `ToolRegistry::addTool`, of a tool that is not destroyed. -/
def registerTool (ref : ToolRef) (halive : ref ∉ s.destroyed) : ServedTools :=
  s.setToolRegistry (s.toolRegistry.map fun registry => registry.insert (s.tool ref).id ref) <| by
    intro r name ref' hr href
    obtain ⟨registry, hregistry, rfl⟩ := Option.map_eq_some_iff.mp hr
    by_cases hname : name = (s.tool ref).id
    · subst hname
      rw [AList.lookup_insert] at href
      obtain rfl := Option.some.inj href
      exact ⟨rfl, halive⟩
    · rw [AList.lookup_insert_ne hname] at href
      exact ⟨s.registry_id hregistry href, s.registry_alive hregistry href⟩

/-- `BaseTool::setEnabled`. -/
def setEnabled (ref : ToolRef) (enabled : Bool) : ServedTools :=
  have hid : ∀ r, (Function.update s.tool ref
      { s.tool ref with isEnabled := enabled } r).id = (s.tool r).id := by
    intro r
    by_cases hr : r = ref
    · subst hr
      rw [Function.update_self]
    · rw [Function.update_of_ne hr]
  { s with
    tool := Function.update s.tool ref { s.tool ref with isEnabled := enabled }
    standalone_id := fun hr => (hid _).trans (s.standalone_id hr)
    registry_id := fun hr href => (hid _).trans (s.registry_id hr href) }

/-! ### Listing and calling -/

/-- What a `QPointer` to the tool leads to. -/
def data (ref : ToolRef) : Option ToolRef := if ref ∈ s.destroyed then none else some ref

/-- The body of the loops of `collectTools`. -/
def mergeTool (merged : AList (fun _ : String => ToolRef)) (entry : Sigma fun _ : String => ToolRef) :
    AList (fun _ : String => ToolRef) :=
  match s.data entry.2 with
  | none => merged
  | some ref => merged.insert (s.tool ref).id ref

/-- `collectTools`; in the order of a `QMap`, which nothing here depends on. -/
def collectTools : AList (fun _ : String => ToolRef) :=
  let merged := s.standaloneTools.entries.foldl s.mergeTool ∅
  match s.toolRegistry with
  | none => merged
  | some registry => registry.entries.foldl s.mergeTool merged

/-- What `tools/list` says of a tool. -/
def toolInfo (tool : ServedTool) : ToolInfo where
  name := tool.id
  description := tool.description
  inputSchema := tool.parametersSchema
  title := if tool.displayName ≠ tool.id then tool.displayName else ""

/-- `tools/list`. -/
def toolsList : List ToolInfo :=
  s.collectTools.entries.filterMap fun entry =>
    if (s.tool entry.2).isEnabled then some (toolInfo (s.tool entry.2)) else none

/-- `findTool`. -/
def findTool (name : String) : Option ToolRef :=
  match s.toolRegistry.bind (·.lookup name) with
  | some ref => some ref
  | none => (s.standaloneTools.lookup name).bind s.data

/-- `tools/call`, once the slots of `toolCallReceived` have returned. -/
def toolsCall (params : JsonObject) : ServedCall :=
  let name := (params.value "name").toString
  let args := (params.value "arguments").toObject
  match s.findTool name with
  | none => .failed ErrorCode.methodNotFound s!"Tool not found: {name}"
  | some ref => .executed ref args

/-! ### Both find the same tool -/

section Merge

variable {s}

/-- A loop of `collectTools` over entries that stand under the id of their tool. -/
theorem lookup_foldl_mergeTool {entries : List (Sigma fun _ : String => ToolRef)}
    (hkeys : entries.NodupKeys) (hid : ∀ e ∈ entries, (s.tool e.2).id = e.1)
    (merged : AList fun _ : String => ToolRef) (name : String) :
    (entries.foldl s.mergeTool merged).lookup name =
      ((entries.dlookup name).bind s.data).or (merged.lookup name) := by
  induction entries generalizing merged with
  | nil => rfl
  | cons e rest ih =>
      obtain ⟨key, ref⟩ := e
      obtain ⟨hfresh, hrest⟩ := List.nodupKeys_cons.mp hkeys
      have hkey : (s.tool ref).id = key := hid ⟨key, ref⟩ (.head _)
      rw [List.foldl_cons, ih hrest fun e he => hid e (.tail _ he)]
      by_cases hname : name = key
      · subst hname
        rw [List.dlookup_cons_eq, List.dlookup_eq_none.mpr hfresh]
        unfold mergeTool data
        by_cases hdead : ref ∈ s.destroyed
        · simp [hdead]
        · simp [hdead, hkey]
      · rw [List.dlookup_cons_ne _ _ (by simpa using hname)]
        congr 1
        unfold mergeTool data
        by_cases hdead : ref ∈ s.destroyed
        · simp [hdead]
        · simp [hdead, hkey, AList.lookup_insert_ne hname]

end Merge

theorem mem_entries_id {m : AList fun _ : String => ToolRef}
    (h : ∀ {name ref}, m.lookup name = some ref → (s.tool ref).id = name) :
    ∀ e ∈ m.entries, (s.tool e.2).id = e.1 := fun _ he => h (AList.mem_lookup_iff.mpr he)

/-- What is listed under a name is what is called by it, when it is enabled. -/
theorem lookup_collectTools (name : String) : s.collectTools.lookup name = s.findTool name := by
  have hstandalone : (s.standaloneTools.entries.foldl s.mergeTool ∅).lookup name =
      (s.standaloneTools.lookup name).bind s.data := by
    rw [lookup_foldl_mergeTool s.standaloneTools.nodupKeys (s.mem_entries_id s.standalone_id)]
    exact Option.or_none
  unfold collectTools findTool
  cases hregistry : s.toolRegistry with
  | none => exact hstandalone
  | some registry =>
      dsimp only [Option.bind_some]
      rw [lookup_foldl_mergeTool registry.nodupKeys (s.mem_entries_id (s.registry_id hregistry)),
        hstandalone]
      change ((registry.lookup name).bind s.data).or _ = _
      cases href : registry.lookup name with
      | none => rfl
      | some ref =>
          have halive : s.data ref = some ref := if_neg (s.registry_alive hregistry href)
          rw [Option.bind_some, halive]
          rfl

theorem findTool_id {name : String} {ref : ToolRef} (h : s.findTool name = some ref) :
    (s.tool ref).id = name := by
  unfold findTool at h
  cases hregistry : s.toolRegistry.bind (·.lookup name) with
  | some r =>
      rw [hregistry] at h
      obtain rfl := Option.some.inj h
      obtain ⟨registry, hr, hlookup⟩ := Option.bind_eq_some_iff.mp hregistry
      exact s.registry_id hr hlookup
  | none =>
      rw [hregistry] at h
      obtain ⟨r, hr, hdata⟩ := Option.bind_eq_some_iff.mp h
      unfold data at hdata
      split at hdata
      · cases hdata
      · obtain rfl := Option.some.inj hdata
        exact s.standalone_id hr

/-- What is listed: the enabled tools that are found. -/
theorem mem_toolsList {info : ToolInfo} :
    info ∈ s.toolsList ↔ ∃ ref, s.findTool info.name = some ref ∧
      (s.tool ref).isEnabled = true ∧ info = toolInfo (s.tool ref) := by
  have hentry : ∀ name ref, ⟨name, ref⟩ ∈ s.collectTools.entries ↔ s.findTool name = some ref := by
    intro name ref
    rw [← s.lookup_collectTools]
    exact AList.mem_lookup_iff.symm
  unfold toolsList
  rw [List.mem_filterMap]
  constructor
  · rintro ⟨⟨name, ref⟩, hmem, hsome⟩
    dsimp only at hsome
    split at hsome
    · rename_i henabled
      obtain rfl := Option.some.inj hsome
      have hfound := (hentry name ref).mp hmem
      refine ⟨ref, ?_, henabled, rfl⟩
      rw [show (toolInfo (s.tool ref)).name = name from s.findTool_id hfound]
      exact hfound
    · cases hsome
  · rintro ⟨ref, hfound, henabled, hinfo⟩
    exact ⟨⟨info.name, ref⟩, (hentry _ _).mpr hfound, by rw [hinfo]; exact if_pos henabled⟩

/-! ### Whether listing and calling agree -/

/-- A call by the name executes the tool that is listed under it, and is refused where none is. -/
def Agrees (name : String) : Prop :=
  ∀ params : JsonObject, (params.value "name").toString = name →
    match s.toolsCall params with
    | .executed ref args => args = (params.value "arguments").toObject ∧
        ∀ info : ToolInfo, info ∈ s.toolsList ∧ info.name = name ↔ info = toolInfo (s.tool ref)
    | .failed code _ => code = ErrorCode.methodNotFound ∧ ∀ info ∈ s.toolsList, info.name ≠ name

/-- The tool that stands under the name is enabled; one of the registry comes before one of the
server's own, and a destroyed one does not count. -/
def EnabledUnder (name : String) : Prop :=
  ∀ ref ∉ s.destroyed,
    (∃ registry, s.toolRegistry = some registry ∧ registry.lookup name = some ref) ∨
      ((∀ registry, s.toolRegistry = some registry → name ∉ registry) ∧
        s.standaloneTools.lookup name = some ref) →
    (s.tool ref).isEnabled = true

theorem data_eq_some_iff {r ref : ToolRef} : s.data r = some ref ↔ r = ref ∧ ref ∉ s.destroyed := by
  unfold data
  split
  · rename_i hdead
    simp only [reduceCtorEq, false_iff, not_and, not_not]
    rintro rfl
    exact hdead
  · rename_i halive
    refine ⟨fun h => ?_, fun h => by rw [h.1]⟩
    obtain rfl := Option.some.inj h
    exact ⟨rfl, halive⟩

theorem findTool_eq_some_iff {name : String} {ref : ToolRef} :
    s.findTool name = some ref ↔ ref ∉ s.destroyed ∧
      ((∃ registry, s.toolRegistry = some registry ∧ registry.lookup name = some ref) ∨
        ((∀ registry, s.toolRegistry = some registry → name ∉ registry) ∧
          s.standaloneTools.lookup name = some ref)) := by
  have hown : (s.standaloneTools.lookup name).bind s.data = some ref ↔
      ref ∉ s.destroyed ∧ s.standaloneTools.lookup name = some ref := by
    simp only [Option.bind_eq_some_iff, data_eq_some_iff]
    exact ⟨fun ⟨_, hr, rfl, halive⟩ => ⟨halive, hr⟩, fun ⟨halive, hr⟩ => ⟨_, hr, rfl, halive⟩⟩
  unfold findTool
  cases hregistry : s.toolRegistry with
  | none =>
      rw [Option.bind_none, hown]
      simp
  | some registry =>
      rw [Option.bind_some]
      cases hr : registry.lookup name with
      | none =>
          have habsent : name ∉ registry := AList.lookup_eq_none.mp hr
          rw [hown]
          simp [habsent, hr]
      | some r =>
          have hpresent : name ∈ registry := AList.lookup_isSome.mp (by rw [hr]; rfl)
          have halive := s.registry_alive hregistry hr
          simp only [Option.some.injEq, exists_eq_left', hr]
          constructor
          · rintro rfl
            exact ⟨halive, .inl rfl⟩
          · rintro ⟨-, h | ⟨h, -⟩⟩
            · exact h
            · exact absurd hpresent (h registry rfl)

theorem toolsCall_executed {params : JsonObject} {name : String} {ref : ToolRef}
    (hname : (params.value "name").toString = name) (hfound : s.findTool name = some ref) :
    s.toolsCall params = .executed ref (params.value "arguments").toObject := by
  unfold toolsCall
  dsimp only
  rw [hname, hfound]

theorem toolsCall_failed {params : JsonObject} {name : String}
    (hname : (params.value "name").toString = name) (hfound : s.findTool name = none) :
    s.toolsCall params = .failed ErrorCode.methodNotFound s!"Tool not found: {name}" := by
  unfold toolsCall
  dsimp only
  rw [hname, hfound]

/-- Listing and calling agree about a name just where no disabled tool stands under it. -/
theorem tools_agree_iff (name : String) : s.Agrees name ↔ s.EnabledUnder name := by
  have hlisted : ∀ info : ToolInfo, info ∈ s.toolsList ∧ info.name = name ↔
      ∃ ref, s.findTool name = some ref ∧ (s.tool ref).isEnabled = true ∧
        info = toolInfo (s.tool ref) := by
    intro info
    rw [mem_toolsList]
    constructor
    · rintro ⟨h, rfl⟩
      exact h
    · rintro ⟨ref, hfound, henabled, rfl⟩
      have hid : (toolInfo (s.tool ref)).name = name := s.findTool_id hfound
      exact ⟨⟨ref, by rw [hid]; exact hfound, henabled, rfl⟩, hid⟩
  constructor
  · intro h ref halive hstands
    have hfound := s.findTool_eq_some_iff.mpr ⟨halive, hstands⟩
    let params : JsonObject := [("name", .str name)]
    have hname : (params.value "name").toString = name := rfl
    have hcall := h params hname
    rw [s.toolsCall_executed hname hfound] at hcall
    obtain ⟨ref', hr, henabled, -⟩ := (hlisted _).mp ((hcall.2 _).mpr rfl)
    rw [hfound] at hr
    obtain rfl := Option.some.inj hr
    exact henabled
  · intro h params hname
    cases hfound : s.findTool name with
    | none =>
        rw [s.toolsCall_failed hname hfound]
        refine ⟨rfl, fun info hinfo hn => ?_⟩
        obtain ⟨ref, hr, -⟩ := (hlisted info).mp ⟨hinfo, hn⟩
        rw [hfound] at hr
        cases hr
    | some ref =>
        obtain ⟨halive, hstands⟩ := s.findTool_eq_some_iff.mp hfound
        rw [s.toolsCall_executed hname hfound]
        refine ⟨rfl, fun info => ?_⟩
        rw [hlisted, hfound]
        constructor
        · rintro ⟨_, hr, -, rfl⟩
          rw [Option.some.inj hr]
        · rintro rfl
          exact ⟨ref, rfl, h ref halive hstands, rfl⟩

/-- A server with a tool of its own, and a registry with another one of the same name. -/
def twoTools : ServedTools :=
  let s : ServedTools := { tool := fun _ => ⟨"run", "Run", "", [], true⟩ }
  (((s.addTool 0).setToolRegistry (some ∅) nofun).registerTool 1 (by decide))

/-- The tool of the registry is disabled: it is not listed, but executed. -/
theorem disabled_tool_executed : ¬(twoTools.setEnabled 1 false).Agrees "run" := by
  intro h
  let params : JsonObject := [("name", .str "run")]
  have hname : (params.value "name").toString = "run" := rfl
  have hfound : (twoTools.setEnabled 1 false).findTool "run" = some 1 := by decide +kernel
  have hnone : (twoTools.setEnabled 1 false).toolsList.isEmpty = true := by decide +kernel
  have hcall := h params hname
  rw [toolsCall_executed _ hname hfound, List.isEmpty_iff.mp hnone] at hcall
  exact List.not_mem_nil ((hcall.2 _).mpr rfl).1

end ServedTools

end LLMQore.Mcp
