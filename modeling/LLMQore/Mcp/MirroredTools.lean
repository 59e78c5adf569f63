import LLMQore.Mcp.Reconnects
import LLMQore.Mcp.BinderUpdates

/-!
# LLMQore.Mcp.MirroredTools

What the binder makes of the list of a server: the registry has its tools under their names, and
nobody else's are touched.

All that happens to the registry is made of two operations on it, `removeTool` and `addTool`; what
they do under one name (`removeTool_registry`, `addTool_registry`) is all that is used of them. The
tools a binding keeps are those of its client in the registry (`MirrorInv`), so that the loops over
them go over the registry.
-/

namespace LLMQore.Mcp

open Reentrant McpTypes

namespace ToolBinder

/-! ### The registry -/

section Registry

variable {s s' : ToolBinder} {client : ClientId} {name : String} {ref : ToolRef}

/-- What holds of the registry and of the tools in it. -/
structure RegistryInv (s : ToolBinder) : Prop where
  made : ∀ ref tool, s.tools.lookup ref = some tool → ref < s.nextTool
  past : ∀ ref ∈ s.doomed, ref < s.nextTool
  registered : ∀ name ref, s.registry.lookup name = some ref → ref < s.nextTool ∧ ref ∉ s.doomed
  once : ∀ name name' ref, s.registry.lookup name = some ref → s.registry.lookup name' = some ref →
    name = name'
  named : ∀ name ref tool, s.registry.lookup name = some ref → s.tools.lookup ref = some tool →
    tool.id = name

theorem removeTool_registry (s : ToolBinder) (name n : String) :
    (s.removeTool name).registry.lookup n = if n = name then none else s.registry.lookup n := by
  unfold removeTool
  by_cases hn : n = name
  · subst hn
    rw [if_pos rfl]
    cases hr : s.registry.lookup n with
    | none => exact hr
    | some ref => exact AList.lookup_erase _ _
  · rw [if_neg hn]
    cases s.registry.lookup name with
    | none => rfl
    | some ref => exact AList.lookup_erase_ne hn

@[simp] theorem removeTool_tools (s : ToolBinder) (name : String) :
    (s.removeTool name).tools = s.tools := by
  unfold removeTool
  split <;> rfl

@[simp] theorem removeTool_nextTool (s : ToolBinder) (name : String) :
    (s.removeTool name).nextTool = s.nextTool := by
  unfold removeTool
  split <;> rfl

theorem mem_doomed_removeTool :
    ref ∈ (s.removeTool name).doomed ↔ ref ∈ s.doomed ∨ s.registry.lookup name = some ref := by
  unfold removeTool
  cases hr : s.registry.lookup name with
  | none => simp
  | some r => simp [or_comm, eq_comm]

theorem RegistryInv.removeTool (hs : RegistryInv s) (name : String) :
    RegistryInv (s.removeTool name) := by
  have hold : ∀ {n r}, (s.removeTool name).registry.lookup n = some r →
      n ≠ name ∧ s.registry.lookup n = some r := by
    intro n r hr
    rw [removeTool_registry] at hr
    split at hr
    · cases hr
    · exact ⟨‹_›, hr⟩
  refine ⟨fun r tool hr => ?_, fun r hr => ?_, fun n r hr => ?_, fun n n' r hn hn' => ?_,
    fun n r tool hr htool => ?_⟩
  · rw [removeTool_nextTool]
    exact hs.made r tool (by rwa [removeTool_tools] at hr)
  · rw [removeTool_nextTool]
    rcases mem_doomed_removeTool.mp hr with hr | hr
    · exact hs.past r hr
    · exact (hs.registered name r hr).1
  · obtain ⟨hne, hr⟩ := hold hr
    rw [removeTool_nextTool, mem_doomed_removeTool]
    refine ⟨(hs.registered n r hr).1, fun hdoomed => ?_⟩
    rcases hdoomed with hdoomed | hremoved
    · exact (hs.registered n r hr).2 hdoomed
    · exact hne (hs.once n name r hr hremoved)
  · exact hs.once n n' r (hold hn).2 (hold hn').2
  · exact hs.named n r tool (hold hr).2 (by rwa [removeTool_tools] at htool)

theorem addTool_registry (tool : McpRemoteTool) (s : ToolBinder) (n : String) :
    (s.addTool tool).registry.lookup n =
      if n = tool.id then some s.nextTool else s.registry.lookup n := by
  split
  · rename_i hn
    rw [hn]
    exact AList.lookup_insert _
  · rename_i hn
    exact AList.lookup_insert_ne hn

theorem addTool_tools (tool : McpRemoteTool) (s : ToolBinder) (ref : ToolRef) :
    (s.addTool tool).tools.lookup ref =
      if ref = s.nextTool then some tool else s.tools.lookup ref := by
  split
  · rename_i hr
    rw [hr]
    exact AList.lookup_insert _
  · rename_i hr
    exact AList.lookup_insert_ne hr

/-- A new tool, under a name that is free. -/
theorem RegistryInv.addTool (hs : RegistryInv s) {tool : McpRemoteTool} :
    RegistryInv (s.addTool tool) := by
  have hcases : ∀ {n r}, (s.addTool tool).registry.lookup n = some r →
      (n = tool.id ∧ r = s.nextTool) ∨ (r < s.nextTool ∧ s.registry.lookup n = some r) := by
    intro n r hr
    rw [addTool_registry] at hr
    split at hr
    · exact .inl ⟨‹_›, (Option.some.inj hr).symm⟩
    · exact .inr ⟨(hs.registered n r hr).1, hr⟩
  refine ⟨fun r t hr => ?_, fun r hr => ?_, fun n r hr => ?_, fun n n' r hn hn' => ?_,
    fun n r t hr ht => ?_⟩
  · rw [addTool_tools] at hr
    split at hr
    · exact lt_of_eq_of_lt ‹_› (Nat.lt_succ_self _)
    · exact (hs.made r t hr).trans (Nat.lt_succ_self _)
  · exact (hs.past r hr).trans (Nat.lt_succ_self _)
  · rcases hcases hr with ⟨-, rfl⟩ | ⟨hlt, hr⟩
    · exact ⟨Nat.lt_succ_self _, fun hdoomed => absurd (hs.past _ hdoomed) (Nat.lt_irrefl _)⟩
    · exact ⟨hlt.trans (Nat.lt_succ_self _), (hs.registered n r hr).2⟩
  · rcases hcases hn with ⟨rfl, rfl⟩ | ⟨hlt, hn⟩
    · rcases hcases hn' with ⟨rfl, -⟩ | ⟨hlt, -⟩
      · rfl
      · exact absurd hlt (Nat.lt_irrefl _)
    · rcases hcases hn' with ⟨-, rfl⟩ | ⟨-, hn'⟩
      · exact absurd hlt (Nat.lt_irrefl _)
      · exact hs.once n n' r hn hn'
  · rw [addTool_tools] at ht
    rcases hcases hr with ⟨rfl, rfl⟩ | ⟨hlt, hr⟩
    · rw [if_pos rfl] at ht
      obtain rfl := Option.some.inj ht
      rfl
    · rw [if_neg hlt.ne] at ht
      exact hs.named n r t hr ht

/-- A tool leaves the registry if it is what the registry has under a name. -/
def dropTool (s : ToolBinder) (entry : Sigma fun _ : String => ToolRef) : ToolBinder :=
  if s.registry.lookup entry.1 = some entry.2 then s.removeTool entry.1 else s

/-- The tools of some entries have left the registry. -/
structure Dropped (s : ToolBinder) (entries : List (Sigma fun _ : String => ToolRef))
    (s' : ToolBinder) : Prop where
  inv : RegistryInv s'
  tools : s'.tools = s.tools
  nextTool : s'.nextTool = s.nextTool
  registry : ∀ name ref, s'.registry.lookup name = some ref ↔
    s.registry.lookup name = some ref ∧ ⟨name, ref⟩ ∉ entries
  doomed : ∀ ref ∈ s'.doomed, ref ∈ s.doomed ∨
    ∃ name, ⟨name, ref⟩ ∈ entries ∧ s.registry.lookup name = some ref

theorem RegistryInv.dropTool (hs : RegistryInv s) (entry : Sigma fun _ : String => ToolRef) :
    Dropped s [entry] (s.dropTool entry) := by
  obtain ⟨name, ref⟩ := entry
  unfold ToolBinder.dropTool
  split
  · rename_i hr
    refine ⟨hs.removeTool name, removeTool_tools s name, removeTool_nextTool s name,
      fun n r => ?_, fun r hdoomed => ?_⟩
    · rw [removeTool_registry]
      by_cases hn : n = name
      · subst hn
        have hr : s.registry.lookup n = some ref := hr
        rw [if_pos rfl, hr]
        simp [eq_comm]
      · simp [hn]
    · rcases mem_doomed_removeTool.mp hdoomed with hold | hremoved
      · exact .inl hold
      · obtain rfl := Option.some.inj (hr.symm.trans hremoved)
        exact .inr ⟨name, .head _, hr⟩
  · rename_i hr
    refine ⟨hs, rfl, rfl, fun n r => ⟨fun h => ⟨h, fun hmem => ?_⟩, fun h => h.1⟩,
      fun _ hold => .inl hold⟩
    obtain ⟨rfl, rfl⟩ : n = name ∧ r = ref := by simpa using hmem
    exact hr h

theorem Dropped.trans {entries entries' : List (Sigma fun _ : String => ToolRef)}
    {s₁ s₂ : ToolBinder} (h₁ : Dropped s entries s₁) (h₂ : Dropped s₁ entries' s₂) :
    Dropped s (entries ++ entries') s₂ where
  inv := h₂.inv
  tools := h₂.tools.trans h₁.tools
  nextTool := h₂.nextTool.trans h₁.nextTool
  registry n r := by
    rw [h₂.registry, h₁.registry, List.mem_append, not_or, and_assoc]
  doomed r hr := by
    rcases h₂.doomed r hr with hr | ⟨n, hmem, hn⟩
    · rcases h₁.doomed r hr with hr | ⟨n, hmem, hn⟩
      · exact .inl hr
      · exact .inr ⟨n, List.mem_append_left _ hmem, hn⟩
    · exact .inr ⟨n, List.mem_append_right _ hmem, ((h₁.registry n r).mp hn).1⟩

theorem RegistryInv.dropped (hs : RegistryInv s)
    (entries : List (Sigma fun _ : String => ToolRef)) :
    Dropped s entries (entries.foldl ToolBinder.dropTool s) := by
  induction entries generalizing s with
  | nil => exact ⟨hs, rfl, rfl, fun n r => by simp, fun _ hr => .inl hr⟩
  | cons entry entries ih =>
      have hone := hs.dropTool entry
      exact hone.trans (ih hone.inv)

/-- The loop of `clearTools` goes over the entries of the tools. -/
theorem foldl_clearTool (refs : List ToolRef) (hs : s'.tools = s.tools) :
    refs.foldl clearTool s' = (refs.filterMap fun ref =>
      (s.tools.lookup ref).map fun tool => (⟨tool.id, ref⟩ : Sigma fun _ : String => ToolRef)).foldl
        ToolBinder.dropTool s' := by
  induction refs generalizing s' with
  | nil => rfl
  | cons ref refs ih =>
      have hstep : (s'.clearTool ref).tools = s.tools := by
        unfold clearTool
        split
        · exact hs
        · split
          · rw [removeTool_tools]
            exact hs
          · exact hs
      rw [List.foldl_cons, ih hstep]
      unfold clearTool
      rw [hs]
      cases hr : s.tools.lookup ref with
      | none => simp [hr]
      | some tool =>
          rw [List.filterMap_cons_some (by rw [hr]; rfl), List.foldl_cons]
          rfl

/-- The loop of `applyTools` over the tools that were there goes over the entries that are not
listed any more. -/
theorem foldl_dropStale (incoming : List String)
    (entries : List (Sigma fun _ : String => ToolRef)) (s : ToolBinder) :
    entries.foldl (dropStale incoming) s =
      (entries.filter fun entry => entry.1 ∉ incoming).foldl ToolBinder.dropTool s := by
  induction entries generalizing s with
  | nil => rfl
  | cons entry entries ih =>
      rw [List.foldl_cons, ih]
      unfold dropStale ToolBinder.dropTool
      by_cases hin : entry.1 ∈ incoming
      · simp [hin]
      · simp [hin]

end Registry

/-! ### The tools of a client -/

/-- The registry has a tool of the client under the name. -/
def Own (s : ToolBinder) (client : ClientId) (name : String) (ref : ToolRef) : Prop :=
  s.registry.lookup name = some ref ∧ ∃ tool, s.tools.lookup ref = some tool ∧ tool.client = client

/-- The registry has somebody else's tool under the name. -/
def Foreign (s : ToolBinder) (client : ClientId) (name : String) : Prop :=
  ∃ ref, s.registry.lookup name = some ref ∧ ¬s.Own client name ref

/-- The registry has a tool of the client with the definition that is listed. -/
structure Listed (s : ToolBinder) (client : ClientId) (serverName : String) (info : ToolInfo)
    (ref : ToolRef) : Prop where
  registered : s.registry.lookup (composeId serverName info.name) = some ref
  tool : ∃ tool, s.tools.lookup ref = some tool ∧ tool.client = client ∧
    tool.serverName = serverName ∧
      ToolInfo.schema.toJson tool.info = ToolInfo.schema.toJson info

/-- The list does not give one name to two different tools. -/
def Consistent (list : List ToolInfo) : Prop :=
  ∀ info ∈ list, ∀ info' ∈ list, info.name = info'.name →
    ToolInfo.schema.toJson info = ToolInfo.schema.toJson info'

/-- A binding keeps the tools of its client that are in the registry. -/
structure MirrorInv (s : ToolBinder) : Prop where
  registry : RegistryInv s
  lists : ∀ client binding, s.bindings.lookup client = some binding → ∀ ref,
    ref ∈ binding.tools ↔ ∃ name, s.Own client name ref
  serverName : ∀ client binding, s.bindings.lookup client = some binding →
    ∀ ref ∈ binding.tools, ∀ tool, s.tools.lookup ref = some tool → tool.serverName = binding.name
  bound : ∀ client name ref, s.Own client name ref → client ∈ s.bindings
  fresh : ∀ client ∈ s.bindings, client < s.nextClient
  alive : ∀ client ∈ s.alive, client < s.nextClient

section Clients

variable {s s' : ToolBinder} {client : ClientId} {binding : Binding} {name : String} {ref : ToolRef}

theorem composeId_inj {serverName t t' : String}
    (h : composeId serverName t = composeId serverName t') : t = t' := by
  unfold composeId at h
  split at h
  · exact h
  · exact (String.append_right_inj _).mp h

theorem Own.client_eq {c : ClientId} {n n' : String} (h : s.Own client n ref)
    (h' : s.Own c n' ref) : c = client := by
  obtain ⟨-, tool, htool, rfl⟩ := h
  obtain ⟨-, tool', htool', rfl⟩ := h'
  rw [Option.some.inj (htool'.symm.trans htool)]

theorem Own.not_foreign (h : s.Own client name ref) : ¬s.Foreign client name := by
  rintro ⟨r, hr, hnot⟩
  exact hnot (Option.some.inj (h.1.symm.trans hr) ▸ h)

theorem Listed.own {serverName : String} {info : ToolInfo}
    (h : s.Listed client serverName info ref) :
    s.Own client (composeId serverName info.name) ref := by
  obtain ⟨tool, htool, hclient, -⟩ := h.tool
  exact ⟨h.registered, tool, htool, hclient⟩

/-- What `current` finds is what the registry has of the client. -/
theorem MirrorInv.current (hs : MirrorInv s) (hb : s.bindings.lookup client = some binding) :
    (s.currentTools binding).lookup name = some ref ↔ s.Own client name ref := by
  have hfound : ∀ {r}, (s.currentTools binding).lookup name = some r → s.Own client name r := by
    intro r h
    obtain ⟨hmem, tool, htool, hid⟩ := currentTools_spec h
    obtain ⟨n, hn⟩ := (hs.lists client binding hb r).mp hmem
    rwa [← hid, hs.registry.named n r tool hn.1 htool]
  refine ⟨hfound, fun h => ?_⟩
  obtain ⟨tool, htool, -⟩ := h.2
  have hsome := currentTools_isSome ((hs.lists client binding hb ref).mpr ⟨name, h⟩) htool
  rw [hs.registry.named name ref tool h.1 htool] at hsome
  obtain ⟨r, hr⟩ := Option.isSome_iff_exists.mp hsome
  rw [hr, Option.some.inj ((hfound hr).1.symm.trans h.1)]

theorem MirrorInv.current_none (hs : MirrorInv s) (hb : s.bindings.lookup client = some binding)
    (h : s.Foreign client name) : (s.currentTools binding).lookup name = none := by
  obtain ⟨r, hr, hforeign⟩ := h
  cases hc : (s.currentTools binding).lookup name with
  | none => rfl
  | some ref =>
      have hown := (hs.current hb).mp hc
      exact absurd (Option.some.inj (hown.1.symm.trans hr) ▸ hown) hforeign

theorem unchangedTool_eq_some {mine : Option ToolRef} {info : ToolInfo} :
    s.unchangedTool mine info = some ref ↔ mine = some ref ∧ ∃ tool,
      s.tools.lookup ref = some tool ∧
        ToolInfo.schema.toJson tool.info = ToolInfo.schema.toJson info := by
  unfold unchangedTool
  cases mine with
  | none => simp
  | some r =>
      cases hr : s.tools.lookup r with
      | none =>
          simp only [hr, Option.some.injEq]
          refine ⟨nofun, ?_⟩
          rintro ⟨rfl, tool, htool, -⟩
          rw [hr] at htool
          cases htool
      | some tool =>
          simp only [hr, Option.some.injEq]
          constructor
          · intro h
            split at h
            · obtain rfl := Option.some.inj h
              exact ⟨rfl, tool, hr, ‹_›⟩
            · cases h
          · rintro ⟨rfl, tool', htool', hsame⟩
            obtain rfl := Option.some.inj (hr.symm.trans htool')
            rw [if_pos hsame]

/-- A binding is given other tools, and those of the other bindings stay. -/
theorem MirrorInv.retool (hs : MirrorInv s) (hb : s.bindings.lookup client = some binding)
    {next : List ToolRef} (hregistry : RegistryInv s')
    (hbindings : s'.bindings = s.bindings.insert client { binding with tools := next })
    (halive : s'.alive = s.alive) (hclient : s'.nextClient = s.nextClient)
    (htools : ∀ r < s.nextTool, s'.tools.lookup r = s.tools.lookup r)
    (hothers : ∀ c n r, c ≠ client → (s'.Own c n r ↔ s.Own c n r))
    (hnext : ∀ r, r ∈ next ↔ ∃ n, s'.Own client n r)
    (hname : ∀ r ∈ next, ∀ tool, s'.tools.lookup r = some tool →
      tool.serverName = binding.name) : MirrorInv s' := by
  have hbound := mem_of_lookup hb
  have hmem : ∀ c, c ∈ s'.bindings ↔ c ∈ s.bindings := by
    intro c
    rw [hbindings, AList.mem_insert]
    exact ⟨fun h => h.elim (fun h => h ▸ hbound) id, .inr⟩
  have hlookup : ∀ {c b}, s'.bindings.lookup c = some b →
      (c = client ∧ b = { binding with tools := next }) ∨
        (c ≠ client ∧ s.bindings.lookup c = some b) := by
    intro c b hc
    rw [hbindings] at hc
    by_cases hcc : c = client
    · rw [hcc, AList.lookup_insert] at hc
      exact .inl ⟨hcc, (Option.some.inj hc).symm⟩
    · exact .inr ⟨hcc, (AList.lookup_insert_ne hcc).symm.trans hc⟩
  refine ⟨hregistry, fun c b hc r => ?_, fun c b hc r hr tool htool => ?_, fun c n r hown => ?_,
    fun c hc => ?_, ?_⟩
  · rcases hlookup hc with ⟨rfl, rfl⟩ | ⟨hne, hc⟩
    · exact hnext r
    · simp only [hothers c _ r hne]
      exact hs.lists c b hc r
  · rcases hlookup hc with ⟨rfl, rfl⟩ | ⟨hne, hc⟩
    · exact hname r hr tool htool
    · obtain ⟨n, hn⟩ := (hs.lists c b hc r).mp hr
      rw [htools r (hs.registry.registered n r hn.1).1] at htool
      exact hs.serverName c b hc r hr tool htool
  · rw [hmem]
    by_cases hcc : c = client
    · exact hcc ▸ hbound
    · exact hs.bound c n r ((hothers c n r hcc).mp hown)
  · rw [hclient]
    exact hs.fresh c ((hmem c).mp hc)
  · rw [halive, hclient]
    exact hs.alive

/-! ### Clearing a binding -/

theorem mem_entries {refs : List ToolRef} :
    ⟨name, ref⟩ ∈ (refs.filterMap fun r =>
      (s.tools.lookup r).map fun tool => (⟨tool.id, r⟩ : Sigma fun _ : String => ToolRef)) ↔
    ref ∈ refs ∧ ∃ tool, s.tools.lookup ref = some tool ∧ tool.id = name := by
  rw [List.mem_filterMap]
  constructor
  · rintro ⟨r, hmem, hr⟩
    obtain ⟨tool, htool, heq⟩ := Option.map_eq_some_iff.mp hr
    cases heq
    exact ⟨hmem, tool, htool, rfl⟩
  · rintro ⟨hmem, tool, htool, rfl⟩
    exact ⟨ref, hmem, by rw [htool]; rfl⟩

/-- The registry without the tools of a client. -/
structure ClearedOf (s : ToolBinder) (client : ClientId) (s' : ToolBinder) : Prop where
  inv : RegistryInv s'
  tools : s'.tools = s.tools
  nextTool : s'.nextTool = s.nextTool
  registry : ∀ name ref, s'.registry.lookup name = some ref ↔
    s.registry.lookup name = some ref ∧ ¬s.Own client name ref
  doomed : ∀ ref ∈ s'.doomed, ref ∈ s.doomed ∨ ∃ name, s.Own client name ref

theorem MirrorInv.clearedOf (hs : MirrorInv s) (client : ClientId) :
    s.ClearedOf client (s.clearTools client) := by
  unfold ToolBinder.clearTools
  cases hb : s.bindings.lookup client with
  | none =>
      have hnone : ∀ name ref, ¬s.Own client name ref := fun name ref hown => by
        obtain ⟨b, hb'⟩ := lookup_of_mem (hs.bound client name ref hown)
        rw [hb] at hb'
        cases hb'
      exact ⟨hs.registry, rfl, rfl, fun name ref => by simp [hnone], fun _ hr => .inl hr⟩
  | some binding =>
      have hdropped := hs.registry.dropped (binding.tools.filterMap fun r =>
        (s.tools.lookup r).map fun tool => (⟨tool.id, r⟩ : Sigma fun _ : String => ToolRef))
      rw [← foldl_clearTool binding.tools rfl] at hdropped
      have hentry : ∀ name ref, s.registry.lookup name = some ref →
          (⟨name, ref⟩ ∈ (binding.tools.filterMap fun r => (s.tools.lookup r).map fun tool =>
            (⟨tool.id, r⟩ : Sigma fun _ : String => ToolRef)) ↔ s.Own client name ref) := by
        intro name ref hr
        rw [mem_entries, hs.lists client binding hb ref]
        constructor
        · rintro ⟨⟨n, hn⟩, -⟩
          rwa [hs.registry.once name n ref hr hn.1]
        · intro hown
          obtain ⟨tool, htool, -⟩ := hown.2
          exact ⟨⟨name, hown⟩, tool, htool, hs.registry.named name ref tool hr htool⟩
      have hinv := hdropped.inv
      refine ⟨⟨hinv.made, hinv.past, hinv.registered, hinv.once, hinv.named⟩, hdropped.tools,
        hdropped.nextTool, fun name ref => ?_, fun ref hr => ?_⟩
      · refine (hdropped.registry name ref).trans (and_congr_right fun hr => ?_)
        exact not_congr (hentry name ref hr)
      · rcases hdropped.doomed ref hr with hr | ⟨name, hmem, hr⟩
        · exact .inl hr
        · exact .inr ⟨name, (hentry name ref hr).mp hmem⟩

theorem ClearedOf.own (h : s.ClearedOf client s') (c : ClientId) :
    s'.Own c name ref ↔ s.Own c name ref ∧ c ≠ client := by
  unfold Own
  rw [h.registry, h.tools]
  constructor
  · rintro ⟨⟨hr, hnot⟩, htool⟩
    refine ⟨⟨hr, htool⟩, ?_⟩
    rintro rfl
    exact hnot ⟨hr, htool⟩
  · rintro ⟨hown, hne⟩
    exact ⟨⟨hown.1, fun hown' => hne (Own.client_eq hown' hown)⟩, hown.2⟩

theorem MirrorInv.clearTools (hs : MirrorInv s) (client : ClientId) :
    MirrorInv (s.clearTools client) := by
  have hcleared := hs.clearedOf client
  unfold ToolBinder.clearTools at hcleared ⊢
  cases hb : s.bindings.lookup client with
  | none => exact hs
  | some binding =>
      rw [hb] at hcleared
      have hloop := sameBindings_foldl sameBindings_clearTool binding.tools s
      refine hs.retool hb hcleared.inv rfl hloop.alive hloop.nextClient
        (fun r _ => by rw [hcleared.tools]) (fun c n r hne => ?_) (fun r => ?_) nofun
      · rw [hcleared.own]
        exact and_iff_left hne
      · refine ⟨nofun, ?_⟩
        rintro ⟨n, hn⟩
        exact absurd rfl ((hcleared.own client).mp hn).2

/-- What is known of the tools is known where only flags differ. -/
theorem MirrorInv.same (hs : MirrorInv s) (h : SameTools s s') : MirrorInv s' := by
  have hown : ∀ {c n r}, s'.Own c n r ↔ s.Own c n r := by
    intro c n r
    unfold Own
    rw [h.registry, h.tools]
  refine ⟨⟨?_, ?_, ?_, ?_, ?_⟩, fun c b' hc r => ?_, fun c b' hc r hr tool htool => ?_,
    fun c n r hn => ?_, fun c hc => ?_, ?_⟩
  · rw [h.tools, h.nextTool]
    exact hs.registry.made
  · rw [h.doomed, h.nextTool]
    exact hs.registry.past
  · rw [h.registry, h.nextTool, h.doomed]
    exact hs.registry.registered
  · rw [h.registry]
    exact hs.registry.once
  · rw [h.registry, h.tools]
    exact hs.registry.named
  · obtain ⟨b, hb, -, htools⟩ := h.bindings c b' hc
    simp only [htools, hown]
    exact hs.lists c b hb r
  · obtain ⟨b, hb, hname, htools⟩ := h.bindings c b' hc
    rw [htools] at hr
    rw [h.tools] at htool
    rw [hname]
    exact hs.serverName c b hb r hr tool htool
  · obtain ⟨b, hb⟩ := lookup_of_mem (hs.bound c n r (hown.mp hn))
    obtain ⟨b', hb', -⟩ := h.mem c b hb
    exact mem_of_lookup hb'
  · obtain ⟨b', hb'⟩ := lookup_of_mem hc
    obtain ⟨b, hb, -⟩ := h.bindings c b' hb'
    rw [h.nextClient]
    exact hs.fresh c (mem_of_lookup hb)
  · rw [h.alive, h.nextClient]
    exact hs.alive

/-! ### Applying a list -/

/-- The registry under the name of a tool, once the list was gone through as far as that tool. -/
def Settled (s : ToolBinder) (client : ClientId) (serverName : String) (info : ToolInfo)
    (s' : ToolBinder) (next : List ToolRef) : Prop :=
  (s.Foreign client (composeId serverName info.name) ∧
    s'.registry.lookup (composeId serverName info.name) =
      s.registry.lookup (composeId serverName info.name)) ∨
  (¬s.Foreign client (composeId serverName info.name) ∧
    ∃ ref ∈ next, s'.Listed client serverName info ref)

/-- What the loop of `applyTools` has done when it has been over the tools `past`. -/
structure AppliedTo (s : ToolBinder) (client : ClientId) (binding : Binding) (past : List ToolInfo)
    (acc : ToolBinder × List ToolRef) : Prop where
  inv : RegistryInv acc.1
  nextTool : s.nextTool ≤ acc.1.nextTool
  tools : ∀ ref < s.nextTool, acc.1.tools.lookup ref = s.tools.lookup ref
  untouched : ∀ name, (∀ info ∈ past, composeId binding.name info.name ≠ name) →
    acc.1.registry.lookup name = s.registry.lookup name
  settled : ∀ info ∈ past, s.Settled client binding.name info acc.1 acc.2
  next : ∀ ref ∈ acc.2, ∃ info ∈ past, acc.1.Listed client binding.name info ref
  /-- A tool that is listed unchanged stays. -/
  kept : ∀ info ∈ past, ∀ ref,
    s.unchangedTool ((s.currentTools binding).lookup (composeId binding.name info.name)) info =
      some ref → acc.1.registry.lookup (composeId binding.name info.name) = some ref
  doomed : ∀ ref ∈ acc.1.doomed, ref ∈ s.doomed ∨ ∃ name, s.Own client name ref

/-- What is settled under other names stays so. -/
theorem Settled.mono {serverName : String} {info : ToolInfo} {s₁ s₂ : ToolBinder}
    {next next' : List ToolRef} (h : s.Settled client serverName info s₁ next)
    (hregistry : s₂.registry.lookup (composeId serverName info.name) =
      s₁.registry.lookup (composeId serverName info.name))
    (htools : ∀ r tool, s₁.tools.lookup r = some tool → s₂.tools.lookup r = some tool)
    (hnext : next ⊆ next') : s.Settled client serverName info s₂ next' := by
  rcases h with ⟨hforeign, hr⟩ | ⟨hfree, r, hmem, hlisted⟩
  · exact .inl ⟨hforeign, hregistry.trans hr⟩
  · obtain ⟨tool, htool, hrest⟩ := hlisted.tool
    exact .inr ⟨hfree, r, hnext hmem, hregistry.trans hlisted.registered, tool, htools r tool htool,
      hrest⟩

/-- The tool that is gone through was settled before, or nothing but its entry of `next` changes. -/
theorem AppliedTo.skip {past : List ToolInfo} {acc : ToolBinder × List ToolRef}
    (h : AppliedTo s client binding past acc) {info : ToolInfo} {more : List ToolRef}
    (hsettled : s.Settled client binding.name info acc.1 (acc.2 ++ more))
    (hmore : ∀ r ∈ more, acc.1.Listed client binding.name info r)
    (hkept : ∀ r, s.unchangedTool
      ((s.currentTools binding).lookup (composeId binding.name info.name)) info = some r →
        acc.1.registry.lookup (composeId binding.name info.name) = some r) :
    AppliedTo s client binding (past ++ [info]) (acc.1, acc.2 ++ more) where
  inv := h.inv
  nextTool := h.nextTool
  tools := h.tools
  untouched n hn := h.untouched n fun i hi => hn i (List.mem_append_left _ hi)
  settled i hi := by
    rcases List.mem_append.mp hi with hi | hi
    · exact (h.settled i hi).mono rfl (fun _ _ htool => htool) (List.subset_append_left _ _)
    · obtain rfl := List.mem_singleton.mp hi
      exact hsettled
  next r hr := by
    rcases List.mem_append.mp hr with hr | hr
    · obtain ⟨i, hi, hlisted⟩ := h.next r hr
      exact ⟨i, List.mem_append_left _ hi, hlisted⟩
    · exact ⟨info, List.mem_append_right _ (.head _), hmore r hr⟩
  kept i hi := by
    rcases List.mem_append.mp hi with hi | hi
    · exact h.kept i hi
    · obtain rfl := List.mem_singleton.mp hi
      exact hkept
  doomed := h.doomed

/-- A new tool is added, under a name that was not gone through. -/
theorem AppliedTo.add {past : List ToolInfo} {acc : ToolBinder × List ToolRef}
    (h : AppliedTo s client binding past acc) {info : ToolInfo} {s₁ : ToolBinder}
    (hinv : RegistryInv s₁) (htools : s₁.tools = acc.1.tools)
    (hnext : s₁.nextTool = acc.1.nextTool)
    (hregistry : ∀ n, n ≠ composeId binding.name info.name →
      s₁.registry.lookup n = acc.1.registry.lookup n)
    (hdoomed : ∀ r ∈ s₁.doomed, r ∈ acc.1.doomed ∨ ∃ n, s.Own client n r)
    (hnew : ∀ i ∈ past, composeId binding.name i.name ≠ composeId binding.name info.name)
    (hfree : ¬s.Foreign client (composeId binding.name info.name))
    (hchanged : s.unchangedTool
      ((s.currentTools binding).lookup (composeId binding.name info.name)) info = none) :
    AppliedTo s client binding (past ++ [info])
      (s₁.addTool ⟨client, binding.name, info⟩, acc.2 ++ [s₁.nextTool]) := by
  have hid : McpRemoteTool.id ⟨client, binding.name, info⟩ = composeId binding.name info.name := rfl
  -- the new tool takes a fresh reference and the one name
  have hother : ∀ n, n ≠ composeId binding.name info.name →
      (s₁.addTool ⟨client, binding.name, info⟩).registry.lookup n = acc.1.registry.lookup n := by
    intro n hn
    rw [addTool_registry, hid, if_neg hn]
    exact hregistry n hn
  have hold : ∀ r tool, acc.1.tools.lookup r = some tool →
      (s₁.addTool ⟨client, binding.name, info⟩).tools.lookup r = some tool := by
    intro r tool hr
    rw [addTool_tools, hnext, if_neg (h.inv.made r tool hr).ne, htools]
    exact hr
  have hadded : (s₁.addTool ⟨client, binding.name, info⟩).Listed client binding.name info
      s₁.nextTool := by
    refine ⟨?_, ⟨client, binding.name, info⟩, ?_, rfl, rfl, rfl⟩
    · rw [addTool_registry, hid, if_pos rfl]
    · rw [addTool_tools, if_pos rfl]
  refine
    { inv := hinv.addTool
      nextTool := by
        show s.nextTool ≤ s₁.nextTool + 1
        rw [hnext]
        exact h.nextTool.trans (Nat.le_succ _)
      tools := fun r hr => by
        rw [addTool_tools, hnext, if_neg (hr.trans_le h.nextTool).ne, htools]
        exact h.tools r hr
      untouched := fun n hn => by
        rw [hother n (hn info (List.mem_append_right _ (.head _))).symm]
        exact h.untouched n fun i hi => hn i (List.mem_append_left _ hi)
      settled := fun i hi => ?_
      next := fun r hr => ?_
      kept := fun i hi r hr => ?_
      doomed := fun r hr => ?_ }
  · rcases List.mem_append.mp hi with hi | hi
    · exact (h.settled i hi).mono (hother _ (hnew i hi)) hold (List.subset_append_left _ _)
    · obtain rfl := List.mem_singleton.mp hi
      exact .inr ⟨hfree, _, List.mem_append_right _ (.head _), hadded⟩
  · rcases List.mem_append.mp hr with hr | hr
    · obtain ⟨i, hi, hlisted⟩ := h.next r hr
      obtain ⟨tool, htool, hrest⟩ := hlisted.tool
      exact ⟨i, List.mem_append_left _ hi,
        (hother _ (hnew i hi)).trans hlisted.registered, tool, hold r tool htool, hrest⟩
    · obtain rfl := List.mem_singleton.mp hr
      exact ⟨info, List.mem_append_right _ (.head _), hadded⟩
  · rcases List.mem_append.mp hi with hi | hi
    · exact (hother _ (hnew i hi)).trans (h.kept i hi r hr)
    · obtain rfl := List.mem_singleton.mp hi
      rw [hchanged] at hr
      cases hr
  · rcases hdoomed r hr with hr | hown
    · exact h.doomed r hr
    · exact .inr hown

/-- The tool of the binding that is listed unchanged. -/
theorem MirrorInv.listed_unchanged (hs : MirrorInv s)
    (hb : s.bindings.lookup client = some binding) {info : ToolInfo}
    (h : s.unchangedTool
      ((s.currentTools binding).lookup (composeId binding.name info.name)) info = some ref) :
    s.Listed client binding.name info ref := by
  obtain ⟨hmine, tool, htool, hsame⟩ := unchangedTool_eq_some.mp h
  have hown := (hs.current hb).mp hmine
  refine ⟨hown.1, tool, htool, ?_, ?_, hsame⟩
  · obtain ⟨-, tool', htool', hclient⟩ := hown
    rwa [Option.some.inj (htool.symm.trans htool')]
  · exact hs.serverName client binding hb ref ((hs.lists client binding hb ref).mpr ⟨_, hown⟩) tool
      htool

/-- The loop goes over one tool more. -/
theorem AppliedTo.step (hs : MirrorInv s) (hb : s.bindings.lookup client = some binding)
    {past : List ToolInfo} {acc : ToolBinder × List ToolRef}
    (h : AppliedTo s client binding past acc) {info : ToolInfo}
    (hagree : ∀ i ∈ past, i.name = info.name →
      ToolInfo.schema.toJson i = ToolInfo.schema.toJson info) :
    AppliedTo s client binding (past ++ [info])
      (applyTool client binding (s.currentTools binding) acc info) := by
  obtain ⟨s', next⟩ := acc
  -- whether the tool is unchanged is seen in the first state
  have hunchanged : ∀ r, s'.unchangedTool
      ((s.currentTools binding).lookup (composeId binding.name info.name)) info = some r ↔
        s.unchangedTool ((s.currentTools binding).lookup (composeId binding.name info.name)) info =
          some r := by
    intro r
    rw [unchangedTool_eq_some, unchangedTool_eq_some]
    refine and_congr_right fun hmine => ?_
    have hown := (hs.current hb).mp hmine
    rw [h.tools r (hs.registry.registered _ r hown.1).1]
  unfold applyTool
  dsimp only
  cases hmine : s'.unchangedTool
      ((s.currentTools binding).lookup (composeId binding.name info.name)) info with
  | some r =>
      have hlisted := hs.listed_unchanged hb ((hunchanged r).mp hmine)
      obtain ⟨tool, htool, hrest⟩ := hlisted.tool
      have htool' : s'.tools.lookup r = some tool :=
        (h.tools r (hs.registry.made r tool htool)).trans htool
      have hregistered : s'.registry.lookup (composeId binding.name info.name) = some r := by
        by_cases hpast : ∃ i ∈ past,
            composeId binding.name i.name = composeId binding.name info.name
        · obtain ⟨i, hi, hname⟩ := hpast
          have hsame := hagree i hi (composeId_inj hname)
          have hkept := h.kept i hi r
          rw [hname] at hkept
          refine hkept (unchangedTool_eq_some.mpr ?_)
          obtain ⟨hcurrent, tool, ht, hjson⟩ := unchangedTool_eq_some.mp ((hunchanged r).mp hmine)
          exact ⟨hcurrent, tool, ht, hjson.trans hsame.symm⟩
        · refine (h.untouched _ fun i hi hname => hpast ⟨i, hi, hname⟩).trans hlisted.registered
      have hlisted' : s'.Listed client binding.name info r := ⟨hregistered, tool, htool', hrest⟩
      refine h.skip (.inr ⟨hlisted.own.not_foreign, r, List.mem_append_right _ (.head _), hlisted'⟩)
        (fun r' hr' => ?_) fun r' hr' => ?_
      · obtain rfl := List.mem_singleton.mp hr'
        exact hlisted'
      · rw [(hunchanged r).mp hmine] at hr'
        obtain rfl := Option.some.inj hr'
        exact hregistered
  | none =>
      have hchanged : s.unchangedTool
          ((s.currentTools binding).lookup (composeId binding.name info.name)) info = none := by
        refine Option.eq_none_iff_forall_ne_some.mpr fun r hr => ?_
        rw [(hunchanged r).mpr hr] at hmine
        cases hmine
      have hskip : s.Settled client binding.name info s' next →
          AppliedTo s client binding (past ++ [info]) (s', next) := by
        intro hsettled
        have hskipped : AppliedTo s client binding (past ++ [info]) (s', next ++ []) :=
          h.skip (by rwa [List.append_nil]) nofun fun r hr => by
            rw [hchanged] at hr
            cases hr
        rwa [List.append_nil] at hskipped
      have hlistedAs : ∀ i ∈ past, composeId binding.name i.name =
          composeId binding.name info.name → ∀ r, s'.Listed client binding.name i r →
          s'.Listed client binding.name info r := by
        intro i hi hname r hlisted
        obtain ⟨tool, htool, hclient, hserver, hjson⟩ := hlisted.tool
        refine ⟨hname ▸ hlisted.registered, tool, htool, hclient, hserver, ?_⟩
        exact hjson.trans (hagree i hi (composeId_inj hname))
      dsimp only
      split
      · rename_i htaken
        refine hskip ?_
        by_cases hpast : ∃ i ∈ past,
            composeId binding.name i.name = composeId binding.name info.name
        · obtain ⟨i, hi, hname⟩ := hpast
          rcases h.settled i hi with hforeign | ⟨hfree, r, hr, hlisted⟩
          · rw [hname] at hforeign
            exact .inl hforeign
          · rw [hname] at hfree
            exact .inr ⟨hfree, r, hr, hlistedAs i hi hname r hlisted⟩
        · have hsame := h.untouched _ fun i hi hname => hpast ⟨i, hi, hname⟩
          obtain ⟨r, hr⟩ := Option.isSome_iff_exists.mp htaken.1
          refine .inl ⟨⟨r, hsame.symm.trans hr, fun hown => htaken.2 ?_⟩, hsame⟩
          exact hr.trans ((hs.current hb).mpr hown).symm
      · rename_i hfree
        have hours : s'.registry.lookup (composeId binding.name info.name) =
            s.registry.lookup (composeId binding.name info.name) →
              ¬s.Foreign client (composeId binding.name info.name) := by
          intro hsame hforeign
          obtain ⟨r, hr, -⟩ := id hforeign
          refine hfree ⟨?_, ?_⟩
          · rw [hsame, hr]
            rfl
          · rw [hsame, hr, hs.current_none hb hforeign]
            exact Option.some_ne_none r
        have hnew : ∀ i ∈ past,
            composeId binding.name i.name ≠ composeId binding.name info.name := by
          intro i hi hname
          rcases h.settled i hi with ⟨hforeign, hsame⟩ | ⟨-, r, hr, hlisted⟩
          · rw [hname] at hforeign hsame
            exact hours hsame hforeign
          · have hlisted' := hlistedAs i hi hname r hlisted
            have hcurrent : (s.currentTools binding).lookup (composeId binding.name info.name) =
                some r := by
              by_contra hne
              refine hfree ⟨?_, ?_⟩
              · rw [hlisted'.registered]
                rfl
              · rw [hlisted'.registered]
                exact fun heq => hne heq.symm
            obtain ⟨tool, htool, -, -, hjson⟩ := hlisted'.tool
            rw [unchangedTool_eq_some.mpr ⟨hcurrent, tool, htool, hjson⟩] at hmine
            cases hmine
        have hsame := h.untouched _ hnew
        cases hcurrent : (s.currentTools binding).lookup (composeId binding.name info.name) with
        | none =>
            exact h.add h.inv rfl rfl (fun _ _ => rfl) (fun _ hr => .inl hr) hnew (hours hsame)
              hchanged
        | some r =>
            have hown := (hs.current hb).mp hcurrent
            rw [if_pos (show (some r).isSome = true from rfl)]
            refine h.add (h.inv.removeTool _) (removeTool_tools s' _) (removeTool_nextTool s' _)
              (fun n hn => ?_) (fun r' hr' => ?_) hnew (hours hsame) hchanged
            · rw [removeTool_registry, if_neg hn]
            · rcases mem_doomed_removeTool.mp hr' with hr' | hr'
              · exact .inl hr'
              · rw [hsame, hown.1] at hr'
                obtain rfl := Option.some.inj hr'
                exact .inr ⟨_, hown⟩

/-- The loop of `applyTools`. -/
theorem MirrorInv.applied_foldl (hs : MirrorInv s) (hb : s.bindings.lookup client = some binding)
    {past rest : List ToolInfo} {acc : ToolBinder × List ToolRef}
    (h : AppliedTo s client binding past acc) (hconsistent : Consistent (past ++ rest)) :
    AppliedTo s client binding (past ++ rest)
      (rest.foldl (applyTool client binding (s.currentTools binding)) acc) := by
  induction rest generalizing past acc with
  | nil =>
      rw [List.append_nil]
      exact h
  | cons info rest ih =>
      have hagree : ∀ i ∈ past, i.name = info.name →
          ToolInfo.schema.toJson i = ToolInfo.schema.toJson info := fun i hi =>
        hconsistent i (List.mem_append_left _ hi) info (List.mem_append_right _ (.head _))
      have hstep := h.step hs hb hagree
      have hrest := ih hstep (by rwa [List.append_assoc])
      rwa [List.append_assoc] at hrest

/-- The registry mirrors a list: it has the tools that are listed, but for those whose name somebody
else has taken, and no other tool of the client. Whatever is not the client's is as it was. -/
structure Mirrored (s : ToolBinder) (client : ClientId) (serverName : String)
    (list : List ToolInfo) (s' : ToolBinder) : Prop where
  listed : ∀ info ∈ list, s.Foreign client (composeId serverName info.name) ∨
    ∃ ref, s'.Listed client serverName info ref
  only : ∀ name ref, s'.Own client name ref →
    ∃ info ∈ list, name = composeId serverName info.name ∧ s'.Listed client serverName info ref
  others : ∀ name ref, s.registry.lookup name = some ref → ¬s.Own client name ref →
    s'.registry.lookup name = some ref ∧ s'.tools.lookup ref = s.tools.lookup ref ∧
      ref ∉ s'.doomed
  brought : ∀ name ref, s'.registry.lookup name = some ref → ¬s'.Own client name ref →
    s.registry.lookup name = some ref ∧ ¬s.Own client name ref

/-- What is true of the registry when a list has been applied. -/
structure MirroredInv (s : ToolBinder) (client : ClientId) (serverName : String)
    (list : List ToolInfo) (next : List ToolRef) (s' : ToolBinder) : Prop
    extends Mirrored s client serverName list s' where
  inv : RegistryInv s'
  tools : ∀ ref < s.nextTool, s'.tools.lookup ref = s.tools.lookup ref
  kept : ∀ ref, ref ∈ next ↔ ∃ name, s'.Own client name ref
  names : ∀ ref ∈ next, ∀ tool, s'.tools.lookup ref = some tool → tool.serverName = serverName

/-- The tools that are not listed any more leave the registry. -/
theorem AppliedTo.dropStale (hs : MirrorInv s) (hb : s.bindings.lookup client = some binding)
    {list : List ToolInfo} {acc : ToolBinder × List ToolRef}
    (h : AppliedTo s client binding list acc) :
    MirroredInv s client binding.name list acc.2
      ((s.currentTools binding).entries.foldl
        (ToolBinder.dropStale (list.map fun info => composeId binding.name info.name)) acc.1) := by
  rw [foldl_dropStale]
  have hdropped := h.inv.dropped ((s.currentTools binding).entries.filter fun entry =>
    entry.1 ∉ list.map fun info => composeId binding.name info.name)
  generalize ((s.currentTools binding).entries.filter fun entry =>
    entry.1 ∉ list.map fun info => composeId binding.name info.name).foldl
      ToolBinder.dropTool acc.1 = s' at hdropped
  -- what leaves is what was the client's and is not listed
  have hstale : ∀ n r, (⟨n, r⟩ ∈ (s.currentTools binding).entries.filter fun entry =>
      entry.1 ∉ list.map fun info => composeId binding.name info.name) ↔
        s.Own client n r ∧ ∀ info ∈ list, composeId binding.name info.name ≠ n := by
    intro n r
    rw [List.mem_filter, ← AList.mem_lookup_iff]
    refine and_congr (hs.current hb) ?_
    simp
  have hregistry : ∀ n r, s'.registry.lookup n = some r ↔ acc.1.registry.lookup n = some r ∧
      ¬(s.Own client n r ∧ ∀ info ∈ list, composeId binding.name info.name ≠ n) := by
    intro n r
    rw [hdropped.registry, hstale]
  have htools : ∀ r < s.nextTool, s'.tools.lookup r = s.tools.lookup r := by
    intro r hr
    rw [hdropped.tools]
    exact h.tools r hr
  -- a name is either one that is listed, or as before
  have hname : ∀ n, (∃ info ∈ list, composeId binding.name info.name = n) ∨
      ((∀ info ∈ list, composeId binding.name info.name ≠ n) ∧
        acc.1.registry.lookup n = s.registry.lookup n) := by
    intro n
    by_cases hn : ∃ info ∈ list, composeId binding.name info.name = n
    · exact .inl hn
    · have hn' : ∀ info ∈ list, composeId binding.name info.name ≠ n :=
        fun info hinfo heq => hn ⟨info, hinfo, heq⟩
      exact .inr ⟨hn', h.untouched n hn'⟩
  have hlisted : ∀ info ∈ list, ∀ r, acc.1.Listed client binding.name info r →
      s'.Listed client binding.name info r := by
    intro info hinfo r hl
    obtain ⟨tool, htool, hrest⟩ := hl.tool
    refine ⟨(hregistry _ r).mpr ⟨hl.registered, fun hgone => hgone.2 info hinfo rfl⟩, tool, ?_,
      hrest⟩
    rw [hdropped.tools]
    exact htool
  -- of what was there and is there still it is known whose it is
  have hownOld : ∀ n r, s.registry.lookup n = some r → (s'.Own client n r ↔
      s'.registry.lookup n = some r ∧ s.Own client n r) := by
    intro n r hr
    unfold Own
    rw [htools r (hs.registry.registered n r hr).1]
    simp [hr]
  have honly : ∀ n r, s'.Own client n r →
      ∃ info ∈ list, n = composeId binding.name info.name ∧
        s'.Listed client binding.name info r ∧ r ∈ acc.2 := by
    intro n r hown
    obtain ⟨hr, hkept⟩ := (hregistry n r).mp hown.1
    rcases hname n with ⟨info, hinfo, rfl⟩ | ⟨hnone, hsame⟩
    · rcases h.settled info hinfo with ⟨hforeign, hsame⟩ | ⟨-, r', hr', hl⟩
      · obtain ⟨r', hr', hnot⟩ := hforeign
        rw [hsame, hr'] at hr
        obtain rfl := Option.some.inj hr
        exact absurd ((hownOld _ _ hr').mp hown).2 hnot
      · obtain rfl := Option.some.inj (hl.registered.symm.trans hr)
        exact ⟨info, hinfo, rfl, hlisted info hinfo _ hl, hr'⟩
    · rw [hsame] at hr
      exact absurd ⟨((hownOld n r hr).mp hown).2, hnone⟩ hkept
  refine
    { listed := fun info hinfo => ?_
      only := fun n r hown => ?_
      others := fun n r hr hnot => ?_
      brought := fun n r hr hnot => ?_
      inv := hdropped.inv
      tools := htools
      kept := fun r => ⟨fun hr => ?_, fun ⟨n, hown⟩ => ?_⟩
      names := fun r hr tool htool => ?_ }
  · rcases h.settled info hinfo with ⟨hforeign, -⟩ | ⟨-, r, -, hl⟩
    · exact .inl hforeign
    · exact .inr ⟨r, hlisted info hinfo r hl⟩
  · obtain ⟨info, hinfo, hn, hl, -⟩ := honly n r hown
    exact ⟨info, hinfo, hn, hl⟩
  · have hlt := (hs.registry.registered n r hr).1
    have hregistered : acc.1.registry.lookup n = some r := by
      rcases hname n with ⟨info, hinfo, rfl⟩ | ⟨-, hsame⟩
      · rcases h.settled info hinfo with ⟨-, hsame⟩ | ⟨hfree, -⟩
        · exact hsame.trans hr
        · exact absurd ⟨r, hr, hnot⟩ hfree
      · exact hsame.trans hr
    have hr' := (hregistry n r).mpr ⟨hregistered, fun hgone => hnot hgone.1⟩
    exact ⟨hr', htools r hlt, (hdropped.inv.registered n r hr').2⟩
  · have hregistered : s.registry.lookup n = some r := by
      obtain ⟨hr', -⟩ := (hregistry n r).mp hr
      rcases hname n with ⟨info, hinfo, rfl⟩ | ⟨-, hsame⟩
      · rcases h.settled info hinfo with ⟨-, hsame⟩ | ⟨-, r', -, hl⟩
        · exact hsame.symm.trans hr'
        · obtain rfl := Option.some.inj (hl.registered.symm.trans hr')
          exact absurd (hlisted info hinfo _ hl).own hnot
      · exact hsame.symm.trans hr'
    exact ⟨hregistered, fun hown => hnot ((hownOld n r hregistered).mpr ⟨hr, hown⟩)⟩
  · obtain ⟨info, hinfo, hl⟩ := h.next r hr
    exact ⟨_, (hlisted info hinfo r hl).own⟩
  · exact (honly n r hown).choose_spec.2.2.2
  · obtain ⟨info, hinfo, hl⟩ := h.next r hr
    obtain ⟨tool', htool', -, hserver, -⟩ := (hlisted info hinfo r hl).tool
    rwa [Option.some.inj (htool.symm.trans htool')]

theorem MirrorInv.applied (hs : MirrorInv s) (hb : s.bindings.lookup client = some binding)
    {list : List ToolInfo} (hconsistent : Consistent list) :
    ∃ next, MirroredInv s client binding.name list next (s.applyTools client list) ∧
      (s.applyTools client list).bindings =
        s.bindings.insert client { binding with tools := next } ∧
      (s.applyTools client list).alive = s.alive ∧
      (s.applyTools client list).nextClient = s.nextClient := by
  have hstart : AppliedTo s client binding [] (s, []) :=
    ⟨hs.registry, Nat.le_refl _, fun _ _ => rfl, fun _ _ => rfl, nofun, nofun, nofun,
      fun _ hr => .inl hr⟩
  have hend := (hs.applied_foldl hb hstart hconsistent).dropStale hs hb
  have hloop := (sameBindings_applyTools_loop client binding (s.currentTools binding)
    list (s, [])).trans (sameBindings_foldl (sameBindings_dropStale
      (list.map fun info => composeId binding.name info.name)) (s.currentTools binding).entries _)
  unfold ToolBinder.applyTools
  rw [hb]
  refine ⟨_, ?_, rfl, hloop.alive, hloop.nextClient⟩
  have hinv := hend.inv
  exact
    { listed := fun info hinfo => by
        rcases hend.listed info hinfo with hforeign | ⟨r, hr, htool⟩
        · exact .inl hforeign
        · exact .inr ⟨r, hr, htool⟩
      only := fun n r hown => by
        obtain ⟨info, hinfo, hn, hr, htool⟩ := hend.only n r hown
        exact ⟨info, hinfo, hn, hr, htool⟩
      others := hend.others
      brought := hend.brought
      inv := ⟨hinv.made, hinv.past, hinv.registered, hinv.once, hinv.named⟩
      tools := hend.tools
      kept := hend.kept
      names := hend.names }

/-- A list of one client leaves the tools of the others alone. -/
theorem MirrorInv.own_other (hs : MirrorInv s) {serverName : String} {list : List ToolInfo}
    {next : List ToolRef} (h : MirroredInv s client serverName list next s') {c : ClientId}
    (hne : c ≠ client) {n : String} {r : ToolRef} : s'.Own c n r ↔ s.Own c n r := by
  constructor
  · intro hown
    obtain ⟨hr, -⟩ := h.brought n r hown.1 fun hown' => hne (Own.client_eq hown' hown)
    refine ⟨hr, ?_⟩
    rw [← h.tools r (hs.registry.registered n r hr).1]
    exact hown.2
  · intro hown
    obtain ⟨hr, htool, -⟩ := h.others n r hown.1 fun hown' => hne (Own.client_eq hown' hown)
    refine ⟨hr, ?_⟩
    rw [htool]
    exact hown.2

theorem MirrorInv.applyTools (hs : MirrorInv s) (client : ClientId) {list : List ToolInfo}
    (hconsistent : Consistent list) : MirrorInv (s.applyTools client list) := by
  cases hb : s.bindings.lookup client with
  | none =>
      have heq : s.applyTools client list = s := by
        unfold ToolBinder.applyTools
        rw [hb]
      rwa [heq]
  | some binding =>
      obtain ⟨next, hmirrored, hbindings, halive, hclient⟩ := hs.applied hb hconsistent
      exact hs.retool hb hmirrored.inv hbindings halive hclient hmirrored.tools
        (fun _ _ _ hne => hs.own_other hmirrored hne) hmirrored.kept hmirrored.names

/-! ### Applying a list again -/

/-- Where everything that is listed is settled, the loop changes nothing. -/
theorem MirrorInv.foldl_settled (hs : MirrorInv s) (hb : s.bindings.lookup client = some binding)
    {list : List ToolInfo} (h : ∀ info ∈ list,
      s.Foreign client (composeId binding.name info.name) ∨
        ∃ ref, s.Listed client binding.name info ref) (next : List ToolRef) :
    (list.foldl (applyTool client binding (s.currentTools binding)) (s, next)).1 = s := by
  induction list generalizing next with
  | nil => rfl
  | cons info list ih =>
      have hrest := ih fun i hi => h i (.tail _ hi)
      have hstep : ∃ next', applyTool client binding (s.currentTools binding) (s, next) info =
          (s, next') := by
        unfold applyTool
        dsimp only
        rcases h info (.head _) with hforeign | ⟨r, hlisted⟩
        · rw [hs.current_none hb hforeign]
          obtain ⟨r, hr, -⟩ := hforeign
          have hnone : s.unchangedTool none info = none := rfl
          rw [hnone, hr]
          exact ⟨next, if_pos ⟨rfl, Option.some_ne_none r⟩⟩
        · obtain ⟨tool, htool, -, -, hjson⟩ := hlisted.tool
          have hmine : s.unchangedTool
              ((s.currentTools binding).lookup (composeId binding.name info.name)) info = some r :=
            unchangedTool_eq_some.mpr ⟨(hs.current hb).mpr hlisted.own, tool, htool, hjson⟩
          rw [hmine]
          exact ⟨_, rfl⟩
      obtain ⟨next', hnext'⟩ := hstep
      rw [List.foldl_cons, hnext']
      exact hrest next'

theorem MirrorInv.applyTools_again (hs : MirrorInv s)
    (hb : s.bindings.lookup client = some binding) {list : List ToolInfo}
    (hlisted : ∀ info ∈ list, s.Foreign client (composeId binding.name info.name) ∨
      ∃ ref, s.Listed client binding.name info ref)
    (honly : ∀ name ref, s.Own client name ref →
      ∃ info ∈ list, name = composeId binding.name info.name) :
    (s.applyTools client list).registry = s.registry ∧
      (s.applyTools client list).tools = s.tools := by
  have hnone : (s.currentTools binding).entries.filter (fun entry =>
      entry.1 ∉ list.map fun info => composeId binding.name info.name) = [] := by
    refine List.filter_eq_nil_iff.mpr fun entry hentry => ?_
    have hown := (hs.current hb).mp (AList.mem_lookup_iff.mpr hentry)
    obtain ⟨info, hinfo, hn⟩ := honly entry.1 entry.2 hown
    simpa using ⟨info, hinfo, hn.symm⟩
  have hstale := foldl_dropStale (list.map fun info => composeId binding.name info.name)
    (s.currentTools binding).entries
    (list.foldl (applyTool client binding (s.currentTools binding)) (s, [])).1
  rw [hnone, hs.foldl_settled hb hlisted] at hstale
  unfold ToolBinder.applyTools
  rw [hb]
  dsimp only
  rw [hs.foldl_settled hb hlisted, hstale]
  exact ⟨rfl, rfl⟩

/-! ### What else happens -/

theorem MirrorInv.newClient (hs : MirrorInv s) : MirrorInv s.newClient where
  registry := ⟨hs.registry.made, hs.registry.past, hs.registry.registered, hs.registry.once,
    hs.registry.named⟩
  lists := hs.lists
  serverName := hs.serverName
  bound := hs.bound
  fresh c hc := (hs.fresh c hc).trans (Nat.lt_succ_self _)
  alive c hc := by
    rcases Finset.mem_insert.mp hc with rfl | hc
    · exact Nat.lt_succ_self _
    · exact (hs.alive c hc).trans (Nat.lt_succ_self _)

/-- A client is bound that was not. -/
theorem MirrorInv.attach (hs : MirrorInv s) (hnew : client ∉ s.bindings)
    (hclient : client < s.nextClient) (name : String) (owned autoReconnect : Bool) :
    MirrorInv (s.attach client name owned autoReconnect) := by
  have hlookup : ∀ {c b}, (s.attach client name owned autoReconnect).bindings.lookup c = some b →
      (c = client ∧ b.tools = []) ∨ s.bindings.lookup c = some b := by
    intro c b hc
    have hc : (s.bindings.insert client _).lookup c = some b := hc
    by_cases hcc : c = client
    · rw [hcc, AList.lookup_insert] at hc
      obtain rfl := Option.some.inj hc
      exact .inl ⟨hcc, rfl⟩
    · exact .inr ((AList.lookup_insert_ne hcc).symm.trans hc)
  refine ⟨⟨hs.registry.made, hs.registry.past, hs.registry.registered, hs.registry.once,
    hs.registry.named⟩, fun c b hc r => ?_, fun c b hc r hr tool htool => ?_, fun c n r hown => ?_,
    fun c hc => ?_, hs.alive⟩
  · rcases hlookup hc with ⟨rfl, htools⟩ | hc
    · rw [htools]
      exact ⟨nofun, fun ⟨n, hown⟩ => absurd (hs.bound c n r hown) hnew⟩
    · exact hs.lists c b hc r
  · rcases hlookup hc with ⟨-, htools⟩ | hc
    · rw [htools] at hr
      cases hr
    · exact hs.serverName c b hc r hr tool htool
  · exact (AList.mem_insert _).mpr (.inr (hs.bound c n r hown))
  · rcases (AList.mem_insert _).mp hc with rfl | hc
    · exact hclient
    · exact hs.fresh c hc

/-- A binding is dropped whose tools have left the registry. -/
theorem MirrorInv.unbind (hs : MirrorInv s) (hnone : ∀ n r, ¬s.Own client n r) :
    MirrorInv { s with bindings := s.bindings.erase client } := by
  have hlookup : ∀ {c b}, (s.bindings.erase client).lookup c = some b →
      s.bindings.lookup c = some b := by
    intro c b hc
    by_cases hcc : c = client
    · rw [hcc, AList.lookup_erase] at hc
      cases hc
    · exact (AList.lookup_erase_ne hcc).symm.trans hc
  refine ⟨⟨hs.registry.made, hs.registry.past, hs.registry.registered, hs.registry.once,
    hs.registry.named⟩, fun c b hc => hs.lists c b (hlookup hc), fun c b hc =>
    hs.serverName c b (hlookup hc), fun c n r hown => ?_, fun c hc => ?_, hs.alive⟩
  · refine AList.mem_erase.mpr ⟨?_, hs.bound c n r hown⟩
    rintro rfl
    exact hnone n r hown
  · exact hs.fresh c (AList.mem_erase.mp hc).2

theorem MirrorInv.removeClient (hs : MirrorInv s) (client : ClientId) :
    MirrorInv (s.removeClient client) := by
  unfold ToolBinder.removeClient
  split
  · exact hs
  · exact (hs.clearTools client).unbind fun n r hown =>
      ((hs.clearedOf client).own client).mp hown |>.2 rfl

/-- Fewer clients are alive. -/
theorem MirrorInv.destroyed (hs : MirrorInv s) (client : ClientId) :
    MirrorInv { s with alive := s.alive.erase client } :=
  { hs with
    registry := ⟨hs.registry.made, hs.registry.past, hs.registry.registered, hs.registry.once,
      hs.registry.named⟩
    alive := fun c hc => hs.alive c (Finset.mem_of_mem_erase hc) }

/-- The tool belongs to a binding. -/
def BoundTool (s : ToolBinder) (ref : ToolRef) : Prop :=
  ∃ client binding, s.bindings.lookup client = some binding ∧ ref ∈ binding.tools

/-- Nobody's binding has the tool under the name. -/
def Unbound (s : ToolBinder) (name : String) : Prop :=
  ∀ ref, s.registry.lookup name = some ref → ¬s.BoundTool ref

theorem MirrorInv.not_own (hs : MirrorInv s) (h : s.Unbound name) (c : ClientId) :
    ¬s.Own c name ref := by
  intro hown
  obtain ⟨b, hb⟩ := lookup_of_mem (hs.bound c name ref hown)
  exact h ref hown.1 ⟨c, b, hb, (hs.lists c b hb ref).mpr ⟨name, hown⟩⟩

/-- Whoever changes the registry leaves the tools of the bindings alone. -/
theorem MirrorInv.registryMoves (hs : MirrorInv s) (hinv : RegistryInv s')
    (hbindings : s'.bindings = s.bindings) (halive : s'.alive = s.alive)
    (hclient : s'.nextClient = s.nextClient)
    (htools : ∀ r tool, s'.tools.lookup r = some tool → s.tools.lookup r = some tool)
    (hown : ∀ c n r, s'.Own c n r ↔ s.Own c n r) : MirrorInv s' := by
  refine ⟨hinv, fun c b hc r => ?_, fun c b hc r hr tool htool => ?_, fun c n r h => ?_,
    fun c hc => ?_, ?_⟩
  · rw [hbindings] at hc
    simp only [hown]
    exact hs.lists c b hc r
  · rw [hbindings] at hc
    exact hs.serverName c b hc r hr tool (htools r tool htool)
  · rw [hbindings]
    exact hs.bound c n r ((hown c n r).mp h)
  · rw [hbindings] at hc
    rw [hclient]
    exact hs.fresh c hc
  · rw [halive, hclient]
    exact hs.alive

theorem MirrorInv.own_removeTool (hs : MirrorInv s) (h : s.Unbound name) {c : ClientId} {n : String}
    {r : ToolRef} : (s.removeTool name).Own c n r ↔ s.Own c n r := by
  unfold Own
  rw [removeTool_registry, removeTool_tools]
  by_cases hn : n = name
  · subst hn
    rw [if_pos rfl]
    exact ⟨fun hown => (Option.some_ne_none r hown.1.symm).elim,
      fun hown => absurd hown (hs.not_own h c)⟩
  · rw [if_neg hn]

theorem MirrorInv.toolRemoved (hs : MirrorInv s) (h : s.Unbound name) :
    MirrorInv (s.removeTool name) := by
  have hsame := sameBindings_removeTool name s
  exact hs.registryMoves (hs.registry.removeTool name) hsame.bindings hsame.alive hsame.nextClient
    (fun r tool htool => by rwa [removeTool_tools] at htool) fun _ _ _ => hs.own_removeTool h

/-- Someone else puts a tool into the registry. -/
def toolAdded (name : String) (s : ToolBinder) : ToolBinder :=
  { s with nextTool := s.nextTool + 1, registry := s.registry.insert name s.nextTool }

theorem toolAdded_registry {n : String} {r : ToolRef}
    (hr : (s.toolAdded name).registry.lookup n = some r) :
    (n = name ∧ r = s.nextTool) ∨ (n ≠ name ∧ s.registry.lookup n = some r) := by
  by_cases hn : n = name
  · have hr : (s.registry.insert name s.nextTool).lookup n = some r := hr
    rw [hn, AList.lookup_insert] at hr
    exact .inl ⟨hn, (Option.some.inj hr).symm⟩
  · exact .inr ⟨hn, (AList.lookup_insert_ne hn).symm.trans hr⟩

theorem RegistryInv.lookup_nextTool (hs : RegistryInv s) : s.tools.lookup s.nextTool = none := by
  cases ht : s.tools.lookup s.nextTool with
  | none => rfl
  | some tool => exact absurd (hs.made _ tool ht) (Nat.lt_irrefl _)

theorem MirrorInv.own_toolAdded (hs : MirrorInv s) (h : s.Unbound name) {c : ClientId} {n : String}
    {r : ToolRef} : (s.toolAdded name).Own c n r ↔ s.Own c n r := by
  constructor
  · intro hown
    rcases toolAdded_registry hown.1 with ⟨-, rfl⟩ | ⟨-, hr⟩
    · obtain ⟨tool, htool, -⟩ := hown.2
      have htool : s.tools.lookup s.nextTool = some tool := htool
      rw [hs.registry.lookup_nextTool] at htool
      cases htool
    · exact ⟨hr, hown.2⟩
  · intro hown
    refine ⟨(AList.lookup_insert_ne ?_).trans hown.1, hown.2⟩
    rintro rfl
    exact hs.not_own h c hown

theorem MirrorInv.toolAdded (hs : MirrorInv s) (h : s.Unbound name) :
    MirrorInv (s.toolAdded name) := by
  have hold : ∀ {n r}, s.registry.lookup n = some r → r ≠ s.nextTool := fun hr =>
    (hs.registry.registered _ _ hr).1.ne
  refine hs.registryMoves ⟨fun r tool hr => (hs.registry.made r tool hr).trans (Nat.lt_succ_self _),
    fun r hr => (hs.registry.past r hr).trans (Nat.lt_succ_self _), fun n r hr => ?_,
    fun n n' r hn hn' => ?_, fun n r tool hr htool => ?_⟩ rfl rfl rfl (fun _ _ ht => ht)
    fun _ _ _ => hs.own_toolAdded h
  · rcases toolAdded_registry hr with ⟨-, rfl⟩ | ⟨-, hr⟩
    · exact ⟨Nat.lt_succ_self _, fun hd => absurd (hs.registry.past _ hd) (Nat.lt_irrefl _)⟩
    · obtain ⟨hlt, hkept⟩ := hs.registry.registered n r hr
      exact ⟨hlt.trans (Nat.lt_succ_self _), hkept⟩
  · rcases toolAdded_registry hn with ⟨rfl, rfl⟩ | ⟨-, hn⟩
    · rcases toolAdded_registry hn' with ⟨rfl, -⟩ | ⟨-, hn'⟩
      · rfl
      · exact absurd rfl (hold hn')
    · rcases toolAdded_registry hn' with ⟨-, rfl⟩ | ⟨-, hn'⟩
      · exact absurd rfl (hold hn)
      · exact hs.registry.once n n' r hn hn'
  · rcases toolAdded_registry hr with ⟨-, rfl⟩ | ⟨-, hr⟩
    · have htool : s.tools.lookup s.nextTool = some tool := htool
      rw [hs.registry.lookup_nextTool] at htool
      cases htool
    · exact hs.registry.named n r tool hr htool

/-- A tool that left the registry is deleted. -/
def toolDeleted (ref : ToolRef) (s : ToolBinder) : ToolBinder :=
  { s with tools := s.tools.erase ref }

theorem RegistryInv.lookup_toolDeleted (hs : RegistryInv s) (hdoomed : ref ∈ s.doomed) {n : String}
    {r : ToolRef} (hr : s.registry.lookup n = some r) :
    (s.toolDeleted ref).tools.lookup r = s.tools.lookup r := by
  refine AList.lookup_erase_ne ?_
  rintro rfl
  exact (hs.registered n r hr).2 hdoomed

theorem MirrorInv.own_toolDeleted (hs : MirrorInv s) (hdoomed : ref ∈ s.doomed) {c : ClientId}
    {n : String} {r : ToolRef} : (s.toolDeleted ref).Own c n r ↔ s.Own c n r := by
  refine and_congr_right fun hr => ?_
  rw [hs.registry.lookup_toolDeleted hdoomed hr]

theorem MirrorInv.toolDeleted (hs : MirrorInv s) (hdoomed : ref ∈ s.doomed) :
    MirrorInv (s.toolDeleted ref) := by
  have hold : ∀ {r tool}, (s.tools.erase ref).lookup r = some tool →
      s.tools.lookup r = some tool := by
    intro r tool hr
    by_cases hrr : r = ref
    · rw [hrr, AList.lookup_erase] at hr
      cases hr
    · exact (AList.lookup_erase_ne hrr).symm.trans hr
  exact hs.registryMoves ⟨fun r tool hr => hs.registry.made r tool (hold hr), hs.registry.past,
    hs.registry.registered, hs.registry.once, fun n r tool hr htool =>
    hs.registry.named n r tool hr (hold htool)⟩ rfl rfl rfl (fun _ _ => hold)
    fun _ _ _ => hs.own_toolDeleted hdoomed

end Clients

/-! ### The code -/

section Code

variable {s : ToolBinder}

/-- A tool of a binding leaves the registry only through the binder, and no server gives one name to
two different tools. -/
def Undisturbed (s : ToolBinder) : BinderEvent → Prop
  | .toolAdded name | .toolRemoved name => s.Unbound name
  | .listed _ tools | .resynced _ (some tools) => Consistent tools
  | _ => True

abbrev undisturbed : Surroundings binderMachine := .only binderMachine Undisturbed

abbrev KeepsMirrorAt {α : Type} (p : Proc BinderSig α) (s : ToolBinder) : Prop :=
  (toolContract MirrorInv).KeepsAt undisturbed.answer p s

theorem keepsMirror_tidy {α : Type} {p : Proc BinderSig α} (h : Tidy p) (hs : MirrorInv s) :
    KeepsMirrorAt p s :=
  keeps_tidy (fun _ _ hs h => hs.same h) (fun _ client hs => hs.clearTools client) h s hs

theorem keepsMirror_addServer (hs : MirrorInv s) (endpoint : ServerEndpoint) :
    KeepsMirrorAt (binderEntry (.addServer endpoint)) s := by
  refine (wp_bind (S := BinderSig) _ _ _ s).mpr ((wp_ite (S := BinderSig) _ _ _ _ _).mpr
    ⟨fun _ => ?_, fun _ => ⟨hs, trivial⟩⟩)
  have hnew : s.nextClient ∉ s.newClient.bindings := fun hc =>
    absurd (hs.fresh _ hc) (Nat.lt_irrefl _)
  have hattached := hs.newClient.attach hnew (Nat.lt_succ_self _) endpoint.name true true
  have hrest := keepsMirror_tidy (tidy_initializeClient s.nextClient) hattached
  have hvisit : wp undisturbed.answer (toolContract MirrorInv)
      (initializeClient s.nextClient >>= fun _ => pure true)
      (fun _ s' => (toolContract MirrorInv).Moves s s')
      (s.newClient.attach s.nextClient endpoint.name true true) :=
    (wp_bind (S := BinderSig) _ _ _ _).mpr (wp_mono hrest fun _ s' hs' => ⟨hs'.1, trivial⟩)
  exact hvisit

theorem keepsMirror_addClient (hs : MirrorInv s) (client : ClientId) (serverName : String)
    (autoReconnect : Bool) : KeepsMirrorAt (addClient client serverName autoReconnect) s := by
  refine (wp_ite (S := BinderSig) _ _ _ _ _).mpr ⟨fun _ => ⟨hs, trivial⟩, fun hfree => ?_⟩
  obtain ⟨halive, hnew⟩ : client ∈ s.alive ∧ client ∉ s.bindings := by
    simpa only [not_or, not_not] using hfree
  have hattached := hs.attach hnew (hs.alive client halive) serverName false autoReconnect
  have hrest := keepsMirror_tidy (tidy_resyncClient client) hattached
  exact wp_mono hrest fun _ s' hs' => ⟨hs'.1, trivial⟩

theorem keepsMirror_entry (hs : MirrorInv s) {e : BinderEvent} (he : undisturbed.event s e) :
    KeepsMirrorAt (binderEntry e) s := by
  cases e with
  | addServer endpoint => exact keepsMirror_addServer hs endpoint
  | addClient client serverName autoReconnect =>
      exact keepsMirror_addClient hs client serverName autoReconnect
  | removeClient client => exact ⟨hs.removeClient client, trivial⟩
  | shutdown => exact keepsMirror_tidy tidy_shutdown hs
  | clientCreated => exact ⟨hs.newClient, trivial⟩
  | clientDestroyed client => exact ⟨(hs.destroyed client).removeClient client, trivial⟩
  | toolsChanged client => exact keepsMirror_tidy (tidy_resyncClient client) hs
  | disconnected client => exact keepsMirror_tidy (tidy_onDisconnected client) hs
  | reconnectTimer timer => exact keepsMirror_tidy (tidy_onReconnectTimer timer) hs
  | connected attempt => exact keepsMirror_tidy (tidy_onConnected attempt) hs
  | listed attempt tools =>
      exact keepsAt_onListed (fun _ _ hs h => hs.same h) hs fun a _ s' hs' =>
        hs'.applyTools a.client he
  | initFailed attempt error => exact keepsMirror_tidy (tidy_onInitFailed attempt error) hs
  | resynced listing tools =>
      refine keepsAt_onResynced (fun _ _ hs h => hs.same h) hs fun list hlist l _ s' hs' => ?_
      subst hlist
      exact hs'.applyTools l.client he
  | toolAdded name => exact ⟨hs.toolAdded he, trivial⟩
  | toolRemoved name => exact ⟨hs.toolRemoved he, trivial⟩
  | toolDeleted ref =>
      refine (wp_modify (S := BinderSig) _ _ s).mpr ⟨?_, trivial⟩
      split
      · rename_i hdoomed
        exact hs.toolDeleted hdoomed
      · exact hs

end Code

theorem mirror_valid : (toolContract MirrorInv).Valid undisturbed :=
  .of_guarded (toolContract_preorder _) (fun _ _ hs he => keepsMirror_entry hs he) nofun

theorem mirrorInv_init : MirrorInv {} where
  registry := ⟨nofun, nofun, nofun, nofun, nofun⟩
  lists := nofun
  serverName := nofun
  bound _ _ _ hown := absurd hown.1 nofun
  fresh _ hc := absurd hc (AList.notMem_empty _)
  alive _ hc := absurd hc (Finset.notMem_empty _)

theorem consistent_of_nodup {list : List ToolInfo} (h : (list.map (·.name)).Nodup) :
    Consistent list := by
  intro info hinfo info' hinfo' hname
  rw [List.inj_on_of_nodup_map h hinfo hinfo' hname]

/-- Whenever a list is applied the registry mirrors it, applying it again changes nothing, and
clearing the binding takes its tools from the registry and no others. Since the binder was last
entered it may have changed flags of its bindings, and what it waits for. -/
theorem applyTools_mirrors {c : Config BinderSig} (hrun : Reaches undisturbed (.idle {}) c)
    (hw : c.Waiting) {s : ToolBinder} (hsame : SameTools c.state s) {client : ClientId}
    {binding : Binding} (hb : s.bindings.lookup client = some binding) {list : List ToolInfo}
    (hdistinct : (list.map (·.name)).Nodup) :
    Mirrored s client binding.name list (s.applyTools client list) ∧
      ((s.applyTools client list).applyTools client list).registry =
        (s.applyTools client list).registry ∧
      s.ClearedOf client (s.clearTools client) := by
  have hs := (mirror_valid.waiting mirrorInv_init hrun hw).same hsame
  have hconsistent := consistent_of_nodup hdistinct
  obtain ⟨next, hmirrored, hbindings, -⟩ := hs.applied hb hconsistent
  refine ⟨hmirrored.toMirrored, ?_, hs.clearedOf client⟩
  have hb' : (s.applyTools client list).bindings.lookup client =
      some { binding with tools := next } := by
    rw [hbindings]
    exact AList.lookup_insert _
  refine ((hs.applyTools client hconsistent).applyTools_again hb' (fun info hinfo => ?_)
    fun n r hown => ?_).1
  · refine (hmirrored.listed info hinfo).imp_left fun hforeign => ?_
    obtain ⟨r, hr, hnot⟩ := hforeign
    obtain ⟨hr', htool, -⟩ := hmirrored.others _ r hr hnot
    refine ⟨r, hr', fun hown => hnot ⟨hr, ?_⟩⟩
    rw [← htool]
    exact hown.2
  · obtain ⟨info, hinfo, hn, -⟩ := hmirrored.only n r hown
    exact ⟨info, hinfo, hn⟩

/-- A tool of another provider takes the name of one of the tools of a server. -/
def gitMoves : List (Move binderMachine) :=
  [.event .clientCreated, .event (.toolAdded "git_log"), .event (.addClient 0 "git" true),
    .answer fun _ => (), .event (.resynced 0 (some [{ name := "status" }, { name := "log" }])),
    .answer fun _ => ()]

def gitRun : Config BinderSig := play binderMachine 0 gitMoves (.idle {})

/-- The next list of the server. -/
def gitTools : List ToolInfo := [{ name := "diff" }, { name := "log" }]

theorem applyTools_mirrors_git :
    ∃ binding, Reaches undisturbed (.idle {}) gitRun ∧ gitRun.Waiting ∧
      gitRun.state.bindings.lookup 0 = some binding ∧
      Mirrored gitRun.state 0 binding.name gitTools (gitRun.state.applyTools 0 gitTools) ∧
        ((gitRun.state.applyTools 0 gitTools).applyTools 0 gitTools).registry =
          (gitRun.state.applyTools 0 gitTools).registry ∧
        gitRun.state.ClearedOf 0 (gitRun.state.clearTools 0) := by
  have hplay : Playable undisturbed 0 gitMoves (.idle {}) :=
    ⟨trivial, nofun, trivial, trivial, consistent_of_nodup (by decide), trivial, trivial⟩
  have hrun : Reaches undisturbed (.idle {}) gitRun := reaches_play hplay
  have hw : gitRun.Waiting := Or.inl rfl
  exact ⟨_, hrun, hw, rfl, applyTools_mirrors hrun hw (SameTools.refl _) rfl (by decide)⟩

end ToolBinder

end LLMQore.Mcp
