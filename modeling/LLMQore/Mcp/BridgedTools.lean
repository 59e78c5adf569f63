import LLMQore.Mcp.Reconnects
import LLMQore.Mcp.BinderUpdates
import LLMQore.Rpc.Session

/-!
# LLMQore.Mcp.BridgedTools

The tools a bridge serves: those its binder has put into the registry of its server.

A bridge has no tools but those of its upstream servers, and drops no server. Its registry is
one name space, and a name is made of the name of a server and that of one of its tools; a name
that is taken is skipped. Whether every tool is served is then a question of the names alone,
whatever happens in whatever order (`bridged_iff`).
-/

namespace LLMQore.Mcp

open Reentrant McpTypes Rpc

/-! ### The server's side -/

/-- `McpRemoteTool::displayName`. -/
def McpRemoteTool.displayName (tool : McpRemoteTool) : String :=
  if tool.info.title.isEmpty then tool.info.name else tool.info.title

/-- What becomes of a call of a tool. -/
inductive ToolCallOutcome where
  | failed (code : Int) (message : String)
  /-- The result is an error. -/
  | error (text : String)
  /-- The call is forwarded to a server. -/
  | forwarded (client : ClientId) (toolName : String) (arguments : JsonObject)

namespace McpServer

/-- `collectTools`, with the tools of the registry only. -/
def collectTools (s : ToolBinder) : AList (fun _ : String => McpRemoteTool) :=
  s.registry.entries.foldl
    (fun merged entry =>
      match s.tools.lookup entry.2 with
      | none => merged
      | some tool => merged.insert tool.id tool) ∅

/-- What `tools/list` says of a tool. -/
def toolInfo (tool : McpRemoteTool) : ToolInfo where
  name := tool.id
  description := tool.info.description
  inputSchema := tool.info.inputSchema
  title := if tool.displayName ≠ tool.id then tool.displayName else ""

/-- `tools/list`. -/
def toolsList (s : ToolBinder) : List ToolInfo :=
  (collectTools s).entries.map fun entry => toolInfo entry.2

/-- `findTool`, with the tools of the registry only. -/
def findTool (s : ToolBinder) (name : String) : Option McpRemoteTool :=
  (s.registry.lookup name).bind s.tools.lookup

/-- `McpRemoteTool::executeAsync`. -/
def executeAsync (s : ToolBinder) (tool : McpRemoteTool) (input : JsonObject) : ToolCallOutcome :=
  if tool.client ∈ s.alive then .forwarded tool.client tool.info.name input
  else .error "MCP client is not available"

/-- `tools/call`. -/
def toolsCall (s : ToolBinder) (params : JsonObject) : ToolCallOutcome :=
  let name := (params.value "name").toString
  let args := (params.value "arguments").toObject
  match findTool s name with
  | none => .failed ErrorCode.methodNotFound s!"Tool not found: {name}"
  | some tool => executeAsync s tool args

end McpServer

/-! ### What holds of a run -/

/-- The upstream servers: their names, and the tools they list. -/
structure Upstreams where
  serverName : ClientId → String
  listed : ClientId → List ToolInfo

/-- The name that is made for a tool of a server. -/
def Upstreams.exposedName (u : Upstreams) (client : ClientId) (info : ToolInfo) : String :=
  composeId (u.serverName client) info.name

namespace ToolBinder

/-- Each tool of each server there is a binding for. -/
def pairs (s : ToolBinder) (u : Upstreams) : List (ClientId × ToolInfo) :=
  s.bindings.keys.flatMap fun client => (u.listed client).map fun info => (client, info)

/-- The names made for them. -/
def exposedNames (s : ToolBinder) (u : Upstreams) : List String :=
  s.bindings.keys.flatMap fun client => (u.listed client).map (u.exposedName client)

/-- Was what is listed by the server the last that became of the tools of a binding? -/
def syncedIn (client : ClientId) : List BinderObservation → Bool
  | .applied c _ :: earlier => if c = client then true else syncedIn client earlier
  | .cleared c :: earlier => if c = client then false else syncedIn client earlier
  | [] => false

/-- All servers have synced. -/
def AllSynced (s : ToolBinder) : Prop := ∀ client ∈ s.bindings, syncedIn client s.history = true

/-- The server lists one tool for each tool of each upstream server, under the name made for it,
and forwards a call of it, under its original name, to that server. -/
structure Bridged (s : ToolBinder) (u : Upstreams) : Prop where
  once : ((McpServer.toolsList s).map (·.name)).Perm (s.exposedNames u)
  forwards : ∀ pair ∈ s.pairs u, ∀ params : JsonObject,
    (params.value "name").toString = u.exposedName pair.1 pair.2 →
    McpServer.toolsCall s params =
      .forwarded pair.1 pair.2.name (params.value "arguments").toObject

end ToolBinder

/-- A bridge over the upstream servers: each lists its tools, no binding is dropped, and nobody
else uses the registry. -/
def bridge (u : Upstreams) : Surroundings binderMachine :=
  .guarded binderMachine
    (fun s e => match e with
      | .addServer endpoint => endpoint.name = u.serverName s.nextClient
      | .addClient client serverName _ => serverName = u.serverName client
      | .listed attempt tools =>
          ∀ a, s.attempts.lookup attempt = some a → tools = u.listed a.client
      | .resynced listing (some tools) =>
          ∀ l, s.listings.lookup listing = some l → tools = u.listed l.client
      | .removeClient _ | .clientDestroyed _ | .toolAdded _ | .toolRemoved _ => False
      | _ => True)
    fun _ _ _ => True

/-! ### The names of tools -/

namespace ToolBinder

/-- Different tools are given different names. -/
structure Apart (s : ToolBinder) (u : Upstreams) : Prop where
  own : ∀ client ∈ s.bindings, ((u.listed client).map (u.exposedName client)).Nodup
  others : ∀ c₁ ∈ s.bindings, ∀ c₂ ∈ s.bindings, c₁ ≠ c₂ → ∀ i₁ ∈ u.listed c₁,
    ∀ i₂ ∈ u.listed c₂, u.exposedName c₁ i₁ ≠ u.exposedName c₂ i₂

theorem apart_iff (s : ToolBinder) (u : Upstreams) : s.Apart u ↔ (s.exposedNames u).Nodup := by
  have hkeys := s.bindings.keys_nodup
  have hdisjoint : ∀ c₁ c₂, List.Disjoint ((u.listed c₁).map (u.exposedName c₁))
      ((u.listed c₂).map (u.exposedName c₂)) ↔
      ∀ i₁ ∈ u.listed c₁, ∀ i₂ ∈ u.listed c₂, u.exposedName c₁ i₁ ≠ u.exposedName c₂ i₂ := by
    intro c₁ c₂
    refine ⟨fun h i₁ h₁ i₂ h₂ he => ?_, fun h name hm₁ hm₂ => ?_⟩
    · exact h (List.mem_map_of_mem h₁) (he ▸ List.mem_map_of_mem h₂)
    · obtain ⟨i₁, h₁, rfl⟩ := List.mem_map.mp hm₁
      obtain ⟨i₂, h₂, he⟩ := List.mem_map.mp hm₂
      exact h i₁ h₁ i₂ h₂ he.symm
  rw [exposedNames, List.nodup_flatMap]
  refine ⟨fun h => ⟨fun c hc => h.own c (AList.mem_keys.mpr hc), ?_⟩, fun h => ⟨fun c hc => ?_, ?_⟩⟩
  · refine hkeys.pairwise_of_forall_ne fun c₁ h₁ c₂ h₂ hne => (hdisjoint c₁ c₂).mpr ?_
    exact h.others c₁ (AList.mem_keys.mpr h₁) c₂ (AList.mem_keys.mpr h₂) hne
  · exact h.1 c (AList.mem_keys.mp hc)
  · intro c₁ h₁ c₂ h₂ hne
    refine (hdisjoint c₁ c₂).mp ?_
    have hsymm : Std.Symm (Function.onFun List.Disjoint fun c =>
        (u.listed c).map (u.exposedName c)) := ⟨fun _ _ hd => hd.symm⟩
    exact h.2.forall (AList.mem_keys.mp h₁) (AList.mem_keys.mp h₂) hne

/-- Fewer bindings have fewer names. -/
theorem Apart.of_le {s s' : ToolBinder} {u : Upstreams} (h : s'.Apart u)
    (hle : ∀ c ∈ s.bindings, c ∈ s'.bindings) : s.Apart u where
  own c hc := h.own c (hle c hc)
  others c₁ h₁ c₂ h₂ := h.others c₁ (hle c₁ h₁) c₂ (hle c₂ h₂)

/-- A tool of a server is known by its name. -/
theorem Apart.eq_of_name {s : ToolBinder} {u : Upstreams} (h : s.Apart u) {client : ClientId}
    (hc : client ∈ s.bindings) {i₁ i₂ : ToolInfo} (h₁ : i₁ ∈ u.listed client)
    (h₂ : i₂ ∈ u.listed client) (hname : u.exposedName client i₁ = u.exposedName client i₂) :
    i₁ = i₂ :=
  List.inj_on_of_nodup_map (h.own client hc) h₁ h₂ hname

/-! ### The invariant -/

/-- A tool of a binding, in the registry under its name. -/
structure Placed (s : ToolBinder) (u : Upstreams) (client : ClientId) (info : ToolInfo)
    (ref : ToolRef) : Prop where
  mem : info ∈ u.listed client
  tool : s.tools.lookup ref = some ⟨client, u.serverName client, info⟩
  registered : s.registry.lookup (u.exposedName client info) = some ref

/-- What holds of the registry where different tools have different names. -/
structure Filled (s : ToolBinder) (u : Upstreams) : Prop where
  made : ∀ ref tool, s.tools.lookup ref = some tool → ref < s.nextTool
  past : ∀ ref ∈ s.doomed, ref < s.nextTool
  kept : ∀ name ref, s.registry.lookup name = some ref → ref ∉ s.doomed
  registered : ∀ name ref, s.registry.lookup name = some ref →
    ∃ client binding info, s.bindings.lookup client = some binding ∧ ref ∈ binding.tools ∧
      s.Placed u client info ref ∧ name = u.exposedName client info
  owned : ∀ client binding, s.bindings.lookup client = some binding → ∀ ref ∈ binding.tools,
    ∃ info, s.Placed u client info ref
  synced : ∀ client, syncedIn client s.history = true → ∀ info ∈ u.listed client,
    ∃ ref, s.Placed u client info ref

structure BridgeInv (u : Upstreams) (s : ToolBinder) : Prop where
  named : ∀ client binding, s.bindings.lookup client = some binding →
    binding.name = u.serverName client
  living : ∀ client ∈ s.bindings, client ∈ s.alive
  alive : ∀ client ∈ s.alive, client < s.nextClient
  bound : ∀ client, syncedIn client s.history = true → client ∈ s.bindings
  filled : s.Apart u → s.Filled u

section Applying

variable {s : ToolBinder} {u : Upstreams} {client : ClientId} {binding : Binding}

/-! ### Applying a list -/

/-- What the loop of `applyTools` has done when it has been over the tools `past`. -/
structure Applied (s : ToolBinder) (u : Upstreams) (client : ClientId) (past : List ToolInfo)
    (acc : ToolBinder × List ToolRef) : Prop where
  tools : ∀ ref tool, s.tools.lookup ref = some tool → acc.1.tools.lookup ref = some tool
  made : ∀ ref tool, acc.1.tools.lookup ref = some tool → ref < acc.1.nextTool
  doomed : acc.1.doomed = s.doomed
  nextTool : s.nextTool ≤ acc.1.nextTool
  fresh : ∀ name ref, acc.1.registry.lookup name = some ref →
    s.registry.lookup name = some ref ∨ s.nextTool ≤ ref
  others : ∀ name, (∀ info ∈ past, u.exposedName client info ≠ name) →
    acc.1.registry.lookup name = s.registry.lookup name
  placed : ∀ info ∈ past, ∃ ref ∈ acc.2, acc.1.Placed u client info ref
  next : ∀ ref ∈ acc.2, ∃ info ∈ past, acc.1.Placed u client info ref

/-- The tool of the binding that is listed again is kept. -/
theorem Filled.mine (hs : s.Filled u) (hapart : s.Apart u)
    (hb : s.bindings.lookup client = some binding) {info : ToolInfo}
    (hinfo : info ∈ u.listed client) {ref : ToolRef}
    (hmine : (s.currentTools binding).lookup (u.exposedName client info) = some ref) :
    s.Placed u client info ref := by
  obtain ⟨hmem, tool, htool, hid⟩ := currentTools_spec hmine
  obtain ⟨i, hplaced⟩ := hs.owned client binding hb ref hmem
  obtain rfl := Option.some.inj (hplaced.tool.symm.trans htool)
  have hbound : client ∈ s.bindings := AList.lookup_isSome.mp (by rw [hb]; rfl)
  obtain rfl := hapart.eq_of_name hbound hplaced.mem hinfo hid
  exact hplaced

/-- A tool of the binding that is new finds its name free. -/
theorem Filled.free (hs : s.Filled u) (hapart : s.Apart u)
    (hb : s.bindings.lookup client = some binding) {info : ToolInfo}
    (hinfo : info ∈ u.listed client)
    (hnone : (s.currentTools binding).lookup (u.exposedName client info) = none) :
    s.registry.lookup (u.exposedName client info) = none := by
  have hbound : client ∈ s.bindings := AList.lookup_isSome.mp (by rw [hb]; rfl)
  cases href : s.registry.lookup (u.exposedName client info) with
  | none => rfl
  | some ref =>
      obtain ⟨c, b, i, hc, hmem, hplaced, hname⟩ := hs.registered _ ref href
      have hc' : c ∈ s.bindings := AList.lookup_isSome.mp (by rw [hc]; rfl)
      by_cases hcc : client = c
      · subst hcc
        obtain rfl := Option.some.inj (hb.symm.trans hc)
        have hsome := currentTools_isSome hmem hplaced.tool
        have hid : McpRemoteTool.id ⟨client, u.serverName client, i⟩ = u.exposedName client info :=
          hname.symm
        rw [hid, hnone] at hsome
        exact absurd hsome Bool.false_ne_true
      · exact absurd hname (hapart.others client hbound c hc' hcc info hinfo i hplaced.mem)

/-- The loop goes over one tool more. -/
theorem Applied.step (hs : s.Filled u) (hapart : s.Apart u)
    (hb : s.bindings.lookup client = some binding)
    (hname : binding.name = u.serverName client) {past : List ToolInfo}
    {acc : ToolBinder × List ToolRef} (h : Applied s u client past acc) {info : ToolInfo}
    (hinfo : info ∈ u.listed client)
    (hnew : ∀ i ∈ past, u.exposedName client i ≠ u.exposedName client info) :
    Applied s u client (past ++ [info])
      (applyTool client binding (s.currentTools binding) acc info) := by
  obtain ⟨s', next⟩ := acc
  have hid : composeId binding.name info.name = u.exposedName client info := by rw [hname]; rfl
  have hregistry := h.others _ hnew
  unfold applyTool
  dsimp only
  rw [hid]
  cases hmine : (s.currentTools binding).lookup (u.exposedName client info) with
  | some ref =>
      have hplaced := hs.mine hapart hb hinfo hmine
      have htool := h.tools ref _ hplaced.tool
      have hunchanged : s'.unchangedTool (some ref) info = some ref := by
        unfold unchangedTool
        dsimp only
        rw [htool]
        exact if_pos rfl
      rw [hunchanged]
      have hplaced' : s'.Placed u client info ref :=
        ⟨hinfo, htool, hregistry.trans hplaced.registered⟩
      refine { h with others := fun n hn => ?_, placed := fun i hi => ?_, next := fun r hr => ?_ }
      · exact h.others n fun i hi => hn i (List.mem_append_left _ hi)
      · rcases List.mem_append.mp hi with hi | hi
        · obtain ⟨r, hr, hp⟩ := h.placed i hi
          exact ⟨r, List.mem_append_left _ hr, hp⟩
        · obtain rfl := List.mem_singleton.mp hi
          exact ⟨ref, List.mem_append_right _ (List.mem_singleton_self _), hplaced'⟩
      · rcases List.mem_append.mp hr with hr | hr
        · obtain ⟨i, hi, hp⟩ := h.next r hr
          exact ⟨i, List.mem_append_left _ hi, hp⟩
        · obtain rfl := List.mem_singleton.mp hr
          exact ⟨info, List.mem_append_right _ (List.mem_singleton_self _), hplaced'⟩
  | none =>
      have hfree : s'.registry.lookup (u.exposedName client info) = none :=
        hregistry.trans (hs.free hapart hb hinfo hmine)
      have hunchanged : s'.unchangedTool none info = none := rfl
      rw [hunchanged, hfree]
      dsimp only
      rw [if_neg (by simp), if_neg (by simp), hname]
      -- the new tool takes a name that was free, so that nothing else is moved
      have htools : ∀ ref tool, s'.tools.lookup ref = some tool →
          (s'.tools.insert s'.nextTool ⟨client, u.serverName client, info⟩).lookup ref =
            some tool := by
        intro ref tool hr
        exact (AList.lookup_insert_ne (h.made ref tool hr).ne).trans hr
      have hplaced : ∀ i ∈ past, ∀ ref, s'.Placed u client i ref →
          (s'.addTool ⟨client, u.serverName client, info⟩).Placed u client i ref := by
        intro i hi ref hp
        exact ⟨hp.mem, htools ref _ hp.tool,
          (AList.lookup_insert_ne (hnew i hi)).trans hp.registered⟩
      have hadded : (s'.addTool ⟨client, u.serverName client, info⟩).Placed u client info
          s'.nextTool := ⟨hinfo, AList.lookup_insert _, AList.lookup_insert _⟩
      refine
        { tools := fun ref tool hr => htools ref tool (h.tools ref tool hr)
          made := fun ref tool hr => ?_
          doomed := h.doomed
          nextTool := h.nextTool.trans (Nat.le_succ _)
          fresh := fun n ref hr => ?_
          others := fun n hn => ?_
          placed := fun i hi => ?_
          next := fun r hr => ?_ }
      · have hr : (s'.tools.insert s'.nextTool ⟨client, u.serverName client, info⟩).lookup ref =
            some tool := hr
        by_cases hnt : ref = s'.nextTool
        · exact lt_of_eq_of_lt hnt (Nat.lt_succ_self _)
        · rw [AList.lookup_insert_ne hnt] at hr
          exact (h.made ref tool hr).trans (Nat.lt_succ_self _)
      · have hr : (s'.registry.insert (u.exposedName client info) s'.nextTool).lookup n =
            some ref := hr
        by_cases hn : n = u.exposedName client info
        · rw [hn, AList.lookup_insert] at hr
          obtain rfl := Option.some.inj hr
          exact .inr h.nextTool
        · rw [AList.lookup_insert_ne hn] at hr
          exact h.fresh n ref hr
      · have hne : n ≠ u.exposedName client info :=
          (hn info (List.mem_append_right _ (List.mem_singleton_self _))).symm
        exact (AList.lookup_insert_ne hne).trans
          (h.others n fun i hi => hn i (List.mem_append_left _ hi))
      · rcases List.mem_append.mp hi with hi | hi
        · obtain ⟨r, hr, hp⟩ := h.placed i hi
          exact ⟨r, List.mem_append_left _ hr, hplaced i hi r hp⟩
        · obtain rfl := List.mem_singleton.mp hi
          exact ⟨_, List.mem_append_right _ (List.mem_singleton_self _), hadded⟩
      · rcases List.mem_append.mp hr with hr | hr
        · obtain ⟨i, hi, hp⟩ := h.next r hr
          exact ⟨i, List.mem_append_left _ hi, hplaced i hi r hp⟩
        · obtain rfl := List.mem_singleton.mp hr
          exact ⟨info, List.mem_append_right _ (List.mem_singleton_self _), hadded⟩

/-- The loop of `applyTools`. -/
theorem applied_foldl (hs : s.Filled u) (hapart : s.Apart u)
    (hb : s.bindings.lookup client = some binding) (hname : binding.name = u.serverName client)
    {past rest : List ToolInfo} (hlisted : u.listed client = past ++ rest)
    {acc : ToolBinder × List ToolRef} (h : Applied s u client past acc) :
    Applied s u client (past ++ rest)
      (rest.foldl (applyTool client binding (s.currentTools binding)) acc) := by
  have hbound : client ∈ s.bindings := AList.lookup_isSome.mp (by rw [hb]; rfl)
  induction rest generalizing past acc with
  | nil =>
      rw [List.append_nil]
      exact h
  | cons info rest ih =>
      have hnodup := hapart.own client hbound
      rw [hlisted, List.map_append, List.nodup_append] at hnodup
      have hstep := h.step hs hapart hb hname
        (by rw [hlisted]; exact List.mem_append_right _ List.mem_cons_self) fun i hi => by
          exact hnodup.2.2 _ (List.mem_map_of_mem hi) _
            (List.mem_map_of_mem List.mem_cons_self)
      have hrest := ih (by rw [hlisted, List.append_assoc]; rfl) hstep
      rwa [List.append_assoc] at hrest

/-- The registry has no tool of the binding that is not listed any more. -/
theorem dropStale_foldl (hs : s.Filled u) (hb : s.bindings.lookup client = some binding)
    (hname : binding.name = u.serverName client) (s' : ToolBinder) :
    (s.currentTools binding).entries.foldl
      (dropStale ((u.listed client).map fun info => composeId binding.name info.name)) s' = s' := by
  have hloop : ∀ entries : List (Sigma fun _ : String => ToolRef),
      (∀ e ∈ entries, e ∈ (s.currentTools binding).entries) →
      entries.foldl
        (dropStale ((u.listed client).map fun info => composeId binding.name info.name)) s' = s' := by
    intro entries
    induction entries with
    | nil => exact fun _ => rfl
    | cons e rest ih =>
        intro h
        obtain ⟨hmem, tool, htool, hid⟩ :=
          currentTools_spec (AList.mem_lookup_iff.mpr (h e List.mem_cons_self))
        obtain ⟨info, hplaced⟩ := hs.owned client binding hb _ hmem
        obtain rfl := Option.some.inj (hplaced.tool.symm.trans htool)
        have hincoming :
            e.1 ∈ (u.listed client).map fun info => composeId binding.name info.name := by
          rw [← hid, hname]
          exact List.mem_map_of_mem hplaced.mem
        have hstep : dropStale
            ((u.listed client).map fun info => composeId binding.name info.name) s' e = s' :=
          if_neg fun hstale => hstale.1 hincoming
        rw [List.foldl_cons, hstep]
        exact ih fun e he => h e (List.mem_cons_of_mem _ he)
  exact hloop _ fun _ he => he

/-- A tool stays where it is when the registry changes under other names. -/
theorem Placed.same {s' : ToolBinder} {info : ToolInfo} {ref : ToolRef}
    (h : s.Placed u client info ref)
    (htools : ∀ tool, s.tools.lookup ref = some tool → s'.tools.lookup ref = some tool)
    (hregistry : s'.registry.lookup (u.exposedName client info) =
      s.registry.lookup (u.exposedName client info)) : s'.Placed u client info ref :=
  ⟨h.mem, htools _ h.tool, hregistry.trans h.registered⟩

theorem syncedIn_applied {c : ClientId} {tools : List ToolInfo} {history : List BinderObservation}
    (h : syncedIn c (.applied client tools :: history) = true) :
    c = client ∨ syncedIn c history = true := by
  unfold syncedIn at h
  split at h
  · rename_i heq
    exact .inl heq.symm
  · exact .inr h

/-- What a server lists is applied: each of its tools is in the registry. -/
theorem Filled.applyTools (hs : s.Filled u) (hapart : s.Apart u)
    (hb : s.bindings.lookup client = some binding)
    (hname : binding.name = u.serverName client) :
    (s.applyTools client (u.listed client)).Filled u := by
  have hbound : client ∈ s.bindings := AList.lookup_isSome.mp (by rw [hb]; rfl)
  have hstart : Applied s u client [] (s, []) :=
    ⟨fun _ _ h => h, hs.made, rfl, Nat.le_refl _, fun _ _ h => .inl h, fun _ _ => rfl,
      fun _ h => absurd h List.not_mem_nil, fun _ h => absurd h List.not_mem_nil⟩
  have hend := applied_foldl hs hapart hb hname (List.nil_append _).symm hstart
  unfold ToolBinder.applyTools
  rw [hb]
  dsimp only
  rw [dropStale_foldl hs hb hname]
  generalize (u.listed client).foldl (applyTool client binding (s.currentTools binding)) (s, []) =
    acc at hend
  obtain ⟨s', next⟩ := acc
  rw [List.nil_append] at hend
  have hlookup : ∀ {c b}, (s.bindings.insert client { binding with tools := next }).lookup c =
      some b → (c = client ∧ b.tools = next) ∨ (c ≠ client ∧ s.bindings.lookup c = some b) := by
    intro c b h
    by_cases hc : c = client
    · rw [hc, AList.lookup_insert] at h
      exact .inl ⟨hc, congrArg Binding.tools (Option.some.inj h).symm⟩
    · exact .inr ⟨hc, (AList.lookup_insert_ne hc).symm.trans h⟩
  -- the tools of the other bindings have other names
  have hother : ∀ {c info ref}, c ∈ s.bindings → c ≠ client → s.Placed u c info ref →
      s'.Placed u c info ref := by
    intro c info ref hc hne hp
    refine hp.same (hend.tools ref) (hend.others _ fun i hi => ?_)
    exact hapart.others client hbound c hc hne.symm i hi info hp.mem
  refine
    { made := hend.made
      past := fun ref hr => ?_
      kept := fun name ref hr hdoomed => ?_
      registered := fun name ref hr => ?_
      owned := fun c b hc ref hr => ?_
      synced := fun c hc info hinfo => ?_ }
  · have hr : ref ∈ s.doomed := by rw [← hend.doomed]; exact hr
    exact lt_of_lt_of_le (hs.past ref hr) hend.nextTool
  · have hdoomed : ref ∈ s.doomed := by rw [← hend.doomed]; exact hdoomed
    rcases hend.fresh name ref hr with hold | hnew
    · exact hs.kept name ref hold hdoomed
    · exact absurd (hs.past ref hdoomed) (Nat.not_lt.mpr hnew)
  · by_cases hlisted : ∃ info ∈ u.listed client, u.exposedName client info = name
    · obtain ⟨info, hinfo, rfl⟩ := hlisted
      obtain ⟨r, hmem, hp⟩ := hend.placed info hinfo
      obtain rfl := Option.some.inj (hp.registered.symm.trans hr)
      exact ⟨client, _, info, AList.lookup_insert _, hmem, ⟨hp.mem, hp.tool, hp.registered⟩, rfl⟩
    · have hold := hend.others name fun info hinfo he => hlisted ⟨info, hinfo, he⟩
      obtain ⟨c, b, info, hc, hmem, hp, rfl⟩ := hs.registered name ref (hold.symm.trans hr)
      have hne : c ≠ client := by
        rintro rfl
        exact hlisted ⟨info, hp.mem, rfl⟩
      have hp' := hother (AList.lookup_isSome.mp (by rw [hc]; rfl)) hne hp
      exact ⟨c, b, info, (AList.lookup_insert_ne hne).trans hc, hmem,
        ⟨hp'.mem, hp'.tool, hp'.registered⟩, rfl⟩
  · rcases hlookup hc with ⟨rfl, hb'⟩ | ⟨hne, hc⟩
    · obtain ⟨info, -, hp⟩ := hend.next ref (hb' ▸ hr)
      exact ⟨info, hp.mem, hp.tool, hp.registered⟩
    · obtain ⟨info, hp⟩ := hs.owned c b hc ref hr
      have hp' := hother (AList.lookup_isSome.mp (by rw [hc]; rfl)) hne hp
      exact ⟨info, hp'.mem, hp'.tool, hp'.registered⟩
  · by_cases hcc : c = client
    · subst hcc
      obtain ⟨ref, -, hp⟩ := hend.placed info hinfo
      exact ⟨ref, hp.mem, hp.tool, hp.registered⟩
    · obtain ⟨ref, hp⟩ := hs.synced c ((syncedIn_applied hc).resolve_left hcc) info hinfo
      obtain ⟨c', b, i, hc', -, hp₂, -⟩ := hs.registered _ ref hp.registered
      obtain ⟨rfl, -⟩ : c' = c ∧ _ := by simpa using hp₂.tool.symm.trans hp.tool
      have hp' := hother (AList.lookup_isSome.mp (by rw [hc']; rfl)) hcc hp
      exact ⟨ref, hp'.mem, hp'.tool, hp'.registered⟩

/-! ### Clearing a binding -/

/-- A tool is in the registry under one name. -/
theorem Filled.name_eq (hs : s.Filled u) {name : String} {info : ToolInfo} {ref : ToolRef}
    (hp : s.Placed u client info ref) (hr : s.registry.lookup name = some ref) :
    name = u.exposedName client info := by
  obtain ⟨c, b, i, -, -, hp', rfl⟩ := hs.registered name ref hr
  obtain ⟨rfl, -, rfl⟩ : c = client ∧ _ ∧ i = info := by simpa using hp'.tool.symm.trans hp.tool
  rfl

/-- What the loop of `clearTools` has done when it has been over the tools `past`. -/
structure Cleared (s : ToolBinder) (past : List ToolRef) (s' : ToolBinder) : Prop where
  tools : s'.tools = s.tools
  nextTool : s'.nextTool = s.nextTool
  registry : ∀ name ref, s'.registry.lookup name = some ref ↔
    s.registry.lookup name = some ref ∧ ref ∉ past
  doomed : ∀ ref ∈ s'.doomed, ref ∈ s.doomed ∨ ref ∈ past

/-- The loop clears one tool more. -/
theorem Cleared.step (hs : s.Filled u) {past : List ToolRef} {s' : ToolBinder}
    (h : Cleared s past s') {info : ToolInfo} {ref : ToolRef} (hp : s.Placed u client info ref) :
    Cleared s (past ++ [ref]) (s'.clearTool ref) := by
  have htool : s'.tools.lookup ref = some ⟨client, u.serverName client, info⟩ := by
    rw [h.tools]
    exact hp.tool
  have hid : McpRemoteTool.id ⟨client, u.serverName client, info⟩ = u.exposedName client info := rfl
  unfold clearTool
  rw [htool]
  dsimp only
  rw [hid]
  split
  · rename_i hreg
    have heq : s'.removeTool (u.exposedName client info) =
        { s' with
          registry := s'.registry.erase (u.exposedName client info)
          doomed := insert ref s'.doomed } := by
      unfold removeTool
      rw [hreg]
    rw [heq]
    refine ⟨h.tools, h.nextTool, fun name r => ?_, fun r hr => ?_⟩
    · rw [List.mem_append, List.mem_singleton, not_or, ← and_assoc, ← h.registry]
      constructor
      · intro herased
        have hr : (s'.registry.erase (u.exposedName client info)).lookup name = some r := herased
        by_cases hn : name = u.exposedName client info
        · rw [hn, AList.lookup_erase] at hr
          cases hr
        · rw [AList.lookup_erase_ne hn] at hr
          refine ⟨hr, ?_⟩
          rintro rfl
          exact hn (hs.name_eq hp ((h.registry name r).mp hr).1)
      · rintro ⟨hr, hne⟩
        have hn : name ≠ u.exposedName client info := by
          rintro rfl
          exact hne (Option.some.inj (hr.symm.trans hreg))
        exact (AList.lookup_erase_ne hn).trans hr
    · rcases Finset.mem_insert.mp hr with rfl | hr
      · exact .inr (List.mem_append_right _ (List.mem_singleton_self _))
      · exact (h.doomed r hr).imp_right fun hm => List.mem_append_left _ hm
  · rename_i hreg
    have hpast : ref ∈ past := by
      by_contra hnot
      exact hreg ((h.registry _ ref).mpr ⟨hp.registered, hnot⟩)
    refine ⟨h.tools, h.nextTool, fun name r => ?_, fun r hr =>
      (h.doomed r hr).imp_right fun hm => List.mem_append_left _ hm⟩
    rw [List.mem_append, List.mem_singleton, not_or, ← and_assoc, ← h.registry]
    refine ⟨fun hr => ⟨hr, ?_⟩, fun hr => hr.1⟩
    rintro rfl
    exact ((h.registry name r).mp hr).2 hpast

theorem cleared_foldl (hs : s.Filled u) {refs : List ToolRef}
    (hrefs : ∀ ref ∈ refs, ∃ info, s.Placed u client info ref) {past : List ToolRef}
    {s' : ToolBinder} (h : Cleared s past s') : Cleared s (past ++ refs) (refs.foldl clearTool s') := by
  induction refs generalizing past s' with
  | nil =>
      rw [List.append_nil]
      exact h
  | cons ref rest ih =>
      obtain ⟨info, hp⟩ := hrefs ref List.mem_cons_self
      have hrest := ih (fun r hr => hrefs r (List.mem_cons_of_mem _ hr)) (h.step hs hp)
      rwa [List.append_assoc] at hrest

theorem syncedIn_cleared {c : ClientId} {history : List BinderObservation}
    (h : syncedIn c (.cleared client :: history) = true) :
    c ≠ client ∧ syncedIn c history = true := by
  unfold syncedIn at h
  split at h
  · cases h
  · rename_i hne
    exact ⟨fun heq => hne heq.symm, h⟩

/-- The tools of a binding leave the registry, and those of the others stay. -/
theorem Filled.clearTools (hs : s.Filled u) (client : ClientId) : (s.clearTools client).Filled u := by
  unfold ToolBinder.clearTools
  cases hb : s.bindings.lookup client with
  | none => exact hs
  | some binding =>
      have hstart : Cleared s [] s :=
        ⟨rfl, rfl, fun _ _ => ⟨fun h => ⟨h, List.not_mem_nil⟩, fun h => h.1⟩, fun _ h => .inl h⟩
      have hend := cleared_foldl hs (hs.owned client binding hb) hstart
      rw [List.nil_append] at hend
      dsimp only
      generalize binding.tools.foldl clearTool s = s' at hend
      have hother : ∀ {c info ref}, c ≠ client → s.Placed u c info ref → s'.Placed u c info ref := by
        intro c info ref hne hp
        refine ⟨hp.mem, by rw [hend.tools]; exact hp.tool,
          (hend.registry _ ref).mpr ⟨hp.registered, fun hmem => ?_⟩⟩
        obtain ⟨i, hp'⟩ := hs.owned client binding hb ref hmem
        have hclient := congrArg McpRemoteTool.client
          (Option.some.inj (hp.tool.symm.trans hp'.tool))
        exact hne hclient
      refine
        { made := fun ref tool hr => ?_
          past := fun ref hr => ?_
          kept := fun name ref hr hdoomed => ?_
          registered := fun name ref hr => ?_
          owned := fun c b hc ref hr => ?_
          synced := fun c hc info hinfo => ?_ }
      · exact lt_of_lt_of_eq (hs.made ref tool (by rw [← hend.tools]; exact hr)) hend.nextTool.symm
      · refine lt_of_lt_of_eq ?_ hend.nextTool.symm
        rcases hend.doomed ref hr with hr | hr
        · exact hs.past ref hr
        · obtain ⟨i, hp⟩ := hs.owned client binding hb ref hr
          exact hs.made ref _ hp.tool
      · obtain ⟨hold, hnot⟩ := (hend.registry name ref).mp hr
        exact (hend.doomed ref hdoomed).elim (hs.kept name ref hold) hnot
      · obtain ⟨hold, hnot⟩ := (hend.registry name ref).mp hr
        obtain ⟨c, b, info, hc, hmem, hp, rfl⟩ := hs.registered name ref hold
        have hne : c ≠ client := by
          rintro rfl
          obtain rfl := Option.some.inj (hb.symm.trans hc)
          exact hnot hmem
        have hp' := hother hne hp
        exact ⟨c, b, info, (AList.lookup_insert_ne hne).trans hc, hmem,
          ⟨hp'.mem, hp'.tool, hp'.registered⟩, rfl⟩
      · have hc : (s.bindings.insert client { binding with tools := [] }).lookup c = some b := hc
        by_cases hcc : c = client
        · rw [hcc, AList.lookup_insert] at hc
          obtain rfl := Option.some.inj hc
          exact absurd hr List.not_mem_nil
        · rw [AList.lookup_insert_ne hcc] at hc
          obtain ⟨info, hp⟩ := hs.owned c b hc ref hr
          have hp' := hother hcc hp
          exact ⟨info, hp'.mem, hp'.tool, hp'.registered⟩
      · obtain ⟨hne, hc⟩ := syncedIn_cleared hc
        obtain ⟨ref, hp⟩ := hs.synced c hc info hinfo
        have hp' := hother hne hp
        exact ⟨ref, hp'.mem, hp'.tool, hp'.registered⟩

end Applying

/-! ### Updates that keep the invariant -/

section Updates

variable {u : Upstreams} {s s' : ToolBinder}

/-- The registry is filled as before where the bindings have their tools. -/
theorem Filled.same (hs : s.Filled u) (hregistry : s'.registry = s.registry)
    (htools : s'.tools = s.tools) (hdoomed : s'.doomed = s.doomed)
    (hnext : s'.nextTool = s.nextTool) (hhistory : s'.history = s.history)
    (hbindings : ∀ c b', s'.bindings.lookup c = some b' → ∀ ref ∈ b'.tools,
      ∃ b, s.bindings.lookup c = some b ∧ ref ∈ b.tools)
    (hmem : ∀ c b, s.bindings.lookup c = some b →
      ∃ b', s'.bindings.lookup c = some b' ∧ b'.tools = b.tools) : s'.Filled u := by
  have hplaced : ∀ {c info ref}, s.Placed u c info ref → s'.Placed u c info ref := by
    intro c info ref hp
    exact ⟨hp.mem, by rw [htools]; exact hp.tool, by rw [hregistry]; exact hp.registered⟩
  refine
    { made := by rw [htools, hnext]; exact hs.made
      past := by rw [hdoomed, hnext]; exact hs.past
      kept := by rw [hregistry, hdoomed]; exact hs.kept
      registered := fun name ref hr => ?_
      owned := fun c b' hc ref hr => ?_
      synced := fun c hc info hinfo => ?_ }
  · rw [hregistry] at hr
    obtain ⟨c, b, info, hc, hmem', hp, rfl⟩ := hs.registered name ref hr
    obtain ⟨b', hc', heq⟩ := hmem c b hc
    exact ⟨c, b', info, hc', heq ▸ hmem', hplaced hp, rfl⟩
  · obtain ⟨b, hc, hr⟩ := hbindings c b' hc ref hr
    obtain ⟨info, hp⟩ := hs.owned c b hc ref hr
    exact ⟨info, hplaced hp⟩
  · rw [hhistory] at hc
    obtain ⟨ref, hp⟩ := hs.synced c hc info hinfo
    exact ⟨ref, hplaced hp⟩

theorem BridgeInv.same (hs : BridgeInv u s) (h : SameTools s s') : BridgeInv u s' where
  named c b' hc := by
    obtain ⟨b, hb, hname, -⟩ := h.bindings c b' hc
    exact hname.trans (hs.named c b hb)
  living c hc := by
    obtain ⟨b', hc⟩ := lookup_of_mem hc
    obtain ⟨b, hb, -⟩ := h.bindings c b' hc
    rw [h.alive]
    exact hs.living c (mem_of_lookup hb)
  alive := by
    rw [h.alive, h.nextClient]
    exact hs.alive
  bound c hc := by
    rw [h.history] at hc
    obtain ⟨b, hb⟩ := lookup_of_mem (hs.bound c hc)
    obtain ⟨b', hb', -⟩ := h.mem c b hb
    exact mem_of_lookup hb'
  filled hapart := by
    have hold : s.Apart u := hapart.of_le fun c hc => by
      obtain ⟨b, hb⟩ := lookup_of_mem hc
      obtain ⟨b', hb', -⟩ := h.mem c b hb
      exact mem_of_lookup hb'
    refine (hs.filled hold).same h.registry h.tools h.doomed h.nextTool h.history
      (fun c b' hc ref hr => ?_) h.mem
    obtain ⟨b, hb, -, heq⟩ := h.bindings c b' hc
    exact ⟨b, hb, heq ▸ hr⟩

/-- A binding is given other tools. -/
theorem BridgeInv.retool (hs : BridgeInv u s) {client : ClientId} {binding : Binding}
    (hb : s.bindings.lookup client = some binding) {next : List ToolRef}
    (hbindings : s'.bindings = s.bindings.insert client { binding with tools := next })
    (halive : s'.alive = s.alive) (hclient : s'.nextClient = s.nextClient)
    (hhistory : ∀ c, syncedIn c s'.history = true → c = client ∨ syncedIn c s.history = true)
    (hfilled : s.Apart u → s.Filled u → s'.Filled u) : BridgeInv u s' := by
  have hbound := mem_of_lookup hb
  have hmem : ∀ c, c ∈ s'.bindings ↔ c ∈ s.bindings := by
    intro c
    rw [hbindings, AList.mem_insert]
    refine ⟨fun h => h.elim (fun h => h ▸ hbound) fun h => h, .inr⟩
  refine ⟨fun c b' hc => ?_, fun c hc => ?_, ?_, fun c hc => ?_, fun hapart => ?_⟩
  · rw [hbindings] at hc
    by_cases hcc : c = client
    · rw [hcc, AList.lookup_insert] at hc
      obtain rfl := Option.some.inj hc
      exact hcc ▸ hs.named client binding hb
    · rw [AList.lookup_insert_ne hcc] at hc
      exact hs.named c b' hc
  · rw [halive]
    exact hs.living c ((hmem c).mp hc)
  · rw [halive, hclient]
    exact hs.alive
  · refine (hmem c).mpr ?_
    rcases hhistory c hc with rfl | hc
    · exact hbound
    · exact hs.bound c hc
  · have hold := hapart.of_le fun c hc => (hmem c).mpr hc
    exact hfilled hold (hs.filled hold)

theorem BridgeInv.applyTools (hs : BridgeInv u s) (client : ClientId) :
    BridgeInv u (s.applyTools client (u.listed client)) := by
  cases hb : s.bindings.lookup client with
  | none =>
      have heq : s.applyTools client (u.listed client) = s := by
        unfold ToolBinder.applyTools
        rw [hb]
      rwa [heq]
  | some binding =>
      have hloop := (sameBindings_applyTools_loop client binding (s.currentTools binding)
        (u.listed client) (s, [])).trans (sameBindings_foldl (sameBindings_dropStale
          ((u.listed client).map fun info => composeId binding.name info.name))
          (s.currentTools binding).entries _)
      have hfilled := fun hapart hfilled =>
        Filled.applyTools (u := u) hfilled hapart hb (hs.named client binding hb)
      unfold ToolBinder.applyTools at hfilled ⊢
      rw [hb] at hfilled ⊢
      exact hs.retool hb rfl hloop.alive hloop.nextClient (fun c hc => syncedIn_applied hc) hfilled

theorem BridgeInv.clearTools (hs : BridgeInv u s) (client : ClientId) :
    BridgeInv u (s.clearTools client) := by
  cases hb : s.bindings.lookup client with
  | none =>
      have heq : s.clearTools client = s := by
        unfold ToolBinder.clearTools
        rw [hb]
      rwa [heq]
  | some binding =>
      have hloop := sameBindings_foldl sameBindings_clearTool binding.tools s
      have hfilled := fun (_ : s.Apart u) (hfilled : s.Filled u) => hfilled.clearTools client
      unfold ToolBinder.clearTools at hfilled ⊢
      rw [hb] at hfilled ⊢
      exact hs.retool hb rfl hloop.alive hloop.nextClient
        (fun c hc => .inr (syncedIn_cleared hc).2) hfilled

theorem BridgeInv.newClient (hs : BridgeInv u s) : BridgeInv u s.newClient where
  named := hs.named
  living c hc := Finset.mem_insert_of_mem (hs.living c hc)
  alive c hc := by
    rcases Finset.mem_insert.mp hc with rfl | hc
    · exact Nat.lt_succ_self _
    · exact (hs.alive c hc).trans (Nat.lt_succ_self _)
  bound := hs.bound
  filled hapart := (hs.filled ⟨hapart.own, hapart.others⟩).same rfl rfl rfl rfl rfl
    (fun _ b hc _ hr => ⟨b, hc, hr⟩) fun _ b hc => ⟨b, hc, rfl⟩

/-- A server is bound that was not. -/
theorem BridgeInv.attach (hs : BridgeInv u s) {client : ClientId} (hclient : client ∈ s.alive)
    (hnew : client ∉ s.bindings) {name : String} (hname : name = u.serverName client)
    (owned autoReconnect : Bool) : BridgeInv u (s.attach client name owned autoReconnect) where
  named c b hc := by
    have hc : (s.bindings.insert client _).lookup c = some b := hc
    by_cases hcc : c = client
    · rw [hcc, AList.lookup_insert] at hc
      obtain rfl := Option.some.inj hc
      rw [hcc]
      exact hname
    · rw [AList.lookup_insert_ne hcc] at hc
      exact hs.named c b hc
  living c hc := by
    rcases (AList.mem_insert _).mp hc with rfl | hc
    · exact hclient
    · exact hs.living c hc
  alive := hs.alive
  bound c hc := (AList.mem_insert _).mpr (.inr (hs.bound c hc))
  filled hapart := by
    have hold : s.Apart u := hapart.of_le fun c hc => (AList.mem_insert _).mpr (.inr hc)
    refine (hs.filled hold).same rfl rfl rfl rfl rfl (fun c b hc ref hr => ?_) fun c b hc => ?_
    · have hc : (s.bindings.insert client _).lookup c = some b := hc
      by_cases hcc : c = client
      · rw [hcc, AList.lookup_insert] at hc
        obtain rfl := Option.some.inj hc
        exact absurd hr List.not_mem_nil
      · rw [AList.lookup_insert_ne hcc] at hc
        exact ⟨b, hc, hr⟩
    · have hcc : c ≠ client := by
        rintro rfl
        exact hnew (mem_of_lookup hc)
      exact ⟨b, (AList.lookup_insert_ne hcc).trans hc, rfl⟩

/-- A tool that was removed is deleted. -/
theorem BridgeInv.toolDeleted (hs : BridgeInv u s) {ref : ToolRef} (href : ref ∈ s.doomed) :
    BridgeInv u { s with tools := s.tools.erase ref } where
  named := hs.named
  living := hs.living
  alive := hs.alive
  bound := hs.bound
  filled hapart := by
    have hfilled := hs.filled ⟨hapart.own, hapart.others⟩
    have hplaced : ∀ {c info r}, s.Placed u c info r →
        Placed { s with tools := s.tools.erase ref } u c info r := by
      intro c info r hp
      have hne : r ≠ ref := by
        rintro rfl
        exact hfilled.kept _ r hp.registered href
      exact ⟨hp.mem, (AList.lookup_erase_ne hne).trans hp.tool, hp.registered⟩
    refine
      { made := fun r tool hr => ?_
        past := hfilled.past
        kept := hfilled.kept
        registered := fun name r hr => ?_
        owned := fun c b hc r hr => ?_
        synced := fun c hc info hinfo => ?_ }
    · have hr : (s.tools.erase ref).lookup r = some tool := hr
      by_cases hne : r = ref
      · rw [hne, AList.lookup_erase] at hr
        cases hr
      · rw [AList.lookup_erase_ne hne] at hr
        exact hfilled.made r tool hr
    · obtain ⟨c, b, info, hc, hmem, hp, hname⟩ := hfilled.registered name r hr
      exact ⟨c, b, info, hc, hmem, hplaced hp, hname⟩
    · obtain ⟨info, hp⟩ := hfilled.owned c b hc r hr
      exact ⟨info, hplaced hp⟩
    · obtain ⟨r, hp⟩ := hfilled.synced c hc info hinfo
      exact ⟨r, hplaced hp⟩

end Updates

/-! ### The code -/

def bridgeContract (u : Upstreams) : Contract BinderSig := .plain (BridgeInv u) fun _ _ => True

section Code

variable (u : Upstreams)

theorem bridgeContract_preorder : (bridgeContract u).Preorder :=
  ⟨fun _ => trivial, fun _ _ => trivial⟩

abbrev KeepsBridge {α : Type} (p : Proc BinderSig α) : Prop :=
  (bridgeContract u).Keeps (bridge u).answer p

/-- Code that brings no tools keeps the invariant. -/
theorem keepsBridge_tidy {α : Type} {p : Proc BinderSig α} (h : Tidy p) : KeepsBridge u p :=
  keeps_tidy (fun _ _ hs h => hs.same h) (fun _ client hs => hs.clearTools client) h

variable {u}

/-- The list of an attempt is that of its server. -/
theorem keepsBridge_onListed {s : ToolBinder} (hs : BridgeInv u s) {attempt : AttemptId}
    {tools : List ToolInfo}
    (h : ∀ a, s.attempts.lookup attempt = some a → tools = u.listed a.client) :
    (bridgeContract u).KeepsAt (bridge u).answer (onListed attempt tools) s := by
  refine keepsAt_onListed (fun _ _ hs h => hs.same h) hs fun a ha s' hs' => ?_
  obtain rfl := h a ha
  exact hs'.applyTools a.client

/-- The list of a listing is that of its server. -/
theorem keepsBridge_onResynced {s : ToolBinder} (hs : BridgeInv u s) {listing : ListingId}
    {tools : Option (List ToolInfo)}
    (h : ∀ list, tools = some list → ∀ l, s.listings.lookup listing = some l →
      list = u.listed l.client) :
    (bridgeContract u).KeepsAt (bridge u).answer (onResynced listing tools) s := by
  refine keepsAt_onResynced (fun _ _ hs h => hs.same h) hs fun list hlist l hl s' hs' => ?_
  obtain rfl := h list hlist l hl
  exact hs'.applyTools l.client

theorem keepsBridge_addServer {s : ToolBinder} (hs : BridgeInv u s) {endpoint : ServerEndpoint}
    (h : endpoint.name = u.serverName s.nextClient) :
    (bridgeContract u).KeepsAt (bridge u).answer
      (binderEntry (.addServer endpoint)) s := by
  refine (wp_bind (S := BinderSig) _ _ _ s).mpr ((wp_ite (S := BinderSig) _ _ _ _ _).mpr
    ⟨fun _ => ?_, fun _ => ⟨hs, trivial⟩⟩)
  have hnew : s.nextClient ∉ s.newClient.bindings := fun hc =>
    absurd (hs.alive _ (hs.living _ hc)) (Nat.lt_irrefl _)
  have hattached := hs.newClient.attach (Finset.mem_insert_self s.nextClient s.alive) hnew h true true
  have hrest := keepsBridge_tidy u (tidy_initializeClient s.nextClient) _ hattached
  have hvisit : wp (bridge u).answer (bridgeContract u)
      (initializeClient s.nextClient >>= fun _ => pure true)
      (fun _ s' => (bridgeContract u).Moves s s')
      (s.newClient.attach s.nextClient endpoint.name true true) :=
    (wp_bind (S := BinderSig) _ _ _ _).mpr (wp_mono hrest fun _ s' hs' => ⟨hs'.1, trivial⟩)
  exact hvisit

theorem keepsBridge_addClient {s : ToolBinder} (hs : BridgeInv u s) {client : ClientId}
    {serverName : String} (h : serverName = u.serverName client) (autoReconnect : Bool) :
    (bridgeContract u).KeepsAt (bridge u).answer
      (addClient client serverName autoReconnect) s := by
  refine (wp_ite (S := BinderSig) _ _ _ _ _).mpr ⟨fun _ => ⟨hs, trivial⟩, fun hfree => ?_⟩
  obtain ⟨halive, hnew⟩ : client ∈ s.alive ∧ client ∉ s.bindings := by
    simpa only [not_or, not_not] using hfree
  have hattached := hs.attach halive hnew h false autoReconnect
  have hrest := keepsBridge_tidy u (tidy_resyncClient client) _ hattached
  exact wp_mono hrest fun _ s' hs' => ⟨hs'.1, trivial⟩

theorem keepsBridge_entry {s : ToolBinder} (hs : BridgeInv u s) {e : BinderEvent}
    (he : (bridge u).event s e) :
    (bridgeContract u).KeepsAt (bridge u).answer (binderEntry e) s := by
  cases e with
  | addServer endpoint => exact keepsBridge_addServer hs he
  | addClient client serverName autoReconnect => exact keepsBridge_addClient hs he autoReconnect
  | removeClient client => exact he.elim
  | shutdown => exact keepsBridge_tidy u tidy_shutdown s hs
  | clientCreated => exact ⟨hs.newClient, trivial⟩
  | clientDestroyed client => exact he.elim
  | toolsChanged client => exact keepsBridge_tidy u (tidy_resyncClient client) s hs
  | disconnected client => exact keepsBridge_tidy u (tidy_onDisconnected client) s hs
  | reconnectTimer timer => exact keepsBridge_tidy u (tidy_onReconnectTimer timer) s hs
  | connected attempt => exact keepsBridge_tidy u (tidy_onConnected attempt) s hs
  | listed attempt tools => exact keepsBridge_onListed hs he
  | initFailed attempt error => exact keepsBridge_tidy u (tidy_onInitFailed attempt error) s hs
  | resynced listing tools =>
      refine keepsBridge_onResynced hs fun list hlist l hl => ?_
      subst hlist
      exact he l hl
  | toolAdded name => exact he.elim
  | toolRemoved name => exact he.elim
  | toolDeleted ref =>
      refine (wp_modify (S := BinderSig) _ _ s).mpr ⟨?_, trivial⟩
      split
      · rename_i hdoomed
        exact hs.toolDeleted hdoomed
      · exact hs

end Code

theorem bridge_valid (u : Upstreams) : (bridgeContract u).Valid (bridge u) :=
  .of_guarded (bridgeContract_preorder u) (fun _ _ hs he => keepsBridge_entry hs he) nofun

theorem bridgeInv_init (u : Upstreams) : BridgeInv u {} where
  named _ _ h := absurd h nofun
  living _ h := absurd h (AList.notMem_empty _)
  alive _ h := absurd h (Finset.notMem_empty _)
  bound _ h := absurd h Bool.false_ne_true
  filled _ :=
    { made := fun _ _ h => absurd h nofun
      past := fun _ h => absurd h (Finset.notMem_empty _)
      kept := fun _ _ h => absurd h nofun
      registered := fun _ _ h => absurd h nofun
      owned := fun _ _ h => absurd h nofun
      synced := fun _ h => absurd h Bool.false_ne_true }

end ToolBinder

/-! ### What is served -/

namespace McpServer

/-- The tools that are listed are those of the registry, each under its id. -/
theorem collectTools_spec (s : ToolBinder) (name : String) (tool : McpRemoteTool) :
    ((collectTools s).lookup name = some tool → tool.id = name ∧
      ∃ key ref, s.registry.lookup key = some ref ∧ s.tools.lookup ref = some tool) := by
  have hloop : ∀ (entries : List (Sigma fun _ : String => ToolRef))
      (merged : AList (fun _ : String => McpRemoteTool)),
      (∀ e ∈ entries, e ∈ s.registry.entries) →
      (entries.foldl (fun merged entry =>
        match s.tools.lookup entry.2 with
        | none => merged
        | some tool => merged.insert tool.id tool) merged).lookup name = some tool →
      merged.lookup name = some tool ∨ (tool.id = name ∧
        ∃ key ref, s.registry.lookup key = some ref ∧ s.tools.lookup ref = some tool) := by
    intro entries
    induction entries with
    | nil => exact fun _ _ h => .inl h
    | cons e rest ih =>
        intro merged hentries h
        refine (ih _ (fun e he => hentries e (List.mem_cons_of_mem _ he)) h).elim (fun h => ?_) .inr
        dsimp only at h
        cases ht : s.tools.lookup e.2 with
        | none =>
            rw [ht] at h
            exact .inl h
        | some t =>
            rw [ht] at h
            by_cases hn : name = t.id
            · rw [hn, AList.lookup_insert] at h
              obtain rfl := Option.some.inj h
              exact .inr ⟨hn.symm, e.1, e.2,
                AList.mem_lookup_iff.mpr (hentries e List.mem_cons_self), ht⟩
            · rw [AList.lookup_insert_ne hn] at h
              exact .inl h
  exact fun h => (hloop s.registry.entries ∅ (fun _ he => he) h).resolve_left nofun

/-- A tool of the registry is listed. -/
theorem collectTools_mem {s : ToolBinder} {key : String} {ref : ToolRef} {tool : McpRemoteTool}
    (hregistry : s.registry.lookup key = some ref) (htool : s.tools.lookup ref = some tool) :
    tool.id ∈ collectTools s := by
  have hloop : ∀ (entries : List (Sigma fun _ : String => ToolRef))
      (merged : AList (fun _ : String => McpRemoteTool)),
      ⟨key, ref⟩ ∈ entries ∨ tool.id ∈ merged →
      tool.id ∈ entries.foldl (fun merged entry =>
        match s.tools.lookup entry.2 with
        | none => merged
        | some tool => merged.insert tool.id tool) merged := by
    intro entries
    induction entries with
    | nil => exact fun _ h => h.resolve_left List.not_mem_nil
    | cons e rest ih =>
        intro merged h
        refine ih _ ?_
        dsimp only
        rcases h with h | h
        · rcases List.mem_cons.mp h with rfl | h
          · right
            rw [htool]
            exact (AList.mem_insert _).mpr (.inl rfl)
          · exact .inl h
        · right
          cases s.tools.lookup e.2 with
          | none => exact h
          | some other => exact (AList.mem_insert _).mpr (.inr h)
  exact hloop s.registry.entries ∅ (.inl (AList.mem_lookup_iff.mp hregistry))

theorem toolsList_names (s : ToolBinder) :
    (toolsList s).map (·.name) = (collectTools s).keys := by
  rw [toolsList, List.map_map]
  refine List.map_congr_left fun e he => ?_
  exact (collectTools_spec s e.1 e.2 (AList.mem_lookup_iff.mpr he)).1

end McpServer

/-- In every run of a bridge, once all its servers have synced, each tool of each is served once,
under a name of its own, and called by it, if and only if different tools are given different
names. -/
theorem bridged_iff (u : Upstreams) {c : Config BinderSig}
    (hrun : Reaches (bridge u) (.idle {}) c) (hw : c.Waiting) (hsynced : c.state.AllSynced) :
    c.state.Bridged u ↔ (c.state.exposedNames u).Nodup := by
  have hinv : ToolBinder.BridgeInv u c.state :=
    (ToolBinder.bridge_valid u).waiting (ToolBinder.bridgeInv_init u) hrun hw
  generalize c.state = s at hsynced hinv
  refine ⟨fun h => ?_, fun hnodup => ?_⟩
  · refine h.once.nodup_iff.mp ?_
    rw [McpServer.toolsList_names]
    exact AList.keys_nodup _
  have hfilled := hinv.filled ((ToolBinder.apart_iff s u).mpr hnodup)
  have hplaced : ∀ pair ∈ s.pairs u, ∃ ref, s.Placed u pair.1 pair.2 ref := by
    intro pair hpair
    obtain ⟨client, hclient, hpair⟩ := List.mem_flatMap.mp hpair
    obtain ⟨info, hinfo, rfl⟩ := List.mem_map.mp hpair
    exact hfilled.synced client (hsynced client (AList.mem_keys.mpr hclient)) info hinfo
  constructor
  · rw [McpServer.toolsList_names]
    refine (List.perm_ext_iff_of_nodup (AList.keys_nodup _) hnodup).mpr fun name => ?_
    rw [← AList.mem_keys]
    constructor
    · intro hname
      obtain ⟨tool, htool⟩ := Option.isSome_iff_exists.mp (AList.lookup_isSome.mpr hname)
      obtain ⟨rfl, key, ref, hregistry, hlookup⟩ := McpServer.collectTools_spec s name tool htool
      obtain ⟨client, binding, info, hb, -, hp, -⟩ := hfilled.registered key ref hregistry
      obtain rfl := Option.some.inj (hp.tool.symm.trans hlookup)
      refine List.mem_flatMap.mpr ⟨client, AList.mem_keys.mp (ToolBinder.mem_of_lookup hb), ?_⟩
      exact List.mem_map_of_mem hp.mem
    · intro hname
      obtain ⟨client, hclient, hname⟩ := List.mem_flatMap.mp hname
      obtain ⟨info, hinfo, rfl⟩ := List.mem_map.mp hname
      obtain ⟨ref, hp⟩ := hplaced (client, info)
        (List.mem_flatMap.mpr ⟨client, hclient, List.mem_map_of_mem hinfo⟩)
      exact McpServer.collectTools_mem hp.registered hp.tool
  · intro pair hpair params hname
    obtain ⟨ref, hp⟩ := hplaced pair hpair
    obtain ⟨c, b, i, hb, -, hp', -⟩ := hfilled.registered _ ref hp.registered
    have halive : pair.1 ∈ s.alive := by
      have hclient : c = pair.1 :=
        congrArg McpRemoteTool.client (Option.some.inj (hp'.tool.symm.trans hp.tool))
      exact hinv.living _ (hclient ▸ ToolBinder.mem_of_lookup hb)
    have hfind : McpServer.findTool s (u.exposedName pair.1 pair.2) =
        some ⟨pair.1, u.serverName pair.1, pair.2⟩ := by
      unfold McpServer.findTool
      rw [hp.registered]
      exact hp.tool
    unfold McpServer.toolsCall
    rw [hname]
    dsimp only
    rw [hfind]
    exact if_pos halive

/-- A server is added, and its client connects and lists its tools. -/
def syncMoves (u : Upstreams) (client : ClientId) : List (Move binderMachine) :=
  [.event (.addServer { name := u.serverName client, command := "serve" }), .answer fun _ => (),
    .event (.connected client), .answer fun _ => (),
    .event (.listed client (u.listed client)), .answer fun _ => (), .answer fun _ => ()]

/-- Two servers with a tool of the same name. -/
def namesakes : Upstreams where
  serverName client := if client = 0 then "git" else "files"
  listed _ := [{ name := "list" }]

/-- Two servers whose names run into those of their tools. -/
def lookalikes : Upstreams where
  serverName client := if client = 0 then "git" else "git_log"
  listed client := if client = 0 then [{ name := "log_show" }] else [{ name := "show" }]

/-- Both servers have synced. -/
def synced (u : Upstreams) : Config BinderSig :=
  play binderMachine 0 (syncMoves u 0 ++ syncMoves u 1) (.idle {})

theorem bridged_iff_namesakes :
    ∃ c : Config BinderSig, c.Waiting ∧ c.state.AllSynced ∧ c.state.Bridged namesakes := by
  have hplay : Playable (bridge namesakes) 0 (syncMoves namesakes 0 ++ syncMoves namesakes 1)
      (.idle {}) := by
    refine ⟨rfl, trivial, trivial, trivial, fun a ha => ?_, trivial, trivial, rfl, trivial, trivial,
      trivial, fun a ha => ?_, trivial, trivial, trivial⟩
    · exact congrArg (fun a : Attempt => namesakes.listed a.client) (Option.some.inj ha)
    · exact congrArg (fun a : Attempt => namesakes.listed a.client) (Option.some.inj ha)
  have hw : (synced namesakes).Waiting := Or.inl rfl
  have hkeys : (synced namesakes).state.bindings.keys = [1, 0] := rfl
  have hsynced : (synced namesakes).state.AllSynced := by
    intro client hclient
    rw [AList.mem_keys, hkeys] at hclient
    rcases List.mem_cons.mp hclient with rfl | hclient
    · rfl
    · obtain rfl := List.mem_singleton.mp hclient
      rfl
  have hnodup : ((synced namesakes).state.exposedNames namesakes).Nodup := by
    rw [ToolBinder.exposedNames, hkeys]
    decide
  have hrun : Reaches (bridge namesakes) (.idle {}) (synced namesakes) := reaches_play hplay
  exact ⟨synced namesakes, hw, hsynced, (bridged_iff namesakes hrun hw hsynced).mpr hnodup⟩

/-- Servers with distinct names, each with one tool, whose tools are given one name: the second
tool is not served. -/
theorem bridged_iff_lookalikes :
    lookalikes.serverName 0 ≠ lookalikes.serverName 1 ∧
      ∃ c : Config BinderSig, Reaches (bridge lookalikes) (.idle {}) c ∧ c.Waiting ∧
        c.state.bindings.keys = [1, 0] ∧ c.state.AllSynced ∧ ¬ c.state.Bridged lookalikes := by
  have hplay : Playable (bridge lookalikes) 0 (syncMoves lookalikes 0 ++ syncMoves lookalikes 1)
      (.idle {}) := by
    refine ⟨rfl, trivial, trivial, trivial, fun a ha => ?_, trivial, trivial, rfl, trivial, trivial,
      trivial, fun a ha => ?_, trivial, trivial, trivial⟩
    · exact congrArg (fun a : Attempt => lookalikes.listed a.client) (Option.some.inj ha)
    · exact congrArg (fun a : Attempt => lookalikes.listed a.client) (Option.some.inj ha)
  have hkeys : (synced lookalikes).state.bindings.keys = [1, 0] := rfl
  refine ⟨by decide, synced lookalikes, reaches_play hplay, Or.inl rfl, hkeys, ?_, fun h => ?_⟩
  · intro client hclient
    rw [AList.mem_keys, hkeys] at hclient
    rcases List.mem_cons.mp hclient with rfl | hclient
    · rfl
    · obtain rfl := List.mem_singleton.mp hclient
      rfl
  -- the names of the tools that are served are distinct, those made for the tools are not
  have hnodup := h.once.nodup_iff.mp (by
    rw [McpServer.toolsList_names]
    exact AList.keys_nodup _)
  rw [ToolBinder.exposedNames, hkeys] at hnodup
  exact absurd hnodup (by decide)

end LLMQore.Mcp
