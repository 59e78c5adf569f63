import LLMQore.Mcp.MirroredTools
import LLMQore.Reentrant.Logged

/-!
# LLMQore.Mcp.ListingOrder

Which of several listings the tools of a binding are those of.

The continuation of a listing applies its answer whatever has happened since it was issued. So the
tools are those of the listing that was issued last as long as the answers come in time
(`latest_listing`), and otherwise those of an older one (`older_listing_stays`) or of a connection
that was dropped (`dropped_listing_registers`). Which listing was issued when is read off the log
of what entered the binder, and every run of the binder has one (`logged_undisturbed`).
-/

namespace LLMQore.Mcp

open Reentrant McpTypes

namespace ToolBinder

/-! ### Listings in the log -/

/-- A listing: that of `resyncClient`, or that of a connection attempt. -/
inductive ListingKey where
  | resync (listing : ListingId)
  | attempt (attempt : AttemptId)
  deriving DecidableEq

/-- The listing an event issues, and its client. -/
def issues (s : ToolBinder) : BinderEvent → Option (ClientId × ListingKey)
  | .toolsChanged client =>
      if client ∈ s.bindings then some (client, .resync s.nextListing) else none
  | .addClient client _ _ =>
      if client ∈ s.alive ∧ client ∉ s.bindings then some (client, .resync s.nextListing) else none
  | .connected attempt =>
      match s.attempts.lookup attempt with
      | none => none
      | some a =>
          if a.phase = .connecting ∧ a.client ∈ s.alive then some (a.client, .attempt attempt)
          else none
  | _ => none

/-- The answer to a listing. -/
structure ListingAnswer where
  client : ClientId
  listing : ListingKey
  tools : List ToolInfo

/-- The answer an event brings. -/
def answers (s : ToolBinder) : BinderEvent → Option ListingAnswer
  | .resynced listing (some tools) =>
      match s.listings.lookup listing with
      | none => none
      | some l => if l.busy then none else some ⟨l.client, .resync listing, tools⟩
  | .listed attempt tools =>
      match s.attempts.lookup attempt with
      | none => none
      | some a => if a.phase = .listing then some ⟨a.client, .attempt attempt, tools⟩ else none
  | _ => none

abbrev BinderLog : Type := EventLog BinderSig BinderEvent

/-- The listing of the client that was issued last, and what it was answered in which state, if it
was answered. -/
def latest (client : ClientId) :
    BinderLog → Option (ListingKey × Option (ToolBinder × List ToolInfo))
  | [] => none
  | (s, e) :: log =>
      match issues s e, answers s e, latest client log with
      | some (c, i), _, earlier => if c = client then some (i, none) else earlier
      | none, some a, some (i, none) =>
          if a.client = client ∧ a.listing = i then some (i, some (s, a.tools)) else some (i, none)
      | none, _, earlier => earlier

/-- The listing was issued, and its connection has not been dropped since. -/
def standing (client : ClientId) (i : ListingKey) : BinderLog → Bool
  | [] => false
  | (s, e) :: log =>
      match e with
      | .disconnected c => if c = client then false else standing client i log
      | e => if issues s e = some (client, i) then true else standing client i log

/-- A server listed the definition in an answer that came while the connection stood. -/
def StoodWhenListed (log : BinderLog) (client : ClientId) (info : ToolInfo) : Prop :=
  ∃ later s e earlier a, log = later ++ (s, e) :: earlier ∧ answers s e = some a ∧
    a.client = client ∧ standing client a.listing earlier = true ∧
      ∃ listed ∈ a.tools, ToolInfo.schema.toJson info = ToolInfo.schema.toJson listed

/-- The registered tools are those of the listing that was issued last, once it has been answered:
none of an older one, and all of its own, unless they were cleared again. And all tools were listed
while their connection stood. -/
structure UpToDate (log : BinderLog) (s : ToolBinder) : Prop where
  latest : ∀ client binding i s₀ tools, s.bindings.lookup client = some binding →
    latest client log = some (i, some (s₀, tools)) →
      (∀ name ref, s.Own client name ref →
        ∃ info ∈ tools, name = composeId binding.name info.name ∧
          s.Listed client binding.name info ref) ∧
      ∃ later, s.history = later ++ s₀.history ∧
        (.cleared client ∈ later ∨
          ∀ info ∈ tools, s₀.Foreign client (composeId binding.name info.name) ∨
            ∃ ref, s.Listed client binding.name info ref)
  stood : ∀ client name ref tool, s.Own client name ref → s.tools.lookup ref = some tool →
    StoodWhenListed log client tool.info

/-- What enters the binder brings no answer too late: the listing of the client that was issued last
is not answered yet, and the one that is answered belongs to a connection that stands. -/
def InTime (log : BinderLog) (s : ToolBinder) (e : BinderEvent) : Prop :=
  ∀ a, answers s e = some a → (s.guarded a.client).isSome = true →
    (∀ i answer, latest a.client log ≠ some (i, some answer)) ∧
      standing a.client a.listing log = true

/-! ### The log grows -/

section Log

variable {log : BinderLog} {s s' : ToolBinder} {client : ClientId} {e : BinderEvent}

/-- An answer to the listing that was issued last comes now, or came before. -/
theorem latest_cons {i : ListingKey} {r : ToolBinder × List ToolInfo}
    (h : latest client ((s, e) :: log) = some (i, some r)) :
    latest client log = some (i, some r) ∨
      ∃ a, answers s e = some a ∧ a.client = client ∧ r = (s, a.tools) := by
  unfold latest at h
  split at h
  · split at h
    · cases h
    · exact .inl h
  · rename_i a _ _ ha hlog
    split at h
    · rename_i hcond
      cases h
      exact .inr ⟨a, ha, hcond.1, rfl⟩
    · cases h
  · exact .inl h

/-- A listing of another client, or none, is issued. -/
theorem latest_none (h : latest client log = none) (hissues : ∀ i, issues s e ≠ some (client, i)) :
    latest client ((s, e) :: log) = none := by
  unfold latest
  rw [h]
  cases hi : issues s e with
  | none => cases answers s e <;> rfl
  | some issued =>
      obtain ⟨c, i⟩ := issued
      refine if_neg ?_
      rintro rfl
      exact hissues i hi

theorem latest_issued {i : ListingKey} (h : issues s e = some (client, i)) :
    latest client ((s, e) :: log) = some (i, none) := by
  unfold latest
  rw [h]
  exact if_pos rfl

theorem StoodWhenListed.cons {info : ToolInfo} (h : StoodWhenListed log client info)
    (entry : ToolBinder × BinderEvent) : StoodWhenListed (entry :: log) client info := by
  obtain ⟨later, s, e, earlier, a, hlog, hrest⟩ := h
  exact ⟨entry :: later, s, e, earlier, a, by rw [hlog]; rfl, hrest⟩

end Log

/-! ### The invariant -/

structure OrderInv (t : BinderLog × ToolBinder) : Prop where
  mirror : MirrorInv t.2
  living : ∀ client ∈ t.2.bindings, client ∈ t.2.alive
  fresh : ∀ client, t.2.nextClient ≤ client → latest client t.1 = none
  upToDate : UpToDate t.1 t.2

section Invariant

variable {log : BinderLog} {s s' : ToolBinder} {client : ClientId} {e : BinderEvent}

/-- No tools come from the binder, and a binding loses all of its tools or none. A binding that is
new waits for its first answer. -/
structure Shrinks (log : BinderLog) (s s' : ToolBinder) : Prop where
  binding : ∀ c b', s'.bindings.lookup c = some b' →
    (∃ b, s.bindings.lookup c = some b ∧ b'.name = b.name) ∨
      ∀ i r, ToolBinder.latest c log ≠ some (i, some r)
  own : ∀ c n r, s'.Own c n r → s.Own c n r ∧ s'.tools.lookup r = s.tools.lookup r
  kept : ∃ later, s'.history = later ++ s.history ∧
    ∀ c, .cleared c ∈ later ∨ ∀ n r, s.Own c n r → s'.Own c n r
  clients : s.nextClient ≤ s'.nextClient

theorem UpToDate.shrinks (hs : UpToDate log s) (h : Shrinks log s s') : UpToDate log s' := by
  have hlisted : ∀ {c name info r}, s.Listed c name info r →
      s'.Own c (composeId name info.name) r → s'.Listed c name info r := by
    intro c name info r hl hown
    obtain ⟨tool, htool, hrest⟩ := hl.tool
    exact ⟨hown.1, tool, (h.own c _ r hown).2.trans htool, hrest⟩
  refine ⟨fun c b' i s₀ tools hb' hlatest => ?_, fun c n r tool hown htool => ?_⟩
  · rcases h.binding c b' hb' with ⟨b, hb, hname⟩ | hnew
    · obtain ⟨honly, hall⟩ := hs.latest c b i s₀ tools hb hlatest
      rw [hname]
      refine ⟨fun n r hown => ?_, ?_⟩
      · obtain ⟨info, hinfo, rfl, hl⟩ := honly n r (h.own c n r hown).1
        exact ⟨info, hinfo, rfl, hlisted hl hown⟩
      · obtain ⟨since, hsince, hsettled⟩ := hall
        obtain ⟨later, hhistory, hkept⟩ := h.kept
        refine ⟨later ++ since, by rw [hhistory, hsince, List.append_assoc], ?_⟩
        rcases hsettled with hcleared | hsettled
        · exact .inl (List.mem_append_right _ hcleared)
        · refine (hkept c).imp (List.mem_append_left _) fun hkept info hinfo => ?_
          refine (hsettled info hinfo).imp_right fun ⟨r, hl⟩ => ?_
          exact ⟨r, hlisted hl (hkept _ r hl.own)⟩
    · exact absurd hlatest (hnew i _)
  · obtain ⟨hown', hsame⟩ := h.own c n r hown
    exact hs.stood c n r tool hown' (hsame ▸ htool)

theorem OrderInv.shrinks (hs : OrderInv (log, s)) (hmirror : MirrorInv s')
    (hliving : ∀ c ∈ s'.bindings, c ∈ s'.alive) (h : Shrinks log s s') : OrderInv (log, s') :=
  ⟨hmirror, hliving, fun c hc => hs.fresh c (h.clients.trans hc), hs.upToDate.shrinks h⟩

/-- The history is the same. -/
theorem kept_of_own (hhistory : s'.history = s.history) (h : ∀ c n r, s.Own c n r → s'.Own c n r) :
    ∃ later, s'.history = later ++ s.history ∧
      ∀ c, .cleared c ∈ later ∨ ∀ n r, s.Own c n r → s'.Own c n r :=
  ⟨[], hhistory, fun c => .inr (h c)⟩

theorem OrderInv.same (hs : OrderInv (log, s)) (h : SameTools s s') : OrderInv (log, s') := by
  have hown : ∀ c n r, s'.Own c n r ↔ s.Own c n r := by
    intro c n r
    unfold Own
    rw [h.registry, h.tools]
  refine hs.shrinks (hs.mirror.same h) (fun c hc => ?_)
    ⟨fun c b' hb' => ?_, fun c n r hn => ?_, kept_of_own h.history fun c n r => (hown c n r).mpr,
      h.nextClient.ge⟩
  · obtain ⟨b', hb'⟩ := lookup_of_mem hc
    obtain ⟨b, hb, -⟩ := h.bindings c b' hb'
    rw [h.alive]
    exact hs.living c (mem_of_lookup hb)
  · obtain ⟨b, hb, hname, -⟩ := h.bindings c b' hb'
    exact .inl ⟨b, hb, hname⟩
  · exact ⟨(hown c n r).mp hn, by rw [h.tools]⟩

/-- What `clearTools` does beside the registry. -/
theorem clearTools_bound {binding : Binding} (hb : s.bindings.lookup client = some binding) :
    (s.clearTools client).bindings = s.bindings.insert client { binding with tools := [] } ∧
      (s.clearTools client).alive = s.alive ∧
      (s.clearTools client).nextClient = s.nextClient ∧
      (s.clearTools client).history = .cleared client :: s.history := by
  have hloop := sameBindings_foldl sameBindings_clearTool binding.tools s
  unfold ToolBinder.clearTools
  rw [hb]
  exact ⟨rfl, hloop.alive, hloop.nextClient, rfl⟩

theorem OrderInv.clearTools (hs : OrderInv (log, s)) (client : ClientId) :
    OrderInv (log, s.clearTools client) := by
  cases hb : s.bindings.lookup client with
  | none =>
      have heq : s.clearTools client = s := by
        unfold ToolBinder.clearTools
        rw [hb]
      rwa [heq]
  | some binding =>
      have hcleared := hs.mirror.clearedOf client
      obtain ⟨hbindings, halive, hclient, hhistory⟩ := clearTools_bound hb
      refine hs.shrinks (hs.mirror.clearTools client) (fun c hc => ?_)
        ⟨fun c b' hb' => ?_, fun c n r hown => ?_, ⟨[.cleared client], hhistory, fun c => ?_⟩,
          hclient.ge⟩
      · rw [hbindings] at hc
        rw [halive]
        rcases (AList.mem_insert _).mp hc with rfl | hc
        · exact hs.living c (mem_of_lookup hb)
        · exact hs.living c hc
      · rw [hbindings] at hb'
        by_cases hcc : c = client
        · rw [hcc, AList.lookup_insert] at hb'
          obtain rfl := Option.some.inj hb'
          exact .inl ⟨binding, hcc ▸ hb, rfl⟩
        · exact .inl ⟨b', (AList.lookup_insert_ne hcc).symm.trans hb', rfl⟩
      · exact ⟨((hcleared.own c).mp hown).1, by rw [hcleared.tools]⟩
      · by_cases hcc : c = client
        · exact .inl (hcc ▸ .head _)
        · exact .inr fun n r hown => (hcleared.own c).mpr ⟨hown, hcc⟩

theorem OrderInv.tidies (hs : OrderInv (log, s)) (h : Tidies s s') : OrderInv (log, s') :=
  Tidies.keeps (I := fun s => OrderInv (log, s)) (fun _ _ hs h => hs.same h)
    (fun _ client hs => hs.clearTools client) hs h

/-- A binding is dropped. -/
theorem OrderInv.removeClient (hs : OrderInv (log, s)) (client : ClientId) :
    OrderInv (log, s.removeClient client) := by
  have hcleared := hs.clearTools client
  have hmirror := hs.mirror.removeClient client
  unfold ToolBinder.removeClient at hmirror ⊢
  cases hb : s.bindings.lookup client with
  | none => exact hs
  | some binding =>
      rw [hb] at hmirror
      refine hcleared.shrinks hmirror (fun c hc => hcleared.living c (AList.mem_erase.mp hc).2)
        ⟨fun c b' hb' => ?_, fun c n r hown => ⟨hown, rfl⟩, kept_of_own rfl fun _ _ _ h => h,
          Nat.le_refl _⟩
      have hb' : ((s.clearTools client).bindings.erase client).lookup c = some b' := hb'
      have hne : c ≠ client := by
        rintro rfl
        rw [AList.lookup_erase] at hb'
        cases hb'
      exact .inl ⟨b', (AList.lookup_erase_ne hne).symm.trans hb', rfl⟩

theorem clearTools_alive (s : ToolBinder) (client : ClientId) (alive : Finset ClientId) :
    { s with alive }.clearTools client = { s.clearTools client with alive } := by
  have htool : ∀ (s : ToolBinder) (ref : ToolRef),
      { s with alive }.clearTool ref = { s.clearTool ref with alive } := by
    intro s ref
    unfold clearTool removeTool
    dsimp only
    cases s.tools.lookup ref with
    | none => rfl
    | some tool =>
        dsimp only
        split
        · cases s.registry.lookup tool.id <;> rfl
        · rfl
  have hloop : ∀ (refs : List ToolRef) (s : ToolBinder),
      refs.foldl clearTool { s with alive } = { refs.foldl clearTool s with alive } := by
    intro refs
    induction refs with
    | nil => exact fun _ => rfl
    | cons ref refs ih =>
        intro s
        rw [List.foldl_cons, htool, ih]
        rfl
  unfold ToolBinder.clearTools
  dsimp only
  cases s.bindings.lookup client with
  | none => rfl
  | some binding =>
      dsimp only
      rw [hloop]

/-- A client is gone, and its binding with it. -/
theorem OrderInv.destroyed (hs : OrderInv (log, s)) (client : ClientId) :
    OrderInv (log, { s with alive := s.alive.erase client }.removeClient client) := by
  have hremoved := hs.removeClient client
  have heq : { s with alive := s.alive.erase client }.removeClient client =
      { s.removeClient client with alive := (s.removeClient client).alive.erase client } := by
    unfold ToolBinder.removeClient
    dsimp only
    cases hb : s.bindings.lookup client with
    | none => rfl
    | some binding =>
        dsimp only
        have halive : (s.clearTools client).alive = s.alive := by
          unfold ToolBinder.clearTools
          rw [hb]
          exact (sameBindings_foldl sameBindings_clearTool binding.tools s).alive
        rw [clearTools_alive, halive]
  have hunbound : client ∉ (s.removeClient client).bindings := by
    unfold ToolBinder.removeClient
    cases hb : s.bindings.lookup client with
    | none => exact fun hc => by rw [← AList.lookup_isSome, hb] at hc; cases hc
    | some binding => exact fun hc => (AList.mem_erase.mp hc).1 rfl
  rw [heq]
  refine hremoved.shrinks (hremoved.mirror.destroyed client) (fun c hc => ?_)
    ⟨fun c b' hb' => .inl ⟨b', hb', rfl⟩, fun c n r hown => ⟨hown, rfl⟩,
      kept_of_own rfl fun _ _ _ h => h, Nat.le_refl _⟩
  refine Finset.mem_erase.mpr ⟨?_, hremoved.living c hc⟩
  rintro rfl
  exact hunbound hc

theorem OrderInv.newClient (hs : OrderInv (log, s)) : OrderInv (log, s.newClient) :=
  hs.shrinks hs.mirror.newClient (fun c hc => Finset.mem_insert_of_mem (hs.living c hc))
    ⟨fun _ b' hb' => .inl ⟨b', hb', rfl⟩, fun _ _ _ hown => ⟨hown, rfl⟩,
      kept_of_own rfl fun _ _ _ h => h, Nat.le_succ _⟩

/-- A binding is new, and its first answer still to come. -/
theorem OrderInv.attach (hs : OrderInv (log, s)) (hnew : client ∉ s.bindings)
    (halive : client ∈ s.alive) (hlatest : ∀ i r, latest client log ≠ some (i, some r))
    (name : String) (owned autoReconnect : Bool) :
    OrderInv (log, s.attach client name owned autoReconnect) := by
  refine hs.shrinks (hs.mirror.attach hnew (hs.mirror.alive client halive) name owned autoReconnect)
    (fun c hc => ?_) ⟨fun c b' hb' => ?_, fun c n r hown => ⟨hown, rfl⟩,
      kept_of_own rfl fun _ _ _ h => h, Nat.le_refl _⟩
  · rcases (AList.mem_insert _).mp hc with rfl | hc
    · exact halive
    · exact hs.living c hc
  · have hb' : (s.bindings.insert client _).lookup c = some b' := hb'
    by_cases hcc : c = client
    · exact .inr (hcc ▸ hlatest)
    · exact .inl ⟨b', (AList.lookup_insert_ne hcc).symm.trans hb', rfl⟩

/-- Whoever else uses the registry leaves the tools of the bindings alone. -/
theorem OrderInv.registryMoves (hs : OrderInv (log, s)) (hmirror : MirrorInv s')
    (hbindings : s'.bindings = s.bindings) (halive : s'.alive = s.alive)
    (hclient : s'.nextClient = s.nextClient) (hhistory : s'.history = s.history)
    (hown : ∀ c n r, s'.Own c n r ↔ s.Own c n r)
    (htools : ∀ c n r, s.Own c n r → s'.tools.lookup r = s.tools.lookup r) :
    OrderInv (log, s') := by
  refine hs.shrinks hmirror (fun c hc => ?_) ⟨fun c b' hb' => ?_, fun c n r hn => ?_,
    kept_of_own hhistory fun c n r => (hown c n r).mpr, hclient.ge⟩
  · rw [hbindings] at hc
    rw [halive]
    exact hs.living c hc
  · rw [hbindings] at hb'
    exact .inl ⟨b', hb', rfl⟩
  · have hn := (hown c n r).mp hn
    exact ⟨hn, htools c n r hn⟩

theorem OrderInv.toolRemoved (hs : OrderInv (log, s)) {name : String} (h : s.Unbound name) :
    OrderInv (log, s.removeTool name) := by
  have hsame := sameBindings_removeTool name s
  have hhistory : (s.removeTool name).history = s.history := by
    unfold removeTool
    split <;> rfl
  exact hs.registryMoves (hs.mirror.toolRemoved h) hsame.bindings hsame.alive hsame.nextClient
    hhistory (fun _ _ _ => hs.mirror.own_removeTool h) fun _ _ _ _ => by rw [removeTool_tools]

theorem OrderInv.toolAdded (hs : OrderInv (log, s)) {name : String} (h : s.Unbound name) :
    OrderInv (log, s.toolAdded name) :=
  hs.registryMoves (hs.mirror.toolAdded h) rfl rfl rfl rfl
    (fun _ _ _ => hs.mirror.own_toolAdded h) fun _ _ _ _ => rfl

theorem OrderInv.toolDeleted (hs : OrderInv (log, s)) {ref : ToolRef} (hdoomed : ref ∈ s.doomed) :
    OrderInv (log, s.toolDeleted ref) :=
  hs.registryMoves (hs.mirror.toolDeleted hdoomed) rfl rfl rfl rfl
    (fun _ _ _ => hs.mirror.own_toolDeleted hdoomed) fun _ _ _ hown =>
      hs.mirror.registry.lookup_toolDeleted hdoomed hown.1

/-! What enters is noted. -/

theorem OrderInv.issues_lt (hs : OrderInv (log, s)) {c : ClientId} {i : ListingKey}
    (h : issues s e = some (c, i)) : c < s.nextClient := by
  unfold issues at h
  split at h
  · split at h
    · cases h
      exact hs.mirror.fresh _ ‹_›
    · cases h
  · split at h
    · rename_i hc
      cases h
      exact hs.mirror.alive _ hc.1
    · cases h
  · split at h
    · cases h
    · split at h
      · rename_i hc
        cases h
        exact hs.mirror.alive _ hc.2
      · cases h
  · cases h

theorem OrderInv.fresh_cons (hs : OrderInv (log, s)) (e : BinderEvent) {c : ClientId}
    (hc : s.nextClient ≤ c) : ToolBinder.latest c ((s, e) :: log) = none :=
  latest_none (hs.fresh c hc) fun _ hi => absurd (hs.issues_lt hi) (Nat.not_lt.mpr hc)

/-- What enters brings no answer to a client that is bound. -/
theorem OrderInv.note (hs : OrderInv (log, s))
    (h : ∀ a, answers s e = some a → s.guarded a.client = none) : OrderInv ((s, e) :: log, s) := by
  refine ⟨hs.mirror, hs.living, fun c hc => hs.fresh_cons e hc,
    fun c b i s₀ tools hb hlatest => ?_, fun c n r tool hown htool => ?_⟩
  · rcases latest_cons hlatest with hearlier | ⟨a, ha, rfl, -⟩
    · exact hs.upToDate.latest c b i s₀ tools hb hearlier
    · have hguarded := h a ha
      unfold guarded at hguarded
      rw [if_pos (hs.living _ (mem_of_lookup hb)), hb] at hguarded
      cases hguarded
  · exact (hs.upToDate.stood c n r tool hown htool).cons _

/-- What enters brings an answer in time, and the answer is applied. -/
theorem OrderInv.answered (hs : OrderInv (log, s)) {a : ListingAnswer} (ha : answers s e = some a)
    (htime : InTime log s e) {binding : Binding} (hb : s.guarded a.client = some binding)
    (hsame : SameTools s s') (hconsistent : Consistent a.tools) :
    OrderInv ((s, e) :: log, s'.applyTools a.client a.tools) := by
  have hs' := hs.same hsame
  obtain ⟨hwaiting, hstanding⟩ := htime a ha (by rw [hb]; rfl)
  have hb : s.bindings.lookup a.client = some binding := by
    unfold guarded at hb
    split at hb
    · exact hb
    · cases hb
  obtain ⟨binding', hb', -⟩ := hsame.mem a.client binding hb
  obtain ⟨next, hmirrored, hbindings, halive, hclient⟩ := hs'.mirror.applied hb' hconsistent
  have hhistory : (s'.applyTools a.client a.tools).history =
      .applied a.client a.tools :: s'.history := by
    unfold ToolBinder.applyTools
    rw [hb']
  have hforeign : ∀ n, s'.Foreign a.client n → s.Foreign a.client n := by
    intro n
    unfold Foreign Own
    rw [hsame.registry, hsame.tools]
    exact id
  -- what the others have stays
  have hother : ∀ c, c ≠ a.client → ∀ n r, (s'.applyTools a.client a.tools).Own c n r →
      s'.Own c n r ∧ (s'.applyTools a.client a.tools).tools.lookup r = s'.tools.lookup r := by
    intro c hne n r hown
    have hown := (hs'.mirror.own_other hmirrored hne).mp hown
    exact ⟨hown, hmirrored.tools r (hs'.mirror.registry.registered n r hown.1).1⟩
  refine ⟨hs'.mirror.applyTools a.client hconsistent, fun c hc => ?_, fun c hc => ?_,
    fun c b i s₀ tools hc hlatest => ?_, fun c n r tool hown htool => ?_⟩
  · have hc : c ∈ (s'.applyTools a.client a.tools).bindings := hc
    show c ∈ (s'.applyTools a.client a.tools).alive
    rw [hbindings] at hc
    rw [halive]
    rcases (AList.mem_insert _).mp hc with rfl | hc
    · exact hs'.living _ (mem_of_lookup hb')
    · exact hs'.living c hc
  · have hc : (s'.applyTools a.client a.tools).nextClient ≤ c := hc
    rw [hclient, hsame.nextClient] at hc
    exact hs.fresh_cons e hc
  · rw [hbindings] at hc
    by_cases hcc : c = a.client
    · subst hcc
      rw [AList.lookup_insert] at hc
      obtain rfl := Option.some.inj hc
      rcases latest_cons hlatest with hearlier | ⟨a', ha', -, heq⟩
      · exact absurd hearlier (hwaiting i _)
      · obtain rfl := Option.some.inj (ha.symm.trans ha')
        cases heq
        refine ⟨hmirrored.only, [.applied a.client a.tools], ?_, .inr fun info hinfo => ?_⟩
        · rw [hhistory, hsame.history]
          rfl
        · exact (hmirrored.listed info hinfo).imp_left (hforeign _)
    · rw [AList.lookup_insert_ne hcc] at hc
      have hearlier : ToolBinder.latest c log = some (i, some (s₀, tools)) := by
        rcases latest_cons hlatest with hearlier | ⟨a', ha', hclient', -⟩
        · exact hearlier
        · obtain rfl := Option.some.inj (ha.symm.trans ha')
          exact absurd hclient'.symm hcc
      have hlisted : ∀ {name info r}, s'.Listed c name info r →
          (s'.applyTools a.client a.tools).Listed c name info r := by
        intro name info r hl
        have hown := (hs'.mirror.own_other hmirrored hcc).mpr hl.own
        obtain ⟨tool, htool, hrest⟩ := hl.tool
        exact ⟨hown.1, tool, (hother c hcc _ r hown).2.trans htool, hrest⟩
      obtain ⟨honly, later, hlater, hall⟩ := hs'.upToDate.latest c b i s₀ tools hc hearlier
      refine ⟨fun n r hown => ?_, .applied a.client a.tools :: later, ?_,
        hall.imp (List.mem_cons_of_mem _) fun hall info hinfo =>
          (hall info hinfo).imp_right fun ⟨r, hl⟩ => ⟨r, hlisted hl⟩⟩
      · obtain ⟨info, hinfo, hn, hl⟩ := honly n r (hother c hcc n r hown).1
        exact ⟨info, hinfo, hn, hlisted hl⟩
      · rw [hhistory, hlater]
        rfl
  · by_cases hcc : c = a.client
    · subst hcc
      obtain ⟨info, hinfo, -, hl⟩ := hmirrored.only n r hown
      obtain ⟨tool', htool', -, -, hjson⟩ := hl.tool
      obtain rfl := Option.some.inj (htool'.symm.trans htool)
      exact ⟨[], s, e, log, a, rfl, ha, rfl, hstanding, info, hinfo, hjson⟩
    · obtain ⟨hown', hkept⟩ := hother c hcc n r hown
      exact (hs'.upToDate.stood c n r tool hown' (hkept ▸ htool)).cons _

end Invariant

/-! ### The code -/

abbrev LoggedSig : Sig := BinderSig.logged BinderEvent

abbrev orderContract : Contract LoggedSig := .plain OrderInv fun _ _ => True

theorem orderContract_preorder : orderContract.Preorder := ⟨fun _ => trivial, fun _ _ => trivial⟩

section Code

variable {log : BinderLog} {s : ToolBinder} {e : BinderEvent} {α : Type}
  {ans : LoggedSig.State → (e : BinderOut) → LoggedSig.Ans e → Prop}

/-- The code keeps the invariant from a state on. -/
abbrev KeepsOrderAt (ans : LoggedSig.State → (e : BinderOut) → LoggedSig.Ans e → Prop)
    (p : Proc BinderSig α) (t : BinderLog × ToolBinder) : Prop :=
  wp ans orderContract (p.logged BinderEvent) (fun _ t' => OrderInv t' ∧ True) t

theorem keepsOrder_tidy {p : Proc BinderSig α} (h : Tidy p) (hs : OrderInv (log, s)) :
    KeepsOrderAt ans p (log, s) := by
  refine Proc.Within.keeps orderContract_preorder (I := logging BinderSig BinderEvent)
    (fun t s' ht htidies => ⟨ht.tidies htidies, trivial⟩) (fun e _ => ?_) h _ hs
  exact Contract.Keeps.query (S := LoggedSig) e

theorem keepsOrder_bind {β : Type} {p : Proc BinderSig α} {g : α → Proc BinderSig β}
    {t : BinderLog × ToolBinder} (hp : KeepsOrderAt ans p t)
    (hg : ∀ a t', OrderInv t' → KeepsOrderAt ans (g a) t') : KeepsOrderAt ans (p >>= g) t := by
  have hbind := Proc.implement_bind (logging BinderSig BinderEvent) p g
  show wp ans orderContract ((p >>= g).implement (logging BinderSig BinderEvent)) _ t
  rw [hbind]
  exact (wp_bind (S := LoggedSig) _ _ _ t).mpr (wp_mono hp fun a t' ht' => hg a t' ht'.1)

theorem keepsOrder_addServer (hs : OrderInv (log, s)) (endpoint : ServerEndpoint) :
    KeepsOrderAt ans (binderEntry (.addServer endpoint)) ((s, .addServer endpoint) :: log, s) := by
  have hnoted := hs.note (e := .addServer endpoint) nofun
  show KeepsOrderAt ans (discard (if endpoint.isValid then _ else _)) _
  by_cases hvalid : endpoint.isValid
  · have hnew : s.nextClient ∉ s.newClient.bindings := fun hc =>
      absurd (hs.mirror.fresh _ hc) (Nat.lt_irrefl _)
    have hlatest : ∀ i r, latest s.nextClient ((s, .addServer endpoint) :: log) ≠
        some (i, some r) := by
      intro i r
      rw [hs.fresh_cons _ (Nat.le_refl _)]
      nofun
    have hattached := hnoted.newClient.attach hnew (Finset.mem_insert_self _ _) hlatest
      endpoint.name true true
    have hrest : KeepsOrderAt ans (initializeClient s.nextClient) _ :=
      keepsOrder_tidy (tidy_initializeClient s.nextClient) hattached
    have hvisit : KeepsOrderAt ans
        ((initializeClient s.nextClient >>= fun _ => pure true) >>= fun _ => pure ()) _ :=
      keepsOrder_bind (keepsOrder_bind hrest fun _ _ ht => ⟨ht, trivial⟩)
        fun _ _ ht => ⟨ht, trivial⟩
    rw [if_pos hvalid]
    exact hvisit
  · rw [if_neg hvalid]
    exact ⟨hnoted, trivial⟩

theorem keepsOrder_addClient (hs : OrderInv (log, s)) (client : ClientId) (serverName : String)
    (autoReconnect : Bool) :
    KeepsOrderAt ans (addClient client serverName autoReconnect)
      ((s, .addClient client serverName autoReconnect) :: log, s) := by
  have hnoted := hs.note (e := .addClient client serverName autoReconnect) nofun
  show KeepsOrderAt ans (if client ∉ s.alive ∨ client ∈ s.bindings then _ else _) _
  by_cases hfree : client ∉ s.alive ∨ client ∈ s.bindings
  · rw [if_pos hfree]
    exact ⟨hnoted, trivial⟩
  · rw [if_neg hfree]
    obtain ⟨halive, hnew⟩ : client ∈ s.alive ∧ client ∉ s.bindings := by
      simpa only [not_or, not_not] using hfree
    have hissues : issues s (.addClient client serverName autoReconnect) =
        some (client, .resync s.nextListing) := if_pos ⟨halive, hnew⟩
    have hattached := hnoted.attach hnew halive (fun i r => by rw [latest_issued hissues]; nofun)
      serverName false autoReconnect
    have hrest : KeepsOrderAt ans (resyncClient client) _ :=
      keepsOrder_tidy (tidy_resyncClient client) hattached
    exact hrest

theorem sameTools_endAttempt (attempt : AttemptId) (s : ToolBinder) :
    SameTools s (s.endAttempt attempt) :=
  .of_eq rfl rfl rfl rfl rfl rfl rfl rfl

theorem keepsOrder_listed (hs : OrderInv (log, s)) {attempt : AttemptId} {tools : List ToolInfo}
    (hconsistent : Consistent tools) (htime : InTime log s (.listed attempt tools)) :
    KeepsOrderAt ans (onListed attempt tools) ((s, .listed attempt tools) :: log, s) := by
  have hnote : (∀ a, s.attempts.lookup attempt = some a → a.phase = .listing →
      s.guarded a.client = none) → OrderInv ((s, .listed attempt tools) :: log, s) := by
    refine fun h => hs.note fun answer hanswer => ?_
    unfold answers at hanswer
    dsimp only at hanswer
    split at hanswer
    · cases hanswer
    · split at hanswer
      · rename_i a ha hphase
        cases hanswer
        exact h a ha hphase
      · cases hanswer
  show KeepsOrderAt ans (match s.attempts.lookup attempt with
    | none => pure ()
    | some a => if a.phase ≠ .listing then pure () else _) _
  cases ha : s.attempts.lookup attempt with
  | none =>
      refine ⟨hnote fun a h => ?_, trivial⟩
      rw [ha] at h
      cases h
  | some a =>
      dsimp only
      by_cases hphase : a.phase = .listing
      · rw [if_neg (not_not.mpr hphase)]
        show KeepsOrderAt ans (if (s.guarded a.client).isNone then _ else _)
          ((s, .listed attempt tools) :: log, s.endAttempt attempt)
        cases hb : s.guarded a.client with
        | none =>
            have hnoted := hnote fun a' h _ => by
              obtain rfl := Option.some.inj (ha.symm.trans h)
              exact hb
            exact ⟨hnoted.same (sameTools_endAttempt attempt s), trivial⟩
        | some binding =>
            have hanswer : answers s (.listed attempt tools) =
                some ⟨a.client, .attempt attempt, tools⟩ := by
              unfold answers
              dsimp only
              rw [ha]
              exact if_pos hphase
            have hupdated := (sameTools_endAttempt attempt s).trans (sameTools_updateBinding
              a.client (f := fun b => { b with
                reconnectPending := false, backoffMs := kInitialBackoffMs }) (fun _ => rfl)
              (fun _ => rfl) _)
            have hanswered := hs.answered hanswer htime hb hupdated hconsistent
            have hrest : KeepsOrderAt ans (Proc.query (S := BinderSig)
                (.toolsSynced a.name tools.length) >>= fun _ =>
                  Proc.query (S := BinderSig) (.serverInitialized a.name)) _ :=
              keepsOrder_tidy (tidy_composes.bind (tidy_query _) fun _ => tidy_query _) hanswered
            exact hrest
      · rw [if_pos hphase]
        refine ⟨hnote fun a' h hlisting => ?_, trivial⟩
        obtain rfl := Option.some.inj (ha.symm.trans h)
        exact absurd hlisting hphase

theorem keepsOrder_resynced (hs : OrderInv (log, s)) {listing : ListingId}
    {tools : Option (List ToolInfo)} (hconsistent : ∀ list, tools = some list → Consistent list)
    (htime : InTime log s (.resynced listing tools)) :
    KeepsOrderAt ans (onResynced listing tools) ((s, .resynced listing tools) :: log, s) := by
  have hnote : (∀ list l, tools = some list → s.listings.lookup listing = some l →
      l.busy = false → s.guarded l.client = none) →
      OrderInv ((s, .resynced listing tools) :: log, s) := by
    refine fun h => hs.note fun answer hanswer => ?_
    cases tools with
    | none => cases hanswer
    | some list =>
        unfold answers at hanswer
        dsimp only at hanswer
        split at hanswer
        · cases hanswer
        · split at hanswer
          · cases hanswer
          · rename_i l hl hbusy
            cases hanswer
            exact h list l rfl hl (Bool.eq_false_of_not_eq_true hbusy)
  have herased : SameTools s { s with listings := s.listings.erase listing } :=
    .of_eq rfl rfl rfl rfl rfl rfl rfl rfl
  show KeepsOrderAt ans (match s.listings.lookup listing with
    | none => pure ()
    | some l => if l.busy then pure () else _) _
  cases hl : s.listings.lookup listing with
  | none =>
      refine ⟨hnote fun _ l _ h => ?_, trivial⟩
      rw [hl] at h
      cases h
  | some l =>
      dsimp only
      by_cases hbusy : l.busy = true
      · rw [if_pos hbusy]
        refine ⟨hnote fun _ l' _ h hfree => ?_, trivial⟩
        obtain rfl := Option.some.inj (hl.symm.trans h)
        rw [hbusy] at hfree
        cases hfree
      · rw [if_neg hbusy]
        cases tools with
        | none => exact ⟨(hnote nofun).same herased, trivial⟩
        | some list =>
            show KeepsOrderAt ans (if (s.guarded l.client).isNone then _ else _)
              ((s, .resynced listing (some list)) :: log,
                { s with listings := s.listings.erase listing })
            cases hb : s.guarded l.client with
            | none =>
                have hnoted := hnote fun _ l' _ h _ => by
                  obtain rfl := Option.some.inj (hl.symm.trans h)
                  exact hb
                exact ⟨hnoted.same herased, trivial⟩
            | some binding =>
                have hanswer : answers s (.resynced listing (some list)) =
                    some ⟨l.client, .resync listing, list⟩ := by
                  unfold answers
                  dsimp only
                  rw [hl]
                  exact if_neg hbusy
                have hanswered := hs.answered hanswer htime hb herased (hconsistent list rfl)
                have hrest : KeepsOrderAt ans
                    (Proc.query (S := BinderSig) (.toolsSynced l.name list.length)) _ :=
                  keepsOrder_tidy (tidy_query _) hanswered
                exact hrest

/-- Whatever enters keeps the tools those of the listing that was issued last. -/
theorem keepsOrder_entry (hs : OrderInv (log, s)) {e : BinderEvent} (he : Undisturbed s e)
    (htime : InTime log s e) : KeepsOrderAt ans (binderEntry e) ((s, e) :: log, s) := by
  have hnoted : answers s e = none → OrderInv ((s, e) :: log, s) := fun h =>
    hs.note fun a ha => by
      rw [h] at ha
      cases ha
  cases e with
  | addServer endpoint => exact keepsOrder_addServer hs endpoint
  | addClient client serverName autoReconnect =>
      exact keepsOrder_addClient hs client serverName autoReconnect
  | removeClient client => exact ⟨(hnoted rfl).removeClient client, trivial⟩
  | shutdown => exact keepsOrder_tidy tidy_shutdown (hnoted rfl)
  | clientCreated => exact ⟨(hnoted rfl).newClient, trivial⟩
  | clientDestroyed client => exact ⟨(hnoted rfl).destroyed client, trivial⟩
  | toolsChanged client => exact keepsOrder_tidy (tidy_resyncClient client) (hnoted rfl)
  | disconnected client => exact keepsOrder_tidy (tidy_onDisconnected client) (hnoted rfl)
  | reconnectTimer timer => exact keepsOrder_tidy (tidy_onReconnectTimer timer) (hnoted rfl)
  | connected attempt => exact keepsOrder_tidy (tidy_onConnected attempt) (hnoted rfl)
  | listed attempt tools => exact keepsOrder_listed hs he htime
  | initFailed attempt error =>
      exact keepsOrder_tidy (tidy_onInitFailed attempt error) (hnoted rfl)
  | resynced listing tools =>
      refine keepsOrder_resynced hs (fun list hlist => ?_) htime
      subst hlist
      exact he
  | toolAdded name => exact ⟨(hnoted rfl).toolAdded he, trivial⟩
  | toolRemoved name => exact ⟨(hnoted rfl).toolRemoved he, trivial⟩
  | toolDeleted ref =>
      refine ⟨?_, trivial⟩
      show OrderInv (_, if ref ∈ s.doomed then s.toolDeleted ref else s)
      split
      · exact (hnoted rfl).toolDeleted ‹_›
      · exact hnoted rfl

end Code

/-- The answers come in time, and the tools of a binding leave the registry only through the
binder. -/
abbrev inTime : Surroundings binderMachine.logged :=
  .only binderMachine.logged fun t e => Undisturbed t.2 e ∧ InTime t.1 t.2 e

theorem order_valid : Contract.Valid (M := binderMachine.logged) orderContract inTime :=
  .of_guarded orderContract_preorder
    (fun _ _ hs he => keepsOrder_entry hs he.1 he.2) nofun

theorem orderInv_init : OrderInv ([], {}) where
  mirror := mirrorInv_init
  living _ hc := absurd hc (AList.notMem_empty _)
  fresh _ _ := rfl
  upToDate := ⟨nofun, fun _ _ _ _ hown => absurd hown.1 nofun⟩

/-- Every run of the binder is one with a log. -/
theorem logged_undisturbed {c : Config BinderSig} (hrun : Reaches undisturbed (.idle {}) c) :
    ∃ log, Reaches (.only binderMachine.logged fun t e => Undisturbed t.2 e) (.idle ([], {}))
      ⟨(log, c.state), c.prog.logged BinderEvent⟩ :=
  hrun.logged (fun _ _ _ he => he) (fun _ _ _ _ he => he) (fun _ _ _ _ ha => ha) []

/-- As long as the answers to listings come in time, the tools of a binding are those of the listing
that was issued last, and were listed while its connection stood. -/
theorem latest_listing {c : Config LoggedSig}
    (hrun : Reaches (M := binderMachine.logged) inTime (.idle ([], {})) c) (hw : c.Waiting) :
    UpToDate c.state.1 c.state.2 :=
  (order_valid.waiting orderInv_init hrun hw).upToDate

theorem InTime.of_answer {log : BinderLog} {s : ToolBinder} {e : BinderEvent} {a : ListingAnswer}
    {i : ListingKey} (ha : answers s e = some a) (hlatest : latest a.client log = some (i, none))
    (hstanding : standing a.client a.listing log = true) : InTime log s e := by
  intro a' ha' _
  obtain rfl := Option.some.inj (ha.symm.trans ha')
  refine ⟨fun j r h => ?_, hstanding⟩
  rw [hlatest] at h
  cases h

/-- A server announces two changes, and what it lists is answered in this order. -/
def listingMoves (answers : List (ListingId × List ToolInfo)) : List (Move binderMachine.logged) :=
  [.event .clientCreated, .event (.addClient 0 "git" true), .answer fun _ => (),
    .event (.toolsChanged 0), .answer fun _ => (), .event (.toolsChanged 0), .answer fun _ => ()] ++
  answers.flatMap fun a => [.event (.resynced a.1 (some a.2)), .answer fun _ => ()]

def listingRun (answers : List (ListingId × List ToolInfo)) : Config LoggedSig :=
  play binderMachine.logged 0 (listingMoves answers) (.idle ([], {}))

theorem latest_listing_git :
    let c := listingRun [(0, []), (1, [{ name := "log" }]), (2, [{ name := "diff" }])]
    Reaches (M := binderMachine.logged) inTime (.idle ([], {})) c ∧ c.Waiting ∧
      UpToDate c.state.1 c.state.2 := by
  have hplay : Playable inTime 0
      (listingMoves [(0, []), (1, [{ name := "log" }]), (2, [{ name := "diff" }])])
      (.idle ([], {})) := by
    refine ⟨⟨trivial, nofun⟩, ⟨trivial, nofun⟩, trivial, ⟨trivial, nofun⟩, trivial,
      ⟨trivial, nofun⟩, trivial, ⟨nofun, .of_answer rfl rfl rfl⟩, trivial,
      ⟨consistent_of_nodup (by decide), .of_answer rfl rfl rfl⟩, trivial,
      ⟨consistent_of_nodup (by decide), .of_answer rfl rfl rfl⟩, trivial, trivial⟩
  have hrun := reaches_play hplay
  exact ⟨hrun, Or.inl rfl, latest_listing hrun (Or.inl rfl)⟩

/-- The older listing is answered after the newer one. -/
def overtakenRun : Config LoggedSig :=
  listingRun [(0, []), (2, [{ name := "diff" }]), (1, [{ name := "log" }])]

theorem older_listing_stays :
    Reaches (M := binderMachine.logged)
        (.only binderMachine.logged fun t e => Undisturbed t.2 e) (.idle ([], {})) overtakenRun ∧
      overtakenRun.Waiting ∧
      overtakenRun.state.2.listings = ∅ ∧ overtakenRun.state.2.attempts = ∅ ∧
      (∃ s₀, latest 0 overtakenRun.state.1 =
        some (.resync 2, some (s₀, [{ name := "diff" }]))) ∧
      overtakenRun.state.2.registry.keys = ["git_log"] ∧
      ¬UpToDate overtakenRun.state.1 overtakenRun.state.2 := by
  have hplay : Playable (.only binderMachine.logged fun t e => Undisturbed t.2 e) 0
      (listingMoves [(0, []), (2, [{ name := "diff" }]), (1, [{ name := "log" }])])
      (.idle ([], {})) := by
    exact ⟨trivial, trivial, trivial, trivial, trivial, trivial, trivial, nofun, trivial,
      consistent_of_nodup (by decide), trivial, consistent_of_nodup (by decide), trivial, trivial⟩
  refine ⟨reaches_play hplay, Or.inl rfl, rfl, rfl, ⟨_, rfl⟩, rfl, fun h => ?_⟩
  obtain ⟨info, hinfo, hname, -⟩ :=
    (h.latest 0 _ (.resync 2) _ [{ name := "diff" }] rfl rfl).1 "git_log" 1 ⟨rfl, _, rfl, rfl⟩
  obtain rfl := List.mem_singleton.mp hinfo
  exact absurd hname (by decide)

/-- The connection is dropped before its listing is answered. -/
def droppedMoves : List (Move binderMachine.logged) :=
  [.event .clientCreated, .event (.addClient 0 "git" true), .answer fun _ => (),
    .event (.disconnected 0), .answer fun _ => (),
    .event (.resynced 0 (some [{ name := "log" }])), .answer fun _ => ()]

def droppedRun : Config LoggedSig := play binderMachine.logged 0 droppedMoves (.idle ([], {}))

theorem dropped_listing_registers :
    Reaches (M := binderMachine.logged)
        (.only binderMachine.logged fun t e => Undisturbed t.2 e) (.idle ([], {})) droppedRun ∧
      droppedRun.Waiting ∧ standing 0 (.resync 0) droppedRun.state.1 = false ∧
      droppedRun.state.2.registry.keys = ["git_log"] ∧
      ¬StoodWhenListed droppedRun.state.1 0 { name := "log" } := by
  have hplay : Playable (.only binderMachine.logged fun t e => Undisturbed t.2 e) 0 droppedMoves
      (.idle ([], {})) :=
    ⟨trivial, trivial, trivial, trivial, trivial, consistent_of_nodup (by decide), trivial, trivial⟩
  refine ⟨reaches_play hplay, Or.inl rfl, rfl, rfl, ?_⟩
  -- only the last event brings an answer
  rintro ⟨later, s, e, earlier, a, hlog, ha, -, hstanding, -⟩
  match later, hlog with
  | [], hlog =>
      cases hlog
      cases ha
      cases hstanding
  | [_], hlog =>
      cases hlog
      cases ha
  | [_, _], hlog =>
      cases hlog
      cases ha
  | [_, _, _], hlog =>
      cases hlog
      cases ha
  | _ :: _ :: _ :: _ :: later, hlog =>
      have hlength : 4 = (later ++ (s, e) :: earlier).length + 4 := congrArg List.length hlog
      simp at hlength

end ToolBinder

end LLMQore.Mcp
