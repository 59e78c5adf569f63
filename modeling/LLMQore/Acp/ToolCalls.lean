import LLMQore.Acp.AcpClient

/-!
# LLMQore.Acp.ToolCalls

How the client merges what it is told of a tool call in the course of a turn.

A field that a notification does not carry is read as empty, and so is one that it carries with an
empty value: `mergeToolCall` keeps what was there in both cases. What a tool call shows is
therefore, field by field, the last value of the turn that is not empty.
-/

namespace LLMQore

namespace Acp

open AcpTypes Json

/-! ### What a notification carries -/

/-- A notification of a tool call: whether it is the `tool_call` that starts one, and the object
that has its fields. -/
structure ToolNotification where
  sessionId : String
  starts : Bool
  fields : JsonObject

/-- The tool call it is about. -/
def ToolNotification.id (n : ToolNotification) : String := (n.fields.value "toolCallId").toString

/-- A `session/update` that tells of a tool call, in its `toolCall` or in the update itself. -/
def toolNotification (params : JsonObject) : Option ToolNotification :=
  let update := (params.value "update").toObject
  let kind := (update.value "sessionUpdate").toString
  let nested := update.value "toolCall"
  if kind = "tool_call" ∨ kind = "tool_call_update" then
    some
      { sessionId := (params.value "sessionId").toString
        starts := kind == "tool_call"
        fields := if nested.isObject then nested.toObject else update }
  else none

/-- The notifications of a run that are about one tool call of a session. -/
def notificationsOf (sessionId id : String) (events : List AcpEvent) : List ToolNotification :=
  events.filterMap fun
    | .sessionUpdate params =>
        (toolNotification params).filter fun n => n.sessionId = sessionId ∧ n.id = id
    | _ => none

/-- The value a notification carries for a field. -/
def ToolNotification.carried (n : ToolNotification) (f : Json.Field ToolCall) :
    Option f.type.Carrier :=
  if n.fields.contains f.name then
    some (f.type.decodeValue (n.fields.value f.name) f.type.blank)
  else none

/-- The last value of a field that was carried and counts, from the last start of the tool call,
or from `start` where there was none. -/
def lastValue (f : Json.Field ToolCall) (counts : f.type.Carrier → Bool) (start : f.type.Carrier)
    (notifications : List ToolNotification) : f.type.Carrier :=
  notifications.foldl
    (fun m n => ((n.carried f).filter counts).getD (if n.starts then f.get {} else m)) start

/-- A value that is not empty. -/
def nonEmpty (f : Json.Field ToolCall) (m : f.type.Carrier) : Bool := !f.type.isEmptyValue m

/-! ### Turns -/

/-- The event ends a turn of the session. -/
def EndsTurn (sessionId : String) (c : AcpClient) : AcpEvent → Prop
  | .reported promise =>
      ∃ q outcome, c.toReport promise = some (q, outcome) ∧ q.request.prompts sessionId = true
  | _ => False

/-- No turn of the session ends in a run. -/
def InTurn (sessionId : String) : AcpClient → List AcpEvent → Prop
  | _, [] => True
  | c, e :: events => ¬EndsTurn sessionId c e ∧ InTurn sessionId (c.step e) events

/-! ### The fields of a tool call -/

section Fields

variable {f : Json.Field ToolCall}

theorem get_blank (hf : f ∈ ToolCall.schema.fields) {m : f.type.Carrier}
    (hm : f.type.isEmptyValue m = true) : f.get {} = m := by
  have hall : ∀ f ∈ ToolCall.schema.fields, ∀ m, f.type.isEmptyValue m = true →
      f.get {} = m := by
    simp [ToolCall.schema]
  exact hall f hf m hm

theorem blank_eq (hf : f ∈ ToolCall.schema.fields) :
    f.type.blank = f.get {} ∧ f.type.isEmptyValue (f.get {}) = true := by
  have hall : ∀ f ∈ ToolCall.schema.fields,
      f.type.blank = f.get {} ∧ f.type.isEmptyValue (f.get {}) = true := by
    simp [ToolCall.schema, MemberType.blank]
  exact hall f hf

/-- Field by field, a notification that is not empty wins. -/
theorem get_mergeToolCall (hf : f ∈ ToolCall.schema.fields) (base upd : ToolCall) :
    f.get (mergeToolCall base upd) =
      if f.type.isEmptyValue (f.get upd) then f.get base else f.get upd := by
  have hall : ∀ f ∈ ToolCall.schema.fields, f.get (mergeToolCall base upd) =
      if f.type.isEmptyValue (f.get upd) then f.get base else f.get upd := by
    simp [ToolCall.schema, mergeToolCall]
  exact hall f hf

/-- The tool call a notification is decoded to. -/
def ToolNotification.toolCall (n : ToolNotification) : ToolCall := ToolCall.codec.fromJson n.fields

theorem get_toolCall (n : ToolNotification) (hf : f ∈ ToolCall.schema.fields) :
    f.get n.toolCall = (n.carried f).getD (f.get {}) := by
  have hapart : ToolCall.schema.fields.Pairwise fun f g => ∀ m v, f.get (g.set m v) = f.get v := by
    simp [ToolCall.schema]
  refine (get_readFields ToolCall.lawful.independent hapart hf {}).trans ?_
  unfold ToolNotification.carried
  rw [(blank_eq hf).1]
  split <;> rfl

/-- The id a notification is decoded to is the one it is filed under. -/
theorem toolCallId_toolCall (n : ToolNotification) : n.toolCall.toolCallId = n.id := by
  have hget := get_toolCall n (f := field "toolCallId" .string (·.toolCallId)
    fun m (v : ToolCall) => { v with toolCallId := m }) List.mem_cons_self
  refine hget.trans ?_
  show (if n.fields.contains "toolCallId" then
    some (JsonValue.toStringD (n.fields.value "toolCallId") "") else none).getD "" = _
  unfold ToolNotification.id
  by_cases hc : n.fields.contains "toolCallId" = true
  · rw [if_pos hc]
    cases n.fields.value "toolCallId" <;> rfl
  · rw [if_neg hc, JsonObject.value_of_not_contains (Bool.eq_false_iff.mpr hc)]
    rfl

end Fields

/-! ### One notification -/

section Notification

variable {c : AcpClient} {params : JsonObject} {n : ToolNotification}

/-- The tool call that a notification makes of what was there. -/
def ToolNotification.merge (n : ToolNotification) (base : ToolCall) : ToolCall :=
  if n.starts then n.toolCall else mergeToolCall base n.toolCall

/-- The signal that tells of it. -/
def ToolNotification.signal (n : ToolNotification) (toolCall : ToolCall) : AcpSignal :=
  if n.starts then .toolCallStarted n.sessionId toolCall
  else .toolCallUpdated n.sessionId toolCall

/-- The tool call of a session, an empty one where there is none. -/
def AcpClient.stored (c : AcpClient) (sessionId id : String) : ToolCall :=
  ((c.tools sessionId).lookup id).getD {}

theorem sessionNotification_eq (params : JsonObject) :
    SessionNotification.schema.fromJson params =
      { sessionId := (params.value "sessionId").toString
        update := SessionUpdate.fromJson (params.value "update").toObject } := by
  have hind := SessionNotification.lawful.independent
  have hapart : SessionNotification.schema.fields.Pairwise fun f g =>
      ∀ m v, f.get (g.set m v) = f.get v := by
    simp [SessionNotification.schema]
  have hid : (SessionNotification.schema.fromJson params).sessionId =
      (params.value "sessionId").toString := by
    refine (get_readFields hind hapart List.mem_cons_self {}).trans ?_
    show (if params.contains "sessionId" then
      JsonValue.toStringD (params.value "sessionId") "" else "") = _
    split
    · cases params.value "sessionId" <;> rfl
    · rename_i hc
      rw [JsonObject.value_of_not_contains (Bool.eq_false_iff.mpr hc)]
      rfl
  have hbody : (SessionNotification.schema.fromJson params).update =
      SessionUpdate.fromJson (params.value "update").toObject := by
    refine (get_readFields hind hapart (List.mem_cons_of_mem _ List.mem_cons_self) {}).trans ?_
    show (if params.contains "update" then
      SessionUpdate.fromJson (params.value "update").toObject else {}) = _
    split
    · rfl
    · rename_i hc
      rw [JsonObject.value_of_not_contains (Bool.eq_false_iff.mpr hc)]
      rfl
  rw [← hid, ← hbody]

/-- The tool call of an update that tells of one. -/
theorem toolCall_update {update : JsonObject}
    (h : (update.value "sessionUpdate").toString = "tool_call" ∨
      (update.value "sessionUpdate").toString = "tool_call_update") :
    (SessionUpdate.fromJson update).toolCall =
      some (ToolCall.codec.fromJson
        (if (update.value "toolCall").isObject then (update.value "toolCall").toObject
          else update)) := by
  unfold SessionUpdate.fromJson
  dsimp only
  cases hnested : (update.value "toolCall").isObject with
  | true =>
      have hc : update.contains "toolCall" = true := by
        by_contra hnot
        rw [JsonObject.value_of_not_contains (Bool.eq_false_iff.mpr hnot)] at hnested
        cases hnested
      simp [hc]
  | false => simp [h]

/-- What the client does with a notification of a tool call. -/
theorem handleSessionUpdate_tool (h : toolNotification params = some n) :
    c.handleSessionUpdate params =
      (c.putTools n.sessionId
        ((c.tools n.sessionId).insert (n.merge (c.stored n.sessionId n.id)).toolCallId
          (n.merge (c.stored n.sessionId n.id)))).emit
        (n.signal (n.merge (c.stored n.sessionId n.id))) := by
  unfold toolNotification at h
  dsimp only at h
  split at h
  · rename_i hkind
    have htool := toolCall_update hkind
    obtain ⟨hsession, hstarts, hfields⟩ : n.sessionId = (params.value "sessionId").toString ∧
        n.starts = (((params.value "update").toObject.value "sessionUpdate").toString ==
          "tool_call") ∧
        ToolCall.codec.fromJson
          (if ((params.value "update").toObject.value "toolCall").isObject then
            ((params.value "update").toObject.value "toolCall").toObject
          else (params.value "update").toObject) = n.toolCall := by
      obtain rfl := Option.some.inj h
      exact ⟨rfl, rfl, rfl⟩
    rw [hfields] at htool
    have hname : (SessionUpdate.fromJson (params.value "update").toObject).sessionUpdate =
        ((params.value "update").toObject.value "sessionUpdate").toString := rfl
    unfold AcpClient.handleSessionUpdate ToolNotification.merge ToolNotification.signal
    rw [sessionNotification_eq]
    dsimp only
    rw [hname, htool, ← hsession]
    rcases hkind with hkind | hkind <;> rw [hkind] at hstarts ⊢
    · rw [hstarts]
      rfl
    · rw [hstarts, ← toolCallId_toolCall]
      rfl
  · cases h

/-- Any other update leaves the tool calls alone. -/
theorem tools_handleSessionUpdate (h : toolNotification params = none) :
    (c.handleSessionUpdate params).tools = c.tools := by
  have hsome : ∀ {α : Type} (x : Option α) (signal : α → AcpSignal),
      ((x.map (c.emit <| signal ·)).getD c).tools = c.tools := by
    intro α x signal
    cases x <;> rfl
  have hkind : ¬((SessionUpdate.fromJson (params.value "update").toObject).sessionUpdate =
      "tool_call" ∨ (SessionUpdate.fromJson (params.value "update").toObject).sessionUpdate =
        "tool_call_update") := fun hkind => by
    unfold toolNotification at h
    dsimp only at h
    split at h
    · cases h
    · exact absurd hkind ‹_›
  unfold AcpClient.handleSessionUpdate
  rw [sessionNotification_eq]
  dsimp only
  split
  iterate 3 exact hsome _ _
  · exact absurd (.inl ‹_›) hkind
  · exact absurd (.inr ‹_›) hkind
  · exact hsome _ _
  all_goals rfl

end Notification

/-! ### Runs -/

/-- Every tool call is filed under its id. -/
def Keyed (c : AcpClient) : Prop :=
  ∀ sid id t, (c.tools sid).lookup id = some t → t.toolCallId = id

section Runs

variable {c : AcpClient} {e : AcpEvent} {sid id : String}

theorem Keyed.stored (h : Keyed c) : (c.stored sid id).toolCallId = id ∨
    (c.tools sid).lookup id = none := by
  unfold AcpClient.stored
  cases hl : (c.tools sid).lookup id with
  | none => exact .inr rfl
  | some t => exact .inl (h sid id t hl)

/-- What a notification makes is filed under its id. -/
theorem Keyed.merge (h : Keyed c) (n : ToolNotification) :
    (n.merge (c.stored n.sessionId n.id)).toolCallId = n.id := by
  have hdecoded := toolCallId_toolCall n
  unfold ToolNotification.merge
  split
  · exact hdecoded
  · show (if n.toolCall.toolCallId.isEmpty then _ else n.toolCall.toolCallId) = n.id
    split
    · rename_i hempty
      have hid : n.id = "" := hdecoded ▸ String.isEmpty_iff.mp hempty
      obtain hstored | hnone : (c.stored n.sessionId n.id).toolCallId = n.id ∨
          (c.tools n.sessionId).lookup n.id = none := h.stored
      · exact hstored
      · unfold AcpClient.stored
        rw [hnone, hid]
        rfl
    · exact hdecoded

/-- A notification files the tool call it is about, and no other. -/
theorem lookup_notification (h : Keyed c) {params : JsonObject} {n : ToolNotification}
    (hn : toolNotification params = some n) (sid id : String) :
    ((c.handleSessionUpdate params).tools sid).lookup id =
      if n.sessionId = sid ∧ n.id = id then some (n.merge (c.stored n.sessionId n.id))
      else (c.tools sid).lookup id := by
  rw [handleSessionUpdate_tool hn, tools_emit, tools_putTools, h.merge n]
  by_cases hsid : sid = n.sessionId
  · subst hsid
    rw [if_pos rfl]
    by_cases hid : id = n.id
    · subst hid
      simp
    · simp [AList.lookup_insert_ne hid, Ne.symm hid]
  · simp [hsid, Ne.symm hsid]

/-- The other events keep the tool calls of a session, or its turn ends with them. -/
theorem tools_step (hnot : ∀ params, e ≠ .sessionUpdate params) (sid : String) :
    (c.step e).tools sid = c.tools sid ∨ EndsTurn sid c e ∧ (c.step e).tools sid = ∅ := by
  have hrequest : ∀ (c : AcpClient) (r : AcpRequest), (c.request r).tools = c.tools := by
    intro c r
    unfold AcpClient.request
    split <;> rfl
  cases e with
  | sessionUpdate params => exact absurd rfl (hnot params)
  | connectAndInitialize params opens => exact .inl (congrFun (hrequest _ _) sid)
  | loadSession params =>
      exact .inl ((congrFun (hrequest _ _) sid).trans (tools_addSession sid))
  | cancel sessionId =>
      left
      show (c.cancel sessionId).tools sid = c.tools sid
      unfold AcpClient.cancel
      split <;> rfl
  | shutdown =>
      left
      show (AcpClient.tools (if _ then _ else _) sid) = c.tools sid
      split <;> rfl
  | reported promise =>
      cases hreport : c.toReport promise with
      | none =>
          left
          simp only [AcpClient.step, hreport]
      | some found =>
          obtain ⟨q, outcome⟩ := found
          have hstep : c.step (.reported promise) = c.report q outcome := by
            simp only [AcpClient.step, hreport]
          rw [hstep]
          cases outcome with
          | exception error => exact .inl (congrFun (tools_report_failed q error) sid)
          | result v =>
              have htools : (c.report q (.result v)).tools sid =
                  if q.request.prompts sid then ∅ else c.tools sid :=
                tools_answered q.request v sid
              by_cases hprompt : q.request.prompts sid = true
              · exact .inr ⟨⟨q, .result v, hreport, hprompt⟩, htools.trans (if_pos hprompt)⟩
              · exact .inl (htools.trans (if_neg hprompt))
  | settled promise outcome => exact .inl rfl
  | transportOpened => exact .inl rfl
  | transportClosed => exact .inl rfl
  | _ => exact .inl (congrFun (hrequest _ _) sid)

theorem Keyed.step (h : Keyed c) (e : AcpEvent) : Keyed (c.step e) := by
  intro sid id t hl
  by_cases hnot : ∀ params, e ≠ .sessionUpdate params
  · rcases tools_step (c := c) hnot sid with heq | ⟨-, heq⟩ <;> rw [heq] at hl
    · exact h sid id t hl
    · simp at hl
  · push Not at hnot
    obtain ⟨params, rfl⟩ := hnot
    have hl : ((c.handleSessionUpdate params).tools sid).lookup id = some t := hl
    cases hn : toolNotification params with
    | none =>
        rw [tools_handleSessionUpdate hn] at hl
        exact h sid id t hl
    | some n =>
        rw [lookup_notification h hn] at hl
        split at hl
        · rename_i hself
          obtain rfl := Option.some.inj hl
          exact (h.merge n).trans hself.2
        · exact h sid id t hl

theorem keyed_run (events : List AcpEvent) : Keyed (AcpClient.run events) := by
  induction events using List.reverseRecOn with
  | nil => intro sid id t hl; simp [AcpClient.run, AcpClient.tools] at hl
  | append_singleton events e ih =>
      have hrun : AcpClient.run (events ++ [e]) = (AcpClient.run events).step e := by
        simp [AcpClient.run]
      exact hrun ▸ ih.step e

/-- Field by field, what a notification makes of a tool call. -/
theorem get_merge (n : ToolNotification) (base : ToolCall) {f : Json.Field ToolCall}
    (hf : f ∈ ToolCall.schema.fields) :
    f.get (n.merge base) = lastValue f (nonEmpty f) (f.get base) [n] := by
  have hget := get_toolCall n hf
  show _ = ((n.carried f).filter (nonEmpty f)).getD (if n.starts then f.get {} else f.get base)
  -- an empty value is the one of a field that was not carried
  have hempty : f.type.isEmptyValue (f.get n.toolCall) = true →
      (n.carried f).filter (nonEmpty f) = none ∧ f.get n.toolCall = f.get {} := by
    intro hm
    refine ⟨?_, (get_blank hf hm).symm⟩
    cases hc : n.carried f with
    | none => rfl
    | some m =>
        rw [hc, Option.getD_some] at hget
        exact Option.filter_some_neg (by rw [← hget, nonEmpty, hm]; rfl)
  have hvalue : f.type.isEmptyValue (f.get n.toolCall) = false →
      (n.carried f).filter (nonEmpty f) = some (f.get n.toolCall) := by
    intro hm
    cases hc : n.carried f with
    | none =>
        rw [hc, Option.getD_none] at hget
        rw [hget, (blank_eq hf).2] at hm
        cases hm
    | some m =>
        rw [hc, Option.getD_some] at hget
        rw [hget] at hm ⊢
        exact Option.filter_some_pos (by rw [nonEmpty, hm]; rfl)
  unfold ToolNotification.merge
  cases hm : f.type.isEmptyValue (f.get n.toolCall) with
  | true =>
      obtain ⟨hnone, hblank⟩ := hempty hm
      rw [hnone, Option.getD_none]
      split
      · exact hblank
      · rw [get_mergeToolCall hf, hm, if_pos rfl]
  | false =>
      rw [hvalue hm, Option.getD_some]
      split
      · rfl
      · rw [get_mergeToolCall hf, hm, if_neg Bool.false_ne_true]

theorem notificationsOf_append (events events' : List AcpEvent) :
    notificationsOf sid id (events ++ events') =
      notificationsOf sid id events ++ notificationsOf sid id events' :=
  List.filterMap_append

theorem notificationsOf_update {params : JsonObject} {n : ToolNotification}
    (hn : toolNotification params = some n) :
    notificationsOf sid id [.sessionUpdate params] =
      if n.sessionId = sid ∧ n.id = id then [n] else [] := by
  simp only [notificationsOf, List.filterMap_cons, List.filterMap_nil, hn, Option.filter_some]
  by_cases hself : n.sessionId = sid ∧ n.id = id <;> simp [hself]

theorem lastValue_append {f : Json.Field ToolCall} {counts : f.type.Carrier → Bool}
    {start : f.type.Carrier} (ns ns' : List ToolNotification) :
    lastValue f counts start (ns ++ ns') = lastValue f counts (lastValue f counts start ns) ns' :=
  List.foldl_append

/-- One step of a turn brings each field of each tool call of the session up to date. -/
theorem stored_step (h : Keyed c) (hturn : ¬EndsTurn sid c e) (id : String)
    {f : Json.Field ToolCall} (hf : f ∈ ToolCall.schema.fields) :
    f.get ((c.step e).stored sid id) =
      lastValue f (nonEmpty f) (f.get (c.stored sid id)) (notificationsOf sid id [e]) := by
  by_cases hnot : ∀ params, e ≠ .sessionUpdate params
  · have hnone : notificationsOf sid id [e] = [] := by
      cases e with
      | sessionUpdate params => exact absurd rfl (hnot params)
      | _ => rfl
    have htools := (tools_step (c := c) hnot sid).resolve_right fun hend => hturn hend.1
    rw [hnone, AcpClient.stored, htools]
    rfl
  · push Not at hnot
    obtain ⟨params, rfl⟩ := hnot
    show f.get ((c.handleSessionUpdate params).stored sid id) = _
    cases hn : toolNotification params with
    | none =>
        have hnone : notificationsOf sid id [.sessionUpdate params] = [] := by
          simp [notificationsOf, hn]
        rw [hnone, AcpClient.stored, tools_handleSessionUpdate hn]
        rfl
    | some n =>
        rw [AcpClient.stored, lookup_notification h hn, notificationsOf_update hn]
        by_cases hself : n.sessionId = sid ∧ n.id = id
        · rw [if_pos hself, if_pos hself, Option.getD_some, get_merge n _ hf, hself.1, hself.2]
        · rw [if_neg hself, if_neg hself]
          rfl

/-- And so does a whole turn. -/
theorem stored_run (events : List AcpEvent) {f : Json.Field ToolCall}
    (hf : f ∈ ToolCall.schema.fields) :
    ∀ {c : AcpClient}, Keyed c → InTurn sid c events → ∀ id,
      f.get ((events.foldl AcpClient.step c).stored sid id) =
        lastValue f (nonEmpty f) (f.get (c.stored sid id)) (notificationsOf sid id events) := by
  induction events with
  | nil => exact fun _ _ _ => rfl
  | cons e events ih =>
      intro c h hturn id
      rw [List.foldl_cons, ih (h.step e) hturn.2 id, stored_step h hturn.1 id hf,
        ← lastValue_append, ← notificationsOf_append, List.singleton_append]

end Runs

/-- **Tool calls are merged field by field.** After each notification of a tool call in a turn of
its session, whatever else happens in that turn: the tool call that is filed and the one the signal
tells of have in every field the last value that is not empty of those that the notifications of the
turn have carried for it since the last `tool_call`, and where there is none the value that was
filed when the turn began; and every other tool call is as it was. -/
theorem toolCalls_merged (before turn : List AcpEvent) (params : JsonObject)
    (n : ToolNotification) (hn : toolNotification params = some n)
    (hturn : InTurn n.sessionId (AcpClient.run before) turn) :
    let c := turn.foldl AcpClient.step (AcpClient.run before)
    let c' := c.step (.sessionUpdate params)
    ∃ toolCall, c'.history = .emitted (n.signal toolCall) :: c.history ∧
      (c'.tools n.sessionId).lookup n.id = some toolCall ∧
      (∀ f ∈ ToolCall.schema.fields, f.get toolCall =
        lastValue f (nonEmpty f) (f.get ((AcpClient.run before).stored n.sessionId n.id))
          (notificationsOf n.sessionId n.id turn ++ [n])) ∧
      ∀ sid id, ¬(n.sessionId = sid ∧ n.id = id) →
        (c'.tools sid).lookup id = (c.tools sid).lookup id := by
  intro c c'
  have hkeyed : Keyed c := by
    have hrun : c = AcpClient.run (before ++ turn) := by
      simp [c, AcpClient.run]
    exact hrun ▸ keyed_run _
  refine ⟨n.merge (c.stored n.sessionId n.id), ?_, ?_, fun f hf => ?_, fun sid id hother => ?_⟩
  · show (c.handleSessionUpdate params).history = _
    rw [handleSessionUpdate_tool hn]
    rfl
  · exact (lookup_notification hkeyed hn _ _).trans (if_pos ⟨rfl, rfl⟩)
  · rw [get_merge n _ hf, lastValue_append, stored_run turn hf (keyed_run before) hturn n.id]
  · exact (lookup_notification hkeyed hn sid id).trans (if_neg hother)

/-- A notification of the tool call `t` of the session `s`. -/
def sampleUpdate (kind : String) (fields : List (String × JsonValue)) : JsonObject :=
  JsonObject.ofFields [("sessionId", .str "s"),
    ("update", .obj (JsonObject.ofFields (("sessionUpdate", .str kind) :: ("toolCallId", .str "t") ::
      fields)))]

/-- A tool call with a title that gets a status. -/
theorem toolCalls_merged_status :
    let c := AcpClient.run [.sessionUpdate (sampleUpdate "tool_call" [("title", .str "Read")])]
    let n : ToolNotification :=
      ⟨"s", false, JsonObject.ofFields [("sessionUpdate", .str "tool_call_update"),
        ("toolCallId", .str "t"), ("status", .str "completed")]⟩
    let c' := c.step
      (.sessionUpdate (sampleUpdate "tool_call_update" [("status", .str "completed")]))
    ∃ toolCall, c'.history = .emitted (n.signal toolCall) :: c.history ∧
      (c'.tools "s").lookup n.id = some toolCall ∧
      (∀ f ∈ ToolCall.schema.fields, f.get toolCall =
        lastValue f (nonEmpty f) (f.get ((AcpClient.run []).stored "s" n.id))
          (notificationsOf "s" n.id
            [.sessionUpdate (sampleUpdate "tool_call" [("title", .str "Read")])] ++ [n])) ∧
      ∀ sid id, ¬("s" = sid ∧ n.id = id) →
        (c'.tools sid).lookup id = (c.tools sid).lookup id :=
  toolCalls_merged [] [.sessionUpdate (sampleUpdate "tool_call" [("title", .str "Read")])]
    (sampleUpdate "tool_call_update" [("status", .str "completed")]) _ rfl ⟨id, trivial⟩

/-- Locations that are taken back with an empty list. -/
theorem emptyList_not_merged :
    let events : List AcpEvent :=
      [.sessionUpdate (sampleUpdate "tool_call"
          [("locations", .arr [.obj (JsonObject.ofFields [("path", .str "a.txt")])])]),
        .sessionUpdate (sampleUpdate "tool_call_update" [("locations", .arr [])])]
    ¬∃ toolCall, ((AcpClient.run events).tools "s").lookup "t" = some toolCall ∧
      ∀ f ∈ ToolCall.schema.fields, f.get toolCall =
        lastValue f (fun _ => true) (f.get {}) (notificationsOf "s" "t" events) := by
  rintro events ⟨toolCall, hstored, hfields⟩
  have hlocations : toolCall.locations = [{ path := "a.txt" }] := by
    obtain rfl := Option.some.inj hstored
    rfl
  have hlast : toolCall.locations = [] :=
    hfields _ (List.mem_of_getElem? (i := 5) rfl)
  rw [hlocations] at hlast
  cases hlast

end Acp

end LLMQore
