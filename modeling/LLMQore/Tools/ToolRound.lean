import Mathlib.Data.List.AList
import LLMQore.Core.ContentBlocks

/-!
# LLMQore.Tools.ToolRound

One round of tool calls (`ToolRound`): the calls in the order they came, which
of them is next, and the results so far.

`m_indexById` is the index of `m_pending`, and every operation keeps it so: the
round carries the proof. That the ids of a round are pairwise distinct, and that
settling a call finds exactly the call of that id, follow from it.
-/

namespace LLMQore.Tools

structure PendingTool where
  id : String
  name : String
  input : JsonObject
  result : ToolResult := {}
  resultText : String := ""
  complete : Bool := false

/-- `ToolRound::Call`. -/
structure ToolRound.Call where
  id : String
  name : String
  input : JsonObject := []

/-- An empty index finds the calls of a round without calls. -/
theorem nothing_indexed : ∀ id i, (∅ : AList fun _ : String => Nat).lookup id = some i ↔
    (([] : List PendingTool).map PendingTool.id)[i]? = some id := by
  simp

/-- The state of a `ToolRound`. -/
structure ToolRound where
  requestId : String := ""
  pending : List PendingTool := []
  indexById : AList (fun _ : String => Nat) := ∅
  next : Nat := 0
  advancing : Bool := false
  closed : Bool := false
  /-- The index finds exactly the calls there are. -/
  indexed : ∀ id i, indexById.lookup id = some i ↔ (pending.map PendingTool.id)[i]? = some id := by
    exact nothing_indexed

namespace ToolRound

/-- The ids of the calls of the round. -/
def ids (r : ToolRound) : List String := r.pending.map PendingTool.id

theorem ids_nodup (r : ToolRound) : r.ids.Nodup := by
  refine List.nodup_iff_getElem?_ne_getElem?.mpr fun i j hij hj heq => ?_
  obtain ⟨id, hid⟩ : ∃ id, r.ids[j]? = some id := ⟨_, List.getElem?_eq_getElem hj⟩
  have hi := (r.indexed id i).mpr (heq.trans hid)
  have hj := (r.indexed id j).mpr hid
  rw [hi] at hj
  exact absurd (Option.some.inj hj) (Nat.ne_of_lt hij)

theorem mem_ids {r : ToolRound} {id : String} : id ∈ r.ids ↔ ∃ p ∈ r.pending, p.id = id :=
  List.mem_map

/-- Two calls of a round with the same id are the same call. -/
theorem eq_of_id {r : ToolRound} {p q : PendingTool} (hp : p ∈ r.pending) (hq : q ∈ r.pending)
    (h : p.id = q.id) : p = q :=
  List.inj_on_of_nodup_map r.ids_nodup hp hq h

theorem contains_index {r : ToolRound} {id : String} : id ∈ r.indexById ↔ id ∈ r.ids := by
  rw [← AList.lookup_isSome, Option.isSome_iff_exists, List.mem_iff_getElem?]
  exact exists_congr fun i => r.indexed id i

/-- The loop body of `addCalls`. -/
def addCall (r : ToolRound) (call : Call) : ToolRound :=
  if h : call.id ∈ r.indexById then r
  else
    { r with
      indexById := r.indexById.insert call.id r.pending.length
      pending := r.pending ++ [{ id := call.id, name := call.name, input := call.input }]
      indexed := by
        intro id i
        have hnew : call.id ∉ r.ids := fun hm => h (contains_index.mpr hm)
        have hlen : (r.pending.map PendingTool.id).length = r.pending.length := List.length_map _
        rw [List.map_append]
        by_cases hid : id = call.id
        · subst hid
          rw [AList.lookup_insert]
          rcases Nat.lt_trichotomy i r.pending.length with hi | rfl | hi
          · rw [List.getElem?_append_left (by omega)]
            refine ⟨fun he => by cases he; omega, fun he => ?_⟩
            exact absurd (List.mem_of_getElem? he) hnew
          · rw [List.getElem?_append_right (by omega), hlen]
            simp
          · rw [List.getElem?_append_right (by omega)]
            refine ⟨fun he => by cases he; omega, fun he => ?_⟩
            rw [List.getElem?_eq_none (by simp; omega)] at he
            cases he
        · rw [AList.lookup_insert_ne hid, r.indexed id i]
          rcases Nat.lt_or_ge i r.pending.length with hi | hi
          · rw [List.getElem?_append_left (by omega)]
          · rw [List.getElem?_append_right (by omega),
              List.getElem?_eq_none (l := r.pending.map PendingTool.id) (by omega)]
            constructor <;> intro he
            · cases he
            · have hmem := List.mem_of_getElem? he
              simp only [List.map_cons, List.map_nil, List.mem_singleton] at hmem
              exact absurd hmem hid }

/-- What `settle` writes into a call. -/
def settledTool (p : PendingTool) (result : ToolResult) (success : Bool) : PendingTool :=
  let text := result.asText
  { p with
    result
    resultText := if success || text.startsWith "Error:" then text else "Error: " ++ text
    complete := true }

/-- `settle`; `none` where it returns false. -/
def settle (r : ToolRound) (toolId : String) (result : ToolResult) (success : Bool) :
    Option ToolRound :=
  match r.indexById.lookup toolId with
  | none => none
  | some index =>
      match hp : r.pending[index]? with
      | none => none
      | some p =>
          if p.complete then none
          else
            some { r with
              pending := r.pending.set index (settledTool p result success)
              indexed := by
                intro id i
                have hid : (r.pending.map PendingTool.id).set index p.id
                    = r.pending.map PendingTool.id := by
                  refine List.ext_getElem? fun j => ?_
                  rw [List.getElem?_set, List.getElem?_map]
                  by_cases hj : index = j
                  · subst hj
                    obtain ⟨hlt, hget⟩ := List.getElem?_eq_some_iff.mp hp
                    simp [hlt, hget]
                  · simp [hj]
                rw [List.map_set]
                exact (r.indexed id i).trans (by rw [← hid]; simp [settledTool]) }

/-- The part of `abandon` that concerns the round. -/
def abandon (r : ToolRound) : ToolRound :=
  { r with closed := true, pending := [], indexById := ∅, next := 0, indexed := nothing_indexed }

/-- `isSettled`. -/
def isSettled (r : ToolRound) : Bool := !r.pending.isEmpty && r.pending.all (·.complete)

/-- `find`. -/
def find (r : ToolRound) (toolId : String) : Option PendingTool :=
  match r.indexById.lookup toolId with
  | none => none
  | some index => r.pending[index]?

/-- `results`. -/
def results (r : ToolRound) : AList (fun _ : String => ToolResult) :=
  r.pending.foldl (fun results p =>
    if p.complete then results.insert p.id p.result else results) ∅

/-! ### What the operations do -/

section Settle

variable {r r' : ToolRound} {id : String} {result : ToolResult} {success : Bool}

/-- Settling replaces the call of that id, which was not complete. -/
theorem settle_cases (h : r.settle id result success = some r') :
    ∃ before p after, r.pending = before ++ p :: after ∧ p.id = id ∧ p.complete = false ∧
      r'.pending = before ++ settledTool p result success :: after ∧
      r'.requestId = r.requestId ∧ r'.next = r.next ∧ r'.advancing = r.advancing ∧
      r'.closed = r.closed := by
  unfold settle at h
  split at h
  · cases h
  · rename_i index hindex
    split at h
    · cases h
    · rename_i p hp
      split at h
      · cases h
      · rename_i hcomplete
        obtain rfl := Option.some.inj h
        obtain ⟨hlt, hget⟩ := List.getElem?_eq_some_iff.mp hp
        have hid : p.id = id := by
          have hmap := (r.indexed id index).mp hindex
          rw [List.getElem?_map, hp] at hmap
          exact Option.some.inj hmap
        refine ⟨r.pending.take index, p, r.pending.drop (index + 1), ?_, hid, by simpa using hcomplete,
          List.set_eq_take_append_cons_drop .. |>.trans (if_pos hlt), rfl, rfl, rfl, rfl⟩
        rw [← hget, List.getElem_cons_drop, List.take_append_drop]

/-- A call that is not complete can be settled. -/
theorem settle_isSome (result : ToolResult) (success : Bool) {p : PendingTool}
    (hp : p ∈ r.pending) (hid : p.id = id) (hc : p.complete = false) :
    ∃ r', r.settle id result success = some r' := by
  obtain ⟨index, hindex⟩ := List.mem_iff_getElem?.mp hp
  have hlookup : r.indexById.lookup id = some index := by
    rw [r.indexed, List.getElem?_map, hindex, ← hid]
    rfl
  unfold settle
  rw [hlookup]
  simp only
  split
  · rename_i hnone
    rw [hindex] at hnone
    cases hnone
  · rename_i q hq
    obtain rfl : p = q := Option.some.inj (hindex.symm.trans hq)
    rw [if_neg (by simp [hc])]
    exact ⟨_, rfl⟩

theorem settle_ids (h : r.settle id result success = some r') : r'.ids = r.ids := by
  obtain ⟨before, p, after, hp, -, -, hp', -⟩ := settle_cases h
  simp [ids, hp, hp', settledTool]

/-- The calls after settling: the settled one, and the others as they were. -/
theorem mem_settle (h : r.settle id result success = some r') (q : PendingTool) :
    q ∈ r'.pending ↔ (∃ p ∈ r.pending, p.id = id ∧ q = settledTool p result success) ∨
      (q ∈ r.pending ∧ q.id ≠ id) := by
  obtain ⟨before, p, after, hp, hid, -, hp', -⟩ := settle_cases h
  have hnodup := r.ids_nodup
  rw [ids, hp, List.map_append, List.map_cons, List.nodup_middle, List.nodup_cons, hid] at hnodup
  have hothers : ∀ q ∈ before ++ after, q.id ≠ id := fun q hq he =>
    hnodup.1 (by rw [← List.map_append, ← he]; exact List.mem_map_of_mem hq)
  rw [hp', hp]
  simp only [List.mem_append, List.mem_cons] at hothers ⊢
  constructor
  · rintro (hq | rfl | hq)
    · exact .inr ⟨.inl hq, hothers q (.inl hq)⟩
    · exact .inl ⟨p, .inr (.inl rfl), hid, rfl⟩
    · exact .inr ⟨.inr (.inr hq), hothers q (.inr hq)⟩
  · rintro (⟨p', hp', hid', rfl⟩ | ⟨hq | rfl | hq, hne⟩)
    · obtain hmem | rfl | hmem := hp'
      · exact absurd hid' (hothers _ (.inl hmem))
      · exact .inr (.inl rfl)
      · exact absurd hid' (hothers _ (.inr hmem))
    · exact .inl hq
    · exact absurd hid hne
    · exact .inr (.inr hq)

end Settle

/-- The results are those of the complete calls. -/
theorem lookup_results (r : ToolRound) (id : String) (result : ToolResult) :
    r.results.lookup id = some result ↔
      ∃ p ∈ r.pending, p.id = id ∧ p.complete ∧ p.result = result := by
  have hgen : ∀ (ps : List PendingTool) (m : AList (fun _ : String => ToolResult)),
      (ps.map PendingTool.id).Nodup → (∀ p ∈ ps, p.id ∉ m) →
      ((ps.foldl (fun results p =>
          if p.complete then results.insert p.id p.result else results) m).lookup id = some result ↔
        m.lookup id = some result ∨ ∃ p ∈ ps, p.id = id ∧ p.complete ∧ p.result = result) := by
    intro ps
    induction ps with
    | nil => intro m _ _; simp
    | cons p ps ih =>
        intro m hnodup hfresh
        obtain ⟨hp, hps⟩ := List.nodup_cons.mp hnodup
        have hpm : p.id ∉ m := hfresh p List.mem_cons_self
        have hne : ∀ q ∈ ps, q.id ≠ p.id := fun q hq he =>
          hp (by rw [← he]; exact List.mem_map_of_mem hq)
        rw [List.foldl_cons, ih _ hps]
        · by_cases hc : p.complete
          · rw [if_pos hc]
            by_cases hid : id = p.id
            · subst hid
              rw [AList.lookup_insert, AList.lookup_eq_none.mpr hpm]
              refine ⟨fun he => .inr ⟨p, List.mem_cons_self, rfl, hc, ?_⟩, fun he => ?_⟩
              · rcases he with he | ⟨q, hq, hid, -⟩
                · exact Option.some.inj he
                · exact absurd hid (hne q hq)
              · obtain he | ⟨q, hq, hid, -, he⟩ := he
                · cases he
                · rcases List.mem_cons.mp hq with rfl | hq
                  · exact .inl (congrArg some he)
                  · exact absurd hid (hne q hq)
            · rw [AList.lookup_insert_ne hid]
              simp [Ne.symm hid]
          · simp [hc]
        · intro q hq
          split
          · rw [AList.mem_insert]
            exact not_or.mpr ⟨hne q hq, hfresh q (List.mem_cons_of_mem _ hq)⟩
          · exact hfresh q (List.mem_cons_of_mem _ hq)
  rw [results, hgen r.pending ∅ r.ids_nodup fun p _ => AList.notMem_empty _]
  simp

/-- Adding a call to a round that has none of its id. -/
theorem addCall_of_notMem {r : ToolRound} {call : Call} (h : call.id ∉ r.ids) :
    (r.addCall call).pending =
        r.pending ++ [{ id := call.id, name := call.name, input := call.input }] ∧
      (r.addCall call).requestId = r.requestId ∧ (r.addCall call).next = r.next ∧
      (r.addCall call).advancing = r.advancing ∧ (r.addCall call).closed = r.closed := by
  rw [addCall, dif_neg fun hm => h (contains_index.mp hm)]
  exact ⟨rfl, rfl, rfl, rfl, rfl⟩

theorem isSettled_iff {r : ToolRound} :
    r.isSettled = true ↔ r.pending ≠ [] ∧ ∀ p ∈ r.pending, p.complete = true := by
  simp [isSettled]

end ToolRound

end LLMQore.Tools
