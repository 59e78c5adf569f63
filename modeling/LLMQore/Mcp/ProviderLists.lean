import Mathlib.Data.List.ReduceOption
import Mathlib.Data.List.Nodup
import Mathlib.Data.List.Perm.Subperm
import LLMQore.Json
import LLMQore.Rpc.Session

/-!
# LLMQore.Mcp.ProviderLists

The lists of resources, of resource templates and of prompts that a server puts together from its
providers (`collectListFromProviders`).

Every provider is asked at once, and a list is added to the answer when the watcher of its future
reports. The watchers report in the order in which the futures finish.
-/

namespace LLMQore.Mcp

open Rpc (Exn)

/-! ### Lists that may be put together in any order -/

/-- Where the lists commute their order makes no difference. -/
theorem flatten_eq_of_perm {α : Type} {l l' : List (List α)} (h : l.Perm l')
    (hcomm : ∀ u ∈ l, ∀ v ∈ l, u ++ v = v ++ u) : l.flatten = l'.flatten := by
  induction h with
  | nil => rfl
  | cons u _ ih =>
      rw [List.flatten_cons, List.flatten_cons,
        ih fun u hu v hv => hcomm u (.tail _ hu) v (.tail _ hv)]
  | swap u v l =>
      have huv : v ++ u = u ++ v := hcomm v (.head _) u (.tail _ (.head _))
      rw [List.flatten_cons, List.flatten_cons, List.flatten_cons, List.flatten_cons,
        ← List.append_assoc, ← List.append_assoc, huv]
  | trans h₁ _ ih₁ ih₂ =>
      rw [ih₁ hcomm, ih₂ fun u hu v hv => hcomm u (h₁.mem_iff.mpr hu) v (h₁.mem_iff.mpr hv)]

/-- How the future of a provider ends. -/
abbrev ListOutcome (Item : Type) := Except Exn (List Item)

/-- The state of `collectListFromProviders`. -/
structure Collector (Item : Type) where
  /-- The futures, in the order in which the providers were registered. -/
  futures : List (Option (ListOutcome Item))
  /-- The watchers whose `finished` is still to be delivered, in that order. -/
  posted : List Nat := []
  /-- The watchers that have reported. No code reads them. -/
  reported : List Nat := []
  merged : List JsonValue := []
  remaining : Nat := 0
  /-- What `promise` was finished with. -/
  answers : List JsonObject := []

namespace Collector

variable {Item : Type} (toJson : Item → JsonValue) (resultKey : String)

/-- What a listing adds to the answer. -/
def items : ListOutcome Item → List JsonValue
  | .ok list => list.map toJson
  | .error _ => []

/-- `QJsonObject{{resultKey, merged}}` -/
def listAnswer (merged : List JsonValue) : JsonObject :=
  JsonObject.ofFields [(resultKey, .arr merged)]

/-- `collectListFromProviders`. A provider that is gone is null; `runFn` gives the state of the
future another one returns. The watchers of futures that are finished report first. -/
def collectListFromProviders {Provider : Type} (providers : List (Option Provider))
    (runFn : Provider → Option (ListOutcome Item)) : Collector Item :=
  let futures := providers.reduceOption.map runFn
  if futures.isEmpty then { futures, answers := [listAnswer resultKey []] }
  else
    { futures
      posted := (List.range futures.length).filter fun i => futures[i]?.join.isSome
      remaining := futures.length }

/-- The slot of a watcher. -/
def report (c : Collector Item) (i : Nat) (listing : ListOutcome Item) : Collector Item :=
  let c := { c with
    reported := c.reported ++ [i]
    merged := c.merged ++ items toJson listing
    remaining := c.remaining - 1 }
  if c.remaining = 0 then { c with answers := c.answers ++ [listAnswer resultKey c.merged] } else c

/-- What happens while the lists are put together. -/
inductive Event (Item : Type) where
  /-- The future of a provider ends. -/
  | ended (i : Nat) (listing : ListOutcome Item)
  /-- The event loop delivers the next `finished`. -/
  | reported

def step (c : Collector Item) : Event Item → Option (Collector Item)
  | .ended i listing =>
      match c.futures[i]? with
      | some none =>
          some { c with futures := c.futures.set i (some listing), posted := c.posted ++ [i] }
      | _ => none
  | .reported =>
      match c.posted with
      | [] => none
      | i :: rest =>
          match c.futures[i]?.join with
          | some listing => some ({ c with posted := rest }.report toJson resultKey i listing)
          | none => none

/-- A provider that is asked: how its future ends, and whether it is finished when it is
returned. -/
structure Asked (Item : Type) where
  listing : ListOutcome Item
  finished : Bool

def Asked.future (a : Asked Item) : Option (ListOutcome Item) :=
  if a.finished then some a.listing else none

/-- The runs in which the futures of the providers that are there end with the listings. -/
inductive Runs (listings : List (ListOutcome Item)) : Collector Item → Prop
  | start {providers : List (Option (Asked Item))} :
      providers.reduceOption.map Asked.listing = listings →
      Runs listings (collectListFromProviders resultKey providers Asked.future)
  | ended {c c' i listing} : Runs listings c → listings[i]? = some listing →
      c.step toJson resultKey (.ended i listing) = some c' → Runs listings c'
  | reported {c c'} : Runs listings c → c.step toJson resultKey .reported = some c' →
      Runs listings c'

/-- Every future has ended and every watcher has reported. -/
def Complete (c : Collector Item) : Prop := c.posted = [] ∧ ∀ f ∈ c.futures, f.isSome = true

/-- The answer is given once, after all have finished, and is that of the order of
registration. -/
structure TimingFree (listings : List (ListOutcome Item)) : Prop where
  complete : ∀ c, Runs toJson resultKey listings c → c.Complete →
    c.answers = [listAnswer resultKey (listings.flatMap (items toJson))]
  early : ∀ c, Runs toJson resultKey listings c → ¬c.Complete → c.answers = []

/-- The lists of any two providers give the same one in either order. -/
def Commuting (listings : List (ListOutcome Item)) : Prop :=
  ∀ u ∈ listings, ∀ v ∈ listings,
    items toJson u ++ items toJson v = items toJson v ++ items toJson u

/-! ### What a run keeps -/

section Runs

variable {toJson resultKey} {listings : List (ListOutcome Item)} {c c' : Collector Item} {i : Nat}

/-- What the watcher of a future adds. -/
def added (toJson : Item → JsonValue) (listings : List (ListOutcome Item)) (i : Nat) :
    List JsonValue :=
  (listings[i]?.map (items toJson)).getD []

/-- In a run. -/
structure RunInv (toJson : Item → JsonValue) (resultKey : String)
    (listings : List (ListOutcome Item)) (c : Collector Item) : Prop where
  length : c.futures.length = listings.length
  futures : ∀ (i : Nat) (listing : ListOutcome Item), c.futures[i]? = some (some listing) →
    listings[i]? = some listing
  once : (c.reported ++ c.posted).Nodup
  ended : ∀ i : Nat, i ∈ c.reported ++ c.posted ↔
    ∃ listing, c.futures[i]? = some (some listing)
  merged : c.merged = c.reported.flatMap (added toJson listings)
  remaining : c.remaining + c.reported.length = listings.length
  answers : c.answers = if c.remaining = 0 then [listAnswer resultKey c.merged] else []

theorem RunInv.lt (h : RunInv toJson resultKey listings c) (hi : i ∈ c.reported ++ c.posted) :
    i < listings.length := by
  obtain ⟨listing, hlisting⟩ := (h.ended i).mp hi
  rw [← h.length]
  exact (List.getElem?_eq_some_iff.mp hlisting).1

theorem RunInv.start {providers : List (Option (Asked Item))}
    (h : providers.reduceOption.map Asked.listing = listings) :
    RunInv toJson resultKey listings
      (collectListFromProviders resultKey providers Asked.future) := by
  subst h
  unfold collectListFromProviders
  generalize providers.reduceOption = asked
  dsimp only
  by_cases hempty : asked = []
  · subst hempty
    exact ⟨rfl, by simp, .nil, by simp, rfl, rfl, rfl⟩
  · rw [if_neg (by simpa using hempty)]
    have hlen : asked.length ≠ 0 := by simpa using hempty
    refine ⟨by simp, fun i listing hi => ?_, ?_, fun i => ?_, rfl, by simp, ?_⟩
    · simp only [List.getElem?_map, Option.map_eq_some_iff] at hi ⊢
      obtain ⟨a, ha, hfuture⟩ := hi
      unfold Asked.future at hfuture
      split at hfuture
      · exact ⟨a, ha, Option.some.inj hfuture⟩
      · cases hfuture
    · exact List.nodup_range.filter _
    · simp only [List.nil_append, List.mem_filter, List.mem_range, Option.isSome_iff_exists,
        Option.join_eq_some_iff, and_iff_right_iff_imp]
      rintro ⟨listing, hlisting⟩
      exact (List.getElem?_eq_some_iff.mp hlisting).1
    · simp [hlen]

theorem RunInv.ended_step (h : RunInv toJson resultKey listings c) {listing : ListOutcome Item}
    (hi : listings[i]? = some listing)
    (hstep : c.step toJson resultKey (.ended i listing) = some c') :
    RunInv toJson resultKey listings c' := by
  simp only [step] at hstep
  split at hstep
  · rename_i hnone
    obtain rfl := Option.some.inj hstep
    have hlt : i < c.futures.length := (List.getElem?_eq_some_iff.mp hnone).1
    have hfresh : i ∉ c.reported ++ c.posted := by
      intro hmem
      obtain ⟨f, hf⟩ := (h.ended i).mp hmem
      rw [hnone] at hf
      cases hf
    refine ⟨by simp [h.length], fun j f hj => ?_, ?_, fun j => ?_, h.merged, h.remaining,
      h.answers⟩
    · by_cases hij : i = j
      · subst hij
        rw [List.getElem?_set_self hlt] at hj
        rw [hi, ← Option.some.inj (Option.some.inj hj)]
      · rw [List.getElem?_set_ne hij] at hj
        exact h.futures j f hj
    · dsimp only
      rw [← List.append_assoc]
      exact List.Nodup.append h.once (List.nodup_singleton i) (by simpa using hfresh)
    · dsimp only
      rw [← List.append_assoc, List.mem_append, h.ended j, List.mem_singleton]
      by_cases hij : i = j
      · subst hij
        simp [List.getElem?_set_self hlt]
      · simp [List.getElem?_set_ne hij, Ne.symm hij]
  · cases hstep

theorem RunInv.reported_step (h : RunInv toJson resultKey listings c)
    (hstep : c.step toJson resultKey .reported = some c') :
    RunInv toJson resultKey listings c' := by
  simp only [step] at hstep
  split at hstep
  · cases hstep
  · rename_i i rest hposted
    split at hstep
    · rename_i listing hlisting
      obtain rfl := Option.some.inj hstep
      have hi := h.futures i listing (Option.join_eq_some_iff.mp hlisting)
      have horder : (c.reported ++ [i]) ++ rest = c.reported ++ c.posted := by
        rw [hposted]
        simp
      have hcount : c.reported.length + 1 ≤ listings.length := by
        have hle := (List.subperm_of_subset h.once (fun j hj => List.mem_range.mpr (h.lt hj)
          : c.reported ++ c.posted ⊆ List.range listings.length)).length_le
        rw [List.length_range, ← horder] at hle
        simp only [List.length_append, List.length_singleton] at hle
        omega
      have hmerged : c.merged ++ items toJson listing =
          (c.reported ++ [i]).flatMap (added toJson listings) := by
        simp [h.merged, added, hi]
      have hremaining := h.remaining
      have hnone : c.answers = [] := by
        rw [h.answers, if_neg (by omega)]
      have hrest : c.remaining - 1 + (c.reported ++ [i]).length = listings.length := by
        simp only [List.length_append, List.length_singleton]
        omega
      unfold report
      dsimp only
      split
      · rename_i hlast
        exact ⟨h.length, h.futures, by rw [horder]; exact h.once, by rw [horder]; exact h.ended,
          hmerged, hrest, by simp [hnone, hlast]⟩
      · rename_i hmore
        exact ⟨h.length, h.futures, by rw [horder]; exact h.once, by rw [horder]; exact h.ended,
          hmerged, hrest, by simp [hnone, hmore]⟩
    · cases hstep

theorem Runs.inv (h : Runs toJson resultKey listings c) : RunInv toJson resultKey listings c := by
  induction h with
  | start h => exact .start h
  | ended _ hi hstep ih => exact ih.ended_step hi hstep
  | reported _ hstep ih => exact ih.reported_step hstep

/-- In a complete run every watcher has reported, once. -/
theorem RunInv.perm (h : RunInv toJson resultKey listings c) (hc : c.Complete) :
    c.reported.Perm (List.range listings.length) := by
  have hposted := hc.1
  have honce := h.once
  have hended := h.ended
  rw [hposted, List.append_nil] at honce hended
  refine (List.perm_ext_iff_of_nodup honce List.nodup_range).mpr fun i => ?_
  rw [hended i, List.mem_range, ← h.length]
  constructor
  · rintro ⟨listing, hlisting⟩
    exact (List.getElem?_eq_some_iff.mp hlisting).1
  · intro hi
    obtain ⟨listing, hlisting⟩ := Option.isSome_iff_exists.mp (hc.2 _ (List.getElem_mem hi))
    exact ⟨listing, by rw [List.getElem?_eq_getElem hi, hlisting]⟩

/-- Where nothing remains the run is complete. -/
theorem RunInv.complete_iff (h : RunInv toJson resultKey listings c) :
    c.Complete ↔ c.remaining = 0 := by
  constructor
  · intro hc
    have hlen := (h.perm hc).length_eq
    rw [List.length_range] at hlen
    have := h.remaining
    omega
  · intro hzero
    have hall : (c.reported ++ c.posted) ⊆ List.range listings.length :=
      fun j hj => List.mem_range.mpr (h.lt hj)
    have hsub := List.subperm_of_subset h.once hall
    have hle := hsub.length_le
    have hremaining := h.remaining
    rw [List.length_range, List.length_append] at hle
    have hposted : c.posted = [] := List.length_eq_zero_iff.mp (by omega)
    refine ⟨hposted, fun f hf => ?_⟩
    obtain ⟨i, hi, rfl⟩ := List.getElem_of_mem hf
    have hperm : (c.reported ++ c.posted).Perm (List.range listings.length) :=
      hsub.perm_of_length_le (by rw [List.length_range, List.length_append]; omega)
    have hmem : i ∈ c.reported ++ c.posted :=
      hperm.mem_iff.mpr (List.mem_range.mpr (h.length ▸ hi))
    obtain ⟨listing, hlisting⟩ := (h.ended i).mp hmem
    rw [List.getElem?_eq_getElem hi] at hlisting
    rw [Option.some.inj hlisting]
    rfl

theorem flatMap_added (listings : List (ListOutcome Item)) :
    (List.range listings.length).flatMap (added toJson listings) =
      listings.flatMap (items toJson) := by
  have hmap : (List.range listings.length).map (added toJson listings) =
      listings.map (items toJson) := by
    refine List.ext_getElem (by simp) fun i hi _ => ?_
    have hlt : i < listings.length := by simpa using hi
    simp [added, hlt]
  rw [List.flatMap_def, hmap, ← List.flatMap_def]

/-! ### Every order -/

/-- The futures that have not ended may end in any order, each reported before the next ends. -/
theorem exists_run {order : List Nat} (h : Runs toJson resultKey listings c)
    (hposted : c.posted = []) (honce : order.Nodup)
    (hopen : ∀ i ∈ order, c.futures[i]? = some none) :
    ∃ c', Runs toJson resultKey listings c' ∧ c'.posted = [] ∧
      c'.reported = c.reported ++ order := by
  induction order generalizing c with
  | nil => exact ⟨c, h, hposted, by simp⟩
  | cons i order ih =>
      obtain ⟨hi, hrest⟩ := List.nodup_cons.mp honce
      have hnone : c.futures[i]? = some none := hopen i (.head _)
      have hlt : i < c.futures.length := (List.getElem?_eq_some_iff.mp hnone).1
      obtain ⟨listing, hlisting⟩ : ∃ listing, listings[i]? = some listing :=
        ⟨_, List.getElem?_eq_getElem (h.inv.length ▸ hlt)⟩
      -- the future ends, and its watcher is the only one to report
      have hended : c.step toJson resultKey (.ended i listing) = some { c with
          futures := c.futures.set i (some listing), posted := [i] } := by
        simp [step, hnone, hposted]
      obtain ⟨c₂, hstep, hposted₂, hreported₂, hfutures₂⟩ : ∃ c₂,
          ({ c with futures := c.futures.set i (some listing), posted := [i] }).step
            toJson resultKey .reported = some c₂ ∧ c₂.posted = [] ∧
          c₂.reported = c.reported ++ [i] ∧ c₂.futures = c.futures.set i (some listing) := by
        refine ⟨({ c with futures := c.futures.set i (some listing), posted := [] }).report
          toJson resultKey i listing, by simp [step, hlt], ?_⟩
        unfold report
        dsimp only
        split
        · exact ⟨rfl, rfl, rfl⟩
        · exact ⟨rfl, rfl, rfl⟩
      have hopen₂ : ∀ j ∈ order, c₂.futures[j]? = some none := by
        intro j hj
        have hne : i ≠ j := fun heq => hi (heq ▸ hj)
        rw [hfutures₂, List.getElem?_set_ne hne]
        exact hopen j (.tail _ hj)
      obtain ⟨c', hrun, hdone, horder⟩ :=
        ih ((h.ended hlisting hended).reported hstep) hposted₂ hrest hopen₂
      refine ⟨c', hrun, hdone, ?_⟩
      rw [horder, hreported₂, List.append_assoc]
      rfl

/-- The lists may be put together in any order. -/
theorem exists_answer {order : List Nat} (h : order.Perm (List.range listings.length)) :
    ∃ c, Runs toJson resultKey listings c ∧ c.Complete ∧
      c.answers = [listAnswer resultKey (order.flatMap (added toJson listings))] := by
  have hstart : Runs toJson resultKey listings (collectListFromProviders resultKey
      (listings.map fun listing => some { listing, finished := false }) Asked.future) :=
    .start (by simp [List.reduceOption, Function.comp_def])
  generalize hc : collectListFromProviders resultKey
    (listings.map fun listing => some { listing, finished := false }) Asked.future = c at hstart
  have hfutures : c.futures = listings.map fun _ => none := by
    rw [← hc]
    unfold collectListFromProviders
    dsimp only
    split <;> simp [List.reduceOption, Function.comp_def, Asked.future]
  have hnone : c.posted = [] ∧ c.reported = [] := by
    have hended : ∀ i, i ∉ c.reported ++ c.posted := by
      intro i hi
      obtain ⟨listing, hlisting⟩ := (hstart.inv.ended i).mp hi
      have hmem := List.mem_of_getElem? hlisting
      simp [hfutures] at hmem
    have hall := List.eq_nil_iff_forall_not_mem.mpr hended
    exact ⟨(List.append_eq_nil_iff.mp hall).2, (List.append_eq_nil_iff.mp hall).1⟩
  obtain ⟨c', hrun, hposted, hreported⟩ := exists_run hstart hnone.1
    (h.nodup_iff.mpr List.nodup_range) fun i hi => by
      have hlt := List.mem_range.mp (h.mem_iff.mp hi)
      simp [hfutures, hlt]
  rw [hnone.2, List.nil_append] at hreported
  have hzero : c'.remaining = 0 := by
    have hremaining := hrun.inv.remaining
    rw [hreported, h.length_eq, List.length_range] at hremaining
    omega
  refine ⟨c', hrun, hrun.inv.complete_iff.mpr hzero, ?_⟩
  rw [hrun.inv.answers, if_pos hzero, hrun.inv.merged, hreported]

theorem listAnswer_inj {xs ys : List JsonValue}
    (h : listAnswer resultKey xs = listAnswer resultKey ys) : xs = ys := by
  have hvalue : ∀ zs, (listAnswer resultKey zs).value resultKey = .arr zs :=
    fun zs => JsonObject.value_insert_arr _ _ _
  have harr := (hvalue xs).symm.trans
    ((congrArg (JsonObject.value · resultKey) h).trans (hvalue ys))
  exact JsonValue.arr.inj harr

/-- The answer is given once, when all providers have finished, and it is that of the order of
registration in every run just where the lists commute. -/
theorem provider_lists_iff (toJson : Item → JsonValue) (resultKey : String)
    (listings : List (ListOutcome Item)) :
    TimingFree toJson resultKey listings ↔ Commuting toJson listings := by
  constructor
  · intro h u hu v hv
    obtain ⟨i, hi, rfl⟩ := List.getElem_of_mem hu
    obtain ⟨j, hj, rfl⟩ := List.getElem_of_mem hv
    by_cases hij : i = j
    · subst hij
      rfl
    · -- the two finish first, in either order
      have hmem : j ∈ (List.range listings.length).erase i :=
        (List.mem_erase_of_ne (Ne.symm hij)).mpr (List.mem_range.mpr hj)
      have hperm : (i :: j :: ((List.range listings.length).erase i).erase j).Perm
          (List.range listings.length) :=
        ((List.perm_cons_erase hmem).symm.cons i).trans
          (List.perm_cons_erase (List.mem_range.mpr hi)).symm
      obtain ⟨c₁, hrun₁, hc₁, hanswer₁⟩ := @exists_answer _ toJson resultKey _ _ hperm
      obtain ⟨c₂, hrun₂, hc₂, hanswer₂⟩ :=
        @exists_answer _ toJson resultKey _ _ ((List.Perm.swap i j _).trans hperm)
      rw [h.complete c₁ hrun₁ hc₁] at hanswer₁
      rw [h.complete c₂ hrun₂ hc₂] at hanswer₂
      have hsame := listAnswer_inj (List.singleton_inj.mp (hanswer₁.symm.trans hanswer₂))
      simp only [List.flatMap_cons, ← List.append_assoc] at hsame
      simpa [added, hi, hj] using List.append_cancel_right hsame
  · intro h
    refine ⟨fun c hrun hc => ?_, fun c hrun hc => ?_⟩
    · have hinv := hrun.inv
      have hsame : c.merged = listings.flatMap (items toJson) := by
        rw [hinv.merged, ← flatMap_added, List.flatMap_def, List.flatMap_def]
        refine flatten_eq_of_perm ((hinv.perm hc).map _) fun u hu v hv => ?_
        have hadded : ∀ w ∈ c.reported.map (added toJson listings),
            ∃ listing ∈ listings, w = items toJson listing := by
          intro w hw
          obtain ⟨i, hi, rfl⟩ := List.mem_map.mp hw
          have hlt := hinv.lt (List.mem_append_left _ hi)
          exact ⟨_, List.getElem_mem hlt, by simp [added, hlt]⟩
        obtain ⟨a, ha, rfl⟩ := hadded u hu
        obtain ⟨b, hb, rfl⟩ := hadded v hv
        exact h a ha b hb
      rw [hinv.answers, if_pos (hinv.complete_iff.mp hc), hsame]
    · rw [hrun.inv.answers, if_neg (fun hzero => hc (hrun.inv.complete_iff.mpr hzero))]

end Runs

/-- Two providers, of which the second finishes first. -/
theorem provider_lists_swapped : ¬TimingFree JsonValue.str "prompts" [.ok ["a"], .ok ["b"]] := by
  intro h
  have hstart : Runs JsonValue.str "prompts" [.ok ["a"], .ok ["b"]] (collectListFromProviders
      "prompts" [some ⟨.ok ["a"], false⟩, some ⟨.ok ["b"], true⟩] Asked.future) := .start rfl
  have hfirst : ([.ok ["a"], .ok ["b"]] : List (ListOutcome String))[0]? =
      some (.ok ["a"]) := rfl
  have hrun := ((hstart.reported rfl).ended hfirst rfl).reported rfl
  have hanswer := h.complete _ hrun ⟨rfl, by decide⟩
  revert hanswer
  decide

end Collector

end LLMQore.Mcp
