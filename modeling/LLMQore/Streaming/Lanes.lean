import Mathlib.Data.List.Basic
import Mathlib.Order.Basic

/-!
# Interleaved lanes

Steps that belong to lanes and come in any order: a step of a lane acts on what is seen of
the state at that lane and on nothing that is seen at others. Then what is seen at a lane
after a run is what the steps of that lane alone make of what was seen there before
(`view_foldl`), however the lanes interleave.
-/

namespace Streaming

variable {ι α σ τ : Type} [DecidableEq ι]

/-- The steps of a lane. -/
def lane (i : ι) (steps : List (ι × α)) : List α :=
  steps.filterMap fun s => if s.1 = i then some s.2 else none

@[simp] theorem lane_nil (i : ι) : lane i ([] : List (ι × α)) = [] := rfl

theorem lane_cons (i : ι) (s : ι × α) (steps : List (ι × α)) :
    lane i (s :: steps) = if s.1 = i then s.2 :: lane i steps else lane i steps := by
  unfold lane
  rw [List.filterMap_cons]
  split <;> simp_all

theorem lane_append (i : ι) (xs ys : List (ι × α)) : lane i (xs ++ ys) = lane i xs ++ lane i ys :=
  List.filterMap_append

theorem mem_lane {i : ι} {a : α} {steps : List (ι × α)} : a ∈ lane i steps ↔ (i, a) ∈ steps := by
  unfold lane
  rw [List.mem_filterMap]
  constructor
  · rintro ⟨⟨j, b⟩, hmem, h⟩
    split at h
    · cases h
      rename_i hj
      exact hj ▸ hmem
    · cases h
  · exact fun h => ⟨(i, a), h, if_pos rfl⟩

theorem lane_eq_nil {i : ι} {steps : List (ι × α)} (h : ∀ s ∈ steps, s.1 ≠ i) :
    lane i steps = [] :=
  List.filterMap_eq_nil_iff.mpr fun s hs => if_neg (h s hs)

/-- Where every lane has one step, a lane is that step. -/
theorem lane_map {β : Type} {index : β → ι} {value : β → α} {x : β} :
    ∀ {xs : List β}, (xs.map index).Nodup → x ∈ xs →
      lane (index x) (xs.map fun y => (index y, value y)) = [value x] := by
  intro xs
  induction xs with
  | nil => exact fun _ => nofun
  | cons y rest ih =>
      intro hnodup hx
      obtain ⟨hy, hrest⟩ := List.nodup_cons.mp hnodup
      rw [List.map_cons, lane_cons]
      rcases List.mem_cons.mp hx with rfl | hx
      · rw [if_pos rfl, lane_eq_nil]
        intro s hs he
        obtain ⟨z, hz, rfl⟩ := List.mem_map.mp hs
        exact hy (List.mem_map.mpr ⟨z, hz, he⟩)
      · rw [if_neg fun he => hy (List.mem_map.mpr ⟨x, hx, he.symm⟩)]
        exact ih hrest hx

/-- A run of interleaved steps, seen at a lane, is a run of the steps of that lane. The
invariant may speak of the steps that are still to come. -/
theorem view_foldl {step : σ → ι × α → σ} {view : σ → ι → τ} {stepView : ι → τ → α → τ}
    {inv : σ → List (ι × α) → Prop}
    (hstep : ∀ s i a rest, inv s ((i, a) :: rest) → inv (step s (i, a)) rest ∧
      view (step s (i, a)) i = stepView i (view s i) a ∧
      ∀ j, j ≠ i → view (step s (i, a)) j = view s j) :
    ∀ (steps : List (ι × α)) (s : σ), inv s steps →
      inv (steps.foldl step s) [] ∧
        ∀ j, view (steps.foldl step s) j = (lane j steps).foldl (stepView j) (view s j) := by
  intro steps
  induction steps with
  | nil => exact fun s h => ⟨h, fun _ => rfl⟩
  | cons head rest ih =>
      intro s h
      obtain ⟨i, a⟩ := head
      obtain ⟨hinv, hsame, hother⟩ := hstep s i a rest h
      obtain ⟨hend, hview⟩ := ih (step s (i, a)) hinv
      refine ⟨hend, fun j => ?_⟩
      rw [List.foldl_cons, hview j, lane_cons]
      by_cases hj : i = j
      · subst hj
        rw [if_pos rfl, List.foldl_cons, hsame]
      · rw [if_neg hj, hother j (Ne.symm hj)]

/-- Steps that come lane by lane are the steps of the lanes, one after the other. -/
theorem map_snd_eq_lanes (n : Nat) :
    ∀ steps : List (Nat × α), (∀ s ∈ steps, s.1 < n) →
      steps.Pairwise (fun s t => s.1 ≤ t.1) →
      steps.map Prod.snd = (List.range n).flatMap fun i => lane i steps := by
  have hsplit : ∀ (k : Nat) (steps : List (Nat × α)), steps.Pairwise (fun s t => s.1 ≤ t.1) →
      (∀ s ∈ steps, s.1 < k + 1) →
      ∃ low high, steps = low ++ high ∧ (∀ s ∈ low, s.1 < k) ∧ ∀ s ∈ high, s.1 = k := by
    intro k steps
    induction steps with
    | nil => exact fun _ _ => ⟨[], [], rfl, nofun, nofun⟩
    | cons s rest ih =>
        intro hsorted hlt
        obtain ⟨hle, hsorted⟩ := List.pairwise_cons.mp hsorted
        obtain ⟨hs, hlt⟩ := List.forall_mem_cons.mp hlt
        by_cases hk : s.1 < k
        · obtain ⟨low, high, rfl, hlow, hhigh⟩ := ih hsorted hlt
          exact ⟨s :: low, high, rfl, List.forall_mem_cons.mpr ⟨hk, hlow⟩, hhigh⟩
        · -- everything from here on is of lane `k`
          refine ⟨[], s :: rest, rfl, nofun, List.forall_mem_cons.mpr ⟨by omega, fun t ht => ?_⟩⟩
          have := hle t ht
          have := hlt t ht
          omega
  have hlane : ∀ (k : Nat) (steps : List (Nat × α)), (∀ s ∈ steps, s.1 = k) →
      lane k steps = steps.map Prod.snd ∧ ∀ i, i ≠ k → lane i steps = [] := by
    intro k steps
    induction steps with
    | nil => exact fun _ => ⟨rfl, fun _ _ => rfl⟩
    | cons s rest ih =>
        intro h
        obtain ⟨hs, hrest⟩ := List.forall_mem_cons.mp h
        obtain ⟨hsame, hother⟩ := ih hrest
        refine ⟨?_, fun i hi => ?_⟩
        · rw [lane_cons, if_pos hs, hsame, List.map_cons]
        · rw [lane_cons, if_neg fun he => hi (he.symm.trans hs), hother i hi]
  induction n with
  | zero =>
      intro steps hlt _
      cases steps with
      | nil => rfl
      | cons s rest => exact absurd (hlt s List.mem_cons_self) (Nat.not_lt_zero _)
  | succ k ih =>
      intro steps hlt hsorted
      obtain ⟨low, high, rfl, hlow, hhigh⟩ := hsplit k steps hsorted hlt
      obtain ⟨hsame, hother⟩ := hlane k high hhigh
      have hnone : lane k low = [] := lane_eq_nil fun s hs => Nat.ne_of_lt (hlow s hs)
      have hlanes : (List.range k).flatMap (fun i => lane i (low ++ high)) =
          (List.range k).flatMap fun i => lane i low := by
        refine List.flatMap_congr fun i hi => ?_
        have := List.mem_range.mp hi
        rw [lane_append, hother i (by omega), List.append_nil]
      rw [List.map_append, ih low hlow (List.pairwise_append.mp hsorted).1, List.range_succ,
        List.flatMap_append, hlanes, List.flatMap_singleton, lane_append, hnone, hsame,
        List.nil_append]

end Streaming
