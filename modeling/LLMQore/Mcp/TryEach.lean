import Mathlib.Data.Finset.Card
import Mathlib.Data.List.Pairwise
import LLMQore.Json
import LLMQore.Rpc.Session

/-!
# LLMQore.Mcp.TryEach

A resource or a prompt that a server looks for at one provider after the other
(`tryEachProvider`).

Behind the future of a provider stand two continuations, each with a watcher of its own: one takes
the value and the one behind it takes the exception. What the first one does not throw the second
one passes over, and it catches what is a `std::exception`.
-/

namespace LLMQore.Mcp

open Rpc (Exn)

/-- The watcher behind a future that reports next. -/
inductive ChainStage where
  /-- That of `then`. -/
  | value
  /-- That of `onFailed`. -/
  | failure
  | over
  deriving DecidableEq

/-- A provider that was asked, and how its future has ended. -/
structure Trial (T : Type) where
  provider : Nat
  outcome : Option (Except Exn T) := none
  stage : ChainStage := .value

/-- What a continuation does with the state it shares with the others. -/
inductive Reaction where
  | none
  | advance
  | finish (json : JsonValue)

/-- `TryEachState`, with the futures and the continuations behind them. -/
structure TryEach (T : Type) where
  index : Nat := 0
  /-- The providers that are gone. -/
  gone : Finset Nat := ∅
  trials : List (Trial T) := []
  /-- What `promise` was finished with. -/
  settled : List (Except Exn JsonValue) := []

/-- The continuations behind the future of a provider, at the next report. -/
def Trial.report {T : Type} (extract : T → Option JsonValue) (a : Trial T) :
    Option (Trial T × Reaction) :=
  match a.stage, a.outcome with
  | .value, some (.ok value) =>
      match extract value with
      | some json => some ({ a with stage := .failure }, .finish json)
      | none => some ({ a with stage := .failure }, .advance)
  | .value, some (.error _) => some ({ a with stage := .failure }, .none)
  | .failure, some (.ok _) => some ({ a with stage := .over }, .none)
  | .failure, some (.error error) =>
      -- no handler catches what is no `std::exception`
      some ({ a with stage := .over }, if error = .unknown then .none else .advance)
  | _, _ => none

namespace TryEach

variable {T : Type} (extract : T → Option JsonValue) (count : Nat) (notFoundMsg : String)

/-- The index at which the loop of `tryEachAdvance` stops. -/
def nextLive (gone : Finset Nat) : Nat → Nat → Nat
  | 0, index => index
  | left + 1, index => if index ∈ gone then nextLive gone left (index + 1) else index

def notFound : Exn := .remoteError (-32602) notFoundMsg .undefined

/-- `tryEachAdvance`, up to the future of the provider it asks. -/
def advance (s : TryEach T) : TryEach T :=
  let index := nextLive s.gone (count - s.index) s.index
  if count ≤ index then
    { s with index, settled := s.settled ++ [.error (notFound notFoundMsg)] }
  else
    { s with index := index + 1, trials := s.trials ++ [{ provider := index }] }

def react (s : TryEach T) : Reaction → TryEach T
  | .none => s
  | .advance => s.advance count notFoundMsg
  | .finish json => { s with settled := s.settled ++ [.ok json] }

/-- What happens while providers are tried. -/
inductive Event (T : Type) where
  /-- A provider is destroyed. -/
  | destroyed (i : Nat)
  /-- The future of the `k`-th provider that was asked ends. -/
  | ended (k : Nat) (outcome : Except Exn T)
  /-- A watcher behind that future reports. -/
  | reported (k : Nat)

def step (s : TryEach T) : Event T → Option (TryEach T)
  | .destroyed i =>
      if i < count ∧ i ∉ s.gone then some { s with gone := insert i s.gone } else none
  | .ended k outcome =>
      match s.trials[k]? with
      | some { provider, outcome := none, stage } =>
          some { s with trials := s.trials.set k { provider, outcome, stage } }
      | _ => none
  | .reported k =>
      match s.trials[k]? with
      | some a =>
          (a.report extract).map fun (a', reaction) =>
            { s with trials := s.trials.set k a' }.react count notFoundMsg reaction
      | none => none

/-- `tryEachProvider`, of `count` providers of which those in `gone` are destroyed. -/
def tryEachProvider (gone : Finset Nat) : TryEach T := advance count notFoundMsg { gone }

def run (s : TryEach T) : List (Event T) → Option (TryEach T)
  | [] => some s
  | e :: es => (s.step extract count notFoundMsg e).bind (run · es)

/-- Every future has ended and every watcher has reported. -/
def Quiet (s : TryEach T) : Prop := ∀ a ∈ s.trials, a.stage = .over

end TryEach

namespace Trial

variable {T : Type} (extract : T → Option JsonValue) (a : Trial T)

/-- The provider has answered with a value that is not accepted, or with an exception. -/
def Refused : Prop :=
  (∃ value, a.outcome = some (.ok value) ∧ extract value = none) ∨
    ∃ error, a.outcome = some (.error error)

/-- The provider has answered with a value that is accepted. -/
def Accepts (json : JsonValue) : Prop :=
  ∃ value, a.outcome = some (.ok value) ∧ extract value = some json

end Trial

namespace TryEach

variable {T : Type} (extract : T → Option JsonValue) (count : Nat) (notFoundMsg : String)

/-- The providers that were asked, in that order. -/
def asked (trials : List (Trial T)) : List Nat := trials.map (·.provider)

/-- The promise is settled once, as the first provider that accepts says, or with the error when
none does. Each provider before it is gone or was asked and has refused. -/
inductive FirstSuccess (s : TryEach T) : Prop
  | accepted (earlier : List (Trial T)) (last : Trial T) (json : JsonValue)
      (trials : s.trials = earlier ++ [last])
      (refused : ∀ a ∈ earlier, a.Refused extract)
      (accepts : last.Accepts extract json)
      (settled : s.settled = [.ok json])
      (before : ∀ i < last.provider, i ∈ s.gone ∨ i ∈ asked earlier)
  | notFound (refused : ∀ a ∈ s.trials, a.Refused extract)
      (settled : s.settled = [.error (notFound notFoundMsg)])
      (all : ∀ i < count, i ∈ s.gone ∨ i ∈ asked s.trials)

/-! ### One provider -/

section Trial

variable {extract} {a a' : Trial T} {reaction : Reaction}

/-- The provider has refused, and its continuations do nothing more. -/
structure Passed (extract : T → Option JsonValue) (a : Trial T) : Prop where
  refused : a.Refused extract
  known : a.outcome ≠ some (.error .unknown)
  inert : a.stage = .over ∨ ∃ value, a.outcome = some (.ok value) ∧ a.stage = .failure

/-- The continuations of the provider are still to go on. -/
def Active (a : Trial T) : Prop :=
  a.stage = .value ∨ a.stage = .failure ∧ ∃ error, a.outcome = some (.error error)

/-- The provider has accepted, and its continuations do nothing more. -/
structure Accepted (extract : T → Option JsonValue) (json : JsonValue) (a : Trial T) : Prop where
  accepts : a.Accepts extract json
  inert : a.stage ≠ .value

/-- The provider has failed with what no handler catches. -/
structure Lost (a : Trial T) : Prop where
  outcome : a.outcome = some (.error .unknown)
  stage : a.stage = .over

/-- A report leaves the provider and the outcome as they are. -/
theorem report_same (h : a.report extract = some (a', reaction)) :
    a'.provider = a.provider ∧ a'.outcome = a.outcome := by
  unfold Trial.report at h
  split at h
  · split at h <;> cases h <;> exact ⟨rfl, rfl⟩
  all_goals cases h
  all_goals exact ⟨rfl, rfl⟩

theorem Passed.not_active (ha : Passed extract a) : ¬Active a := by
  rintro (hvalue | ⟨hfailure, error, herror⟩)
  · rcases ha.inert with hstage | ⟨value, -, hstage⟩
    · rw [hstage] at hvalue
      cases hvalue
    · rw [hstage] at hvalue
      cases hvalue
  · rcases ha.inert with hstage | ⟨value, hvalue, -⟩
    · rw [hstage] at hfailure
      cases hfailure
    · rw [hvalue] at herror
      cases herror

theorem Passed.not_accepts (ha : Passed extract a) (json : JsonValue) :
    ¬a.Accepts extract json := by
  rintro ⟨value, hvalue, haccepts⟩
  rcases ha.refused with ⟨value', hvalue', hnone⟩ | ⟨error, herror⟩
  · rw [hvalue] at hvalue'
    cases hvalue'
    rw [haccepts] at hnone
    cases hnone
  · rw [hvalue] at herror
    cases herror

theorem Passed.report (ha : Passed extract a) (h : a.report extract = some (a', reaction)) :
    Passed extract a' ∧ reaction = .none := by
  obtain ⟨provider, outcome, stage⟩ := a
  rcases ha.inert with hstage | ⟨value, hvalue, hstage⟩
  · obtain rfl : stage = .over := hstage
    cases outcome <;> cases h
  · obtain rfl : stage = .failure := hstage
    obtain rfl : outcome = some (.ok value) := hvalue
    cases h
    exact ⟨⟨ha.refused, ha.known, .inl rfl⟩, rfl⟩

theorem Accepted.report {json : JsonValue} (ha : Accepted extract json a)
    (h : a.report extract = some (a', reaction)) :
    Accepted extract json a' ∧ reaction = .none := by
  obtain ⟨provider, outcome, stage⟩ := a
  obtain ⟨⟨value, hvalue, haccepts⟩, hstage⟩ := ha
  obtain rfl : outcome = some (.ok value) := hvalue
  by_cases hfailure : stage = .failure
  · subst hfailure
    cases h
    exact ⟨⟨⟨value, rfl, haccepts⟩, nofun⟩, rfl⟩
  · cases stage
    · exact absurd rfl hstage
    · exact absurd rfl hfailure
    · cases h

theorem Lost.report (ha : Lost a) : a.report extract = none := by
  obtain ⟨provider, outcome, stage⟩ := a
  obtain ⟨houtcome, hstage⟩ := ha
  obtain rfl : stage = .over := hstage
  cases outcome <;> rfl

/-- What the continuations of the provider under way may do. -/
theorem Active.report (ha : Active a) (h : a.report extract = some (a', reaction)) :
    (Active a' ∧ reaction = .none) ∨ (Passed extract a' ∧ reaction = .advance) ∨
      (∃ json, Accepted extract json a' ∧ reaction = .finish json) ∨
      (Lost a' ∧ reaction = .none) := by
  obtain ⟨provider, outcome, stage⟩ := a
  rcases ha with hstage | ⟨hstage, error, herror⟩
  · obtain rfl : stage = .value := hstage
    cases outcome with
    | none => cases h
    | some outcome =>
        cases outcome with
        | error error =>
            cases h
            exact .inl ⟨.inr ⟨rfl, error, rfl⟩, rfl⟩
        | ok value =>
            simp only [Trial.report] at h
            split at h
            · rename_i json hjson
              cases h
              exact .inr (.inr (.inl ⟨json, ⟨⟨value, rfl, hjson⟩, nofun⟩, rfl⟩))
            · rename_i hnone
              cases h
              exact .inr (.inl ⟨⟨.inl ⟨value, rfl, hnone⟩, nofun, .inr ⟨value, rfl, rfl⟩⟩, rfl⟩)
  · obtain rfl : stage = .failure := hstage
    obtain rfl : outcome = some (.error error) := herror
    cases h
    by_cases hunknown : error = .unknown
    · subst hunknown
      exact .inr (.inr (.inr ⟨⟨rfl, rfl⟩, rfl⟩))
    · refine .inr (.inl ⟨⟨.inr ⟨error, rfl⟩, ?_, .inl rfl⟩, if_neg hunknown⟩)
      intro heq
      exact hunknown (Except.error.inj (Option.some.inj heq))

end Trial

/-! ### The list of providers -/

theorem nextLive_spec (gone : Finset Nat) (left index : Nat) :
    index ≤ nextLive gone left index ∧ nextLive gone left index ≤ index + left ∧
      ∀ i, index ≤ i → i < nextLive gone left index → i ∈ gone := by
  induction left generalizing index with
  | zero =>
      refine ⟨Nat.le_refl _, Nat.le_refl _, fun i hi hlt => ?_⟩
      exact absurd (Nat.lt_of_le_of_lt hi hlt) (Nat.lt_irrefl _)
  | succ left ih =>
      unfold nextLive
      split
      · rename_i hgone
        obtain ⟨hle, hbound, hall⟩ := ih (index + 1)
        refine ⟨by omega, by omega, fun i hi hlt => ?_⟩
        by_cases heq : i = index
        · exact heq ▸ hgone
        · exact hall i (by omega) hlt
      · exact ⟨Nat.le_refl _, by omega, fun i hi hlt => by omega⟩

/-- How far the search has come. -/
inductive Progress (extract : T → Option JsonValue) (count : Nat) (notFoundMsg : String)
    (s : TryEach T) : Prop
  | trying (earlier : List (Trial T)) (last : Trial T) (trials : s.trials = earlier ++ [last])
      (passed : ∀ a ∈ earlier, Passed extract a) (active : Active last) (settled : s.settled = [])
  | accepted (earlier : List (Trial T)) (last : Trial T) (json : JsonValue)
      (trials : s.trials = earlier ++ [last]) (passed : ∀ a ∈ earlier, Passed extract a)
      (accepted : Accepted extract json last) (settled : s.settled = [.ok json])
  | notFound (passed : ∀ a ∈ s.trials, Passed extract a) (index : s.index = count)
      (settled : s.settled = [.error (notFound notFoundMsg)])
  | lost (earlier : List (Trial T)) (last : Trial T) (trials : s.trials = earlier ++ [last])
      (passed : ∀ a ∈ earlier, Passed extract a) (lost : Lost last) (settled : s.settled = [])

/-- Every provider before the index was asked, unless it is gone, and those asked were asked in
order. -/
structure Turns (count : Nat) (s : TryEach T) : Prop where
  bound : s.index ≤ count
  ordered : (asked s.trials).Pairwise (· < ·)
  below : ∀ i ∈ asked s.trials, i < s.index
  had : ∀ i < s.index, i ∈ s.gone ∨ i ∈ asked s.trials

structure TryInv (extract : T → Option JsonValue) (count : Nat) (notFoundMsg : String)
    (s : TryEach T) : Prop where
  turns : Turns count s
  progress : Progress extract count notFoundMsg s

section Run

variable {extract} {count} {notFoundMsg} {s s' : TryEach T}

/-- Where every provider asked has refused, the next one is asked or none is left. -/
theorem advance_inv (ht : Turns count s) (hpassed : ∀ a ∈ s.trials, Passed extract a)
    (hsettled : s.settled = []) :
    TryInv extract count notFoundMsg (s.advance count notFoundMsg) := by
  obtain ⟨hle, hbound, hall⟩ := nextLive_spec s.gone (count - s.index) s.index
  have hcount := ht.bound
  unfold advance
  dsimp only
  generalize nextLive s.gone (count - s.index) s.index = index at hle hbound hall ⊢
  have hhad : ∀ i < index, i ∈ s.gone ∨ i ∈ asked s.trials := by
    intro i hi
    by_cases hold : i < s.index
    · exact ht.had i hold
    · exact .inl (hall i (Nat.not_lt.mp hold) hi)
  split
  · refine ⟨⟨by dsimp only; omega, ht.ordered, fun i hi => ?_, hhad⟩,
      .notFound hpassed (by dsimp only; omega) (by simp [hsettled])⟩
    exact Nat.lt_of_lt_of_le (ht.below i hi) hle
  · have hasked : asked (s.trials ++ [{ provider := index }]) = asked s.trials ++ [index] := by
      simp [asked]
    refine ⟨⟨by dsimp only; omega, ?_, fun i hi => ?_, fun i hi => ?_⟩,
      .trying s.trials { provider := index } rfl hpassed (.inl rfl) hsettled⟩
    · rw [hasked, List.pairwise_append]
      refine ⟨ht.ordered, List.pairwise_singleton _ _, fun i hi j hj => ?_⟩
      rw [List.mem_singleton.mp hj]
      exact Nat.lt_of_lt_of_le (ht.below i hi) hle
    · rw [hasked] at hi
      rcases List.mem_append.mp hi with hold | hnew
      · exact Nat.lt_succ_of_lt (Nat.lt_of_lt_of_le (ht.below i hold) hle)
      · rw [List.mem_singleton.mp hnew]
        exact Nat.lt_succ_self index
    · rw [hasked]
      by_cases heq : i = index
      · exact .inr (by simp [heq])
      · rcases hhad i (by dsimp only at hi; omega) with hgone | hold
        · exact .inl hgone
        · exact .inr (List.mem_append_left _ hold)

theorem tryEachProvider_inv (gone : Finset Nat) :
    TryInv extract count notFoundMsg (tryEachProvider count notFoundMsg gone) :=
  advance_inv ⟨Nat.zero_le _, .nil, nofun, nofun⟩ nofun rfl

theorem asked_set {trials : List (Trial T)} {k : Nat} {a b : Trial T} (hk : trials[k]? = some a)
    (hprovider : b.provider = a.provider) : asked (trials.set k b) = asked trials := by
  obtain ⟨hlt, rfl⟩ := List.getElem?_eq_some_iff.mp hk
  have hlen : k < (asked trials).length := by simpa [asked] using hlt
  have hget : (asked trials)[k] = trials[k].provider := List.getElem_map _
  show (trials.set k b).map (·.provider) = asked trials
  rw [List.map_set, hprovider, ← hget]
  exact List.set_getElem_self hlen

/-- A trial is an earlier one or the last. -/
theorem get_cases {earlier : List (Trial T)} {last a : Trial T} {k : Nat}
    (hk : (earlier ++ [last])[k]? = some a) :
    (a ∈ earlier ∧ ∀ b, (earlier ++ [last]).set k b = earlier.set k b ++ [last]) ∨
      (a = last ∧ ∀ b, (earlier ++ [last]).set k b = earlier ++ [b]) := by
  by_cases hlt : k < earlier.length
  · rw [List.getElem?_append_left hlt] at hk
    exact .inl ⟨List.mem_of_getElem? hk, fun b => List.set_append_left k b hlt⟩
  · have hle := Nat.not_lt.mp hlt
    rw [List.getElem?_append_right hle] at hk
    have hzero : k - earlier.length = 0 := by
      have hlt := (List.getElem?_eq_some_iff.mp hk).1
      simpa using hlt
    rw [hzero] at hk
    refine .inr ⟨(Option.some.inj hk).symm, fun b => ?_⟩
    rw [List.set_append_right k b hle, hzero]
    rfl

theorem Turns.set (ht : Turns count s) {k : Nat} {a b : Trial T} (hk : s.trials[k]? = some a)
    (hprovider : b.provider = a.provider) :
    Turns count { s with trials := s.trials.set k b } := by
  have hasked := asked_set hk hprovider
  refine ⟨ht.bound, ?_, ?_, ?_⟩
  · dsimp only
    rw [hasked]
    exact ht.ordered
  · dsimp only
    rw [hasked]
    exact ht.below
  · dsimp only
    rw [hasked]
    exact ht.had

/-- What is replaced by a trial that has passed too. -/
theorem passed_set {trials : List (Trial T)} (h : ∀ a ∈ trials, Passed extract a) {k : Nat}
    {b : Trial T} (hb : Passed extract b) : ∀ a ∈ trials.set k b, Passed extract a := by
  intro a ha
  rcases List.mem_or_eq_of_mem_set ha with hold | rfl
  · exact h a hold
  · exact hb

/-- A trial that has passed reports. -/
theorem Progress.set_passed (h : Progress extract count notFoundMsg s) {k : Nat} {a b : Trial T}
    (hk : s.trials[k]? = some a) (ha : Passed extract a) (hb : Passed extract b) :
    Progress extract count notFoundMsg { s with trials := s.trials.set k b } := by
  cases h with
  | trying earlier last trials passed active settled =>
      rw [trials] at hk
      rcases get_cases hk with ⟨hmem, hset⟩ | ⟨rfl, -⟩
      · exact .trying (earlier.set k b) last (by simp only [trials, hset]) (passed_set passed hb)
          active settled
      · exact absurd active ha.not_active
  | accepted earlier last json trials passed accepted settled =>
      rw [trials] at hk
      rcases get_cases hk with ⟨hmem, hset⟩ | ⟨rfl, -⟩
      · exact .accepted (earlier.set k b) last json (by simp only [trials, hset])
          (passed_set passed hb) accepted settled
      · exact absurd accepted.accepts (ha.not_accepts json)
  | notFound passed index settled =>
      exact .notFound (passed_set passed hb) index settled
  | lost earlier last trials passed lost settled =>
      rw [trials] at hk
      rcases get_cases hk with ⟨hmem, hset⟩ | ⟨rfl, -⟩
      · exact .lost (earlier.set k b) last (by simp only [trials, hset]) (passed_set passed hb)
          lost settled
      · exact absurd lost.outcome ha.known

/-! ### Steps -/

theorem destroyed_inv (h : TryInv extract count notFoundMsg s) (i : Nat) :
    TryInv extract count notFoundMsg { s with gone := insert i s.gone } where
  turns := ⟨h.turns.bound, h.turns.ordered, h.turns.below,
    fun j hj => (h.turns.had j hj).imp_left Finset.mem_insert_of_mem⟩
  progress :=
    match h.progress with
    | .trying earlier last trials passed active settled =>
        .trying earlier last trials passed active settled
    | .accepted earlier last json trials passed accepted settled =>
        .accepted earlier last json trials passed accepted settled
    | .notFound passed index settled => .notFound passed index settled
    | .lost earlier last trials passed lost settled =>
        .lost earlier last trials passed lost settled

/-- Only the future of the provider under way may end. -/
theorem open_last (h : TryInv extract count notFoundMsg s) {k provider : Nat} {stage : ChainStage}
    (hk : s.trials[k]? = some { provider, outcome := none, stage }) :
    stage = .value ∧ s.settled = [] ∧ ∃ earlier, (∀ a ∈ earlier, Passed extract a) ∧
      ∀ b, s.trials.set k b = earlier ++ [b] := by
  have hopen : ∀ {a}, Passed extract a → a ≠ { provider, outcome := none, stage } := by
    rintro a ha rfl
    rcases ha.refused with ⟨value, hvalue, -⟩ | ⟨error, herror⟩
    · cases hvalue
    · cases herror
  cases h.progress with
  | trying earlier last trials passed active settled =>
      have hk' := trials ▸ hk
      rcases get_cases hk' with ⟨hmem, -⟩ | ⟨rfl, hset⟩
      · exact absurd rfl (hopen (passed _ hmem))
      · rcases active with hstage | ⟨-, error, herror⟩
        · exact ⟨hstage, settled, earlier, passed, fun b => by rw [trials, hset]⟩
        · cases herror
  | accepted earlier last json trials passed accepted settled =>
      have hk' := trials ▸ hk
      rcases get_cases hk' with ⟨hmem, -⟩ | ⟨rfl, -⟩
      · exact absurd rfl (hopen (passed _ hmem))
      · obtain ⟨value, hvalue, -⟩ := accepted.accepts
        cases hvalue
  | notFound passed index settled =>
      exact absurd rfl (hopen (passed _ (List.mem_of_getElem? hk)))
  | lost earlier last trials passed lost settled =>
      have hk' := trials ▸ hk
      rcases get_cases hk' with ⟨hmem, -⟩ | ⟨rfl, -⟩
      · exact absurd rfl (hopen (passed _ hmem))
      · cases lost.outcome

theorem ended_inv (h : TryInv extract count notFoundMsg s) {k provider : Nat} {stage : ChainStage}
    (hk : s.trials[k]? = some { provider, outcome := none, stage }) (outcome : Except Exn T) :
    TryInv extract count notFoundMsg
      { s with trials := s.trials.set k { provider, outcome := some outcome, stage } } := by
  obtain ⟨hstage, hsettled, earlier, hpassed, hset⟩ := open_last h hk
  exact ⟨h.turns.set hk rfl, .trying earlier _ (hset _) hpassed (.inl hstage) hsettled⟩

/-- Only the continuations of the provider under way ask the next one or settle the promise. -/
theorem reported_inv (h : TryInv extract count notFoundMsg s) {k : Nat} {a b : Trial T}
    {reaction : Reaction} (hk : s.trials[k]? = some a)
    (hreport : a.report extract = some (b, reaction)) :
    TryInv extract count notFoundMsg
      ({ s with trials := s.trials.set k b }.react count notFoundMsg reaction) := by
  have hturns := h.turns.set hk (report_same hreport).1
  have hpassed : Passed extract a → TryInv extract count notFoundMsg
      ({ s with trials := s.trials.set k b }.react count notFoundMsg reaction) := by
    intro ha
    obtain ⟨hb, rfl⟩ := ha.report hreport
    exact ⟨hturns, h.progress.set_passed hk ha hb⟩
  cases h.progress with
  | trying earlier last trials passed active settled =>
      have hk' := trials ▸ hk
      rcases get_cases hk' with ⟨hmem, -⟩ | ⟨rfl, hset⟩
      · exact hpassed (passed _ hmem)
      · have htrials : s.trials.set k b = earlier ++ [b] := by rw [trials, hset]
        rcases active.report hreport with ⟨hb, rfl⟩ | ⟨hb, rfl⟩ | ⟨json, hb, rfl⟩ | ⟨hb, rfl⟩
        · exact ⟨hturns, .trying earlier b htrials passed hb settled⟩
        · refine advance_inv hturns ?_ settled
          dsimp only
          rw [htrials]
          exact List.forall_mem_append.mpr ⟨passed, List.forall_mem_singleton.mpr hb⟩
        · exact ⟨⟨hturns.bound, hturns.ordered, hturns.below, hturns.had⟩,
            .accepted earlier b json htrials passed hb (by simp [react, settled])⟩
        · exact ⟨hturns, .lost earlier b htrials passed hb settled⟩
  | accepted earlier last json trials passed accepted settled =>
      have hk' := trials ▸ hk
      rcases get_cases hk' with ⟨hmem, -⟩ | ⟨rfl, hset⟩
      · exact hpassed (passed _ hmem)
      · obtain ⟨hb, rfl⟩ := accepted.report hreport
        have htrials : s.trials.set k b = earlier ++ [b] := by rw [trials, hset]
        exact ⟨hturns, .accepted earlier b json htrials passed hb settled⟩
  | notFound passed index settled => exact hpassed (passed _ (List.mem_of_getElem? hk))
  | lost earlier last trials passed lost settled =>
      have hk' := trials ▸ hk
      rcases get_cases hk' with ⟨hmem, -⟩ | ⟨rfl, -⟩
      · exact hpassed (passed _ hmem)
      · rw [lost.report] at hreport
        cases hreport

/-- What a step may be. -/
theorem step_cases {e : Event T} (h : s.step extract count notFoundMsg e = some s') :
    (∃ i, e = .destroyed i ∧ i < count ∧ i ∉ s.gone ∧ s' = { s with gone := insert i s.gone }) ∨
    (∃ k provider outcome stage, e = .ended k outcome ∧
      s.trials[k]? = some { provider, outcome := none, stage } ∧
      s' = { s with trials := s.trials.set k { provider, outcome := some outcome, stage } }) ∨
    ∃ k a b reaction, e = .reported k ∧ s.trials[k]? = some a ∧
      a.report extract = some (b, reaction) ∧
      s' = { s with trials := s.trials.set k b }.react count notFoundMsg reaction := by
  cases e with
  | destroyed i =>
      simp only [step] at h
      split at h
      · rename_i hi
        exact .inl ⟨i, rfl, hi.1, hi.2, (Option.some.inj h).symm⟩
      · cases h
  | ended k outcome =>
      simp only [step] at h
      split at h
      · rename_i provider stage hk
        exact .inr (.inl ⟨k, provider, outcome, stage, rfl, hk, (Option.some.inj h).symm⟩)
      · cases h
  | reported k =>
      simp only [step] at h
      split at h
      · rename_i a hk
        obtain ⟨⟨b, reaction⟩, hreport, rfl⟩ := Option.map_eq_some_iff.mp h
        exact .inr (.inr ⟨k, a, b, reaction, rfl, hk, hreport, rfl⟩)
      · cases h

theorem step_inv {e : Event T} (h : s.step extract count notFoundMsg e = some s')
    (hs : TryInv extract count notFoundMsg s) : TryInv extract count notFoundMsg s' := by
  obtain ⟨i, -, -, -, rfl⟩ | ⟨k, provider, outcome, stage, -, hk, rfl⟩ |
    ⟨k, a, b, reaction, -, hk, hreport, rfl⟩ := step_cases h
  · exact destroyed_inv hs _
  · exact ended_inv hs hk outcome
  · exact reported_inv hs hk hreport

theorem run_inv {events : List (Event T)}
    (h : s.run extract count notFoundMsg events = some s')
    (hs : TryInv extract count notFoundMsg s) : TryInv extract count notFoundMsg s' := by
  induction events generalizing s with
  | nil =>
      cases h
      exact hs
  | cons e events ih =>
      obtain ⟨s₁, hstep, hrun⟩ := Option.bind_eq_some_iff.mp h
      exact ih hrun (step_inv hstep hs)

/-! ### The search ends -/

/-- How many events a trial is still to see. -/
def todo (a : Trial T) : Nat :=
  match a.stage, a.outcome with
  | .value, none => 3
  | .value, some _ => 2
  | .failure, _ => 1
  | .over, _ => 0

/-- How many events are still to come, at most: three for each provider that had no turn yet, those
of the trials, and the end of each provider that is there. -/
def left (count : Nat) (s : TryEach T) : Nat :=
  3 * (count - s.index) + (s.trials.map todo).sum + (Finset.range count \ s.gone).card

theorem left_advance (h : s.index ≤ count) :
    left count (s.advance count notFoundMsg) ≤ left count s := by
  obtain ⟨hle, hbound, -⟩ := nextLive_spec s.gone (count - s.index) s.index
  unfold advance
  dsimp only
  generalize nextLive s.gone (count - s.index) s.index = index at hle hbound ⊢
  unfold left
  split
  · dsimp only
    omega
  · simp only [List.map_append, List.sum_append, List.map_cons, List.map_nil, List.sum_singleton,
      todo]
    omega

theorem sum_set {trials : List (Trial T)} {k : Nat} {a b : Trial T} (hk : trials[k]? = some a)
    (hlt : todo b < todo a) : ((trials.set k b).map todo).sum < (trials.map todo).sum := by
  induction trials generalizing k with
  | nil => cases hk
  | cons t trials ih =>
      cases k with
      | zero =>
          obtain rfl : t = a := Option.some.inj hk
          simp only [List.set_cons_zero, List.map_cons, List.sum_cons]
          omega
      | succ k =>
          have hrest := ih (k := k) hk
          simp only [List.set_cons_succ, List.map_cons, List.sum_cons]
          omega

theorem todo_report {a b : Trial T} {reaction : Reaction}
    (h : a.report extract = some (b, reaction)) : todo b < todo a := by
  obtain ⟨provider, outcome, stage⟩ := a
  unfold Trial.report at h
  split at h
  · rename_i hstage houtcome
    obtain rfl : stage = .value := hstage
    obtain rfl : outcome = _ := houtcome
    split at h <;> cases h <;> exact Nat.lt_succ_self _
  all_goals cases h
  all_goals
    rename_i hstage houtcome
    obtain rfl : stage = _ := hstage
    obtain rfl : outcome = _ := houtcome
    exact Nat.lt_succ_self _

/-- Every event is one of those that were to come. -/
theorem left_step {e : Event T} (h : s.step extract count notFoundMsg e = some s')
    (hs : TryInv extract count notFoundMsg s) : left count s' < left count s := by
  obtain ⟨i, -, hi, hgone, rfl⟩ | ⟨k, provider, outcome, stage, -, hk, rfl⟩ |
    ⟨k, a, b, reaction, -, hk, hreport, rfl⟩ := step_cases h
  · have hcard : (Finset.range count \ insert i s.gone).card <
        (Finset.range count \ s.gone).card := by
      refine Finset.card_lt_card ⟨?_, fun hsub => ?_⟩
      · exact Finset.sdiff_subset_sdiff (Finset.Subset.refl _) (Finset.subset_insert i s.gone)
      · have hmem := hsub (Finset.mem_sdiff.mpr ⟨Finset.mem_range.mpr hi, hgone⟩)
        exact (Finset.mem_sdiff.mp hmem).2 (Finset.mem_insert_self i s.gone)
    unfold left
    dsimp only
    omega
  · obtain rfl := (open_last hs hk).1
    have htodo : todo ({ provider, outcome := some outcome } : Trial T) <
        todo ({ provider } : Trial T) := Nat.lt_succ_self 2
    have hsum := sum_set hk htodo
    unfold left
    dsimp only
    omega
  · have hsum := sum_set hk (todo_report hreport)
    have hset : left count { s with trials := s.trials.set k b } < left count s := by
      unfold left
      dsimp only
      omega
    refine Nat.lt_of_le_of_lt ?_ hset
    cases reaction with
    | none => exact Nat.le_refl _
    | advance => exact left_advance hs.turns.bound
    | finish json => exact Nat.le_refl _

theorem left_run {events : List (Event T)}
    (h : s.run extract count notFoundMsg events = some s')
    (hs : TryInv extract count notFoundMsg s) : events.length + left count s' ≤ left count s := by
  induction events generalizing s with
  | nil =>
      cases h
      simp
  | cons e events ih =>
      obtain ⟨s₁, hstep, hrun⟩ := Option.bind_eq_some_iff.mp h
      have hrest := ih hrun (step_inv hstep hs)
      have hlt := left_step hstep hs
      simp only [List.length_cons]
      omega

theorem left_start (gone : Finset Nat) :
    left count (tryEachProvider count notFoundMsg gone : TryEach T) ≤ 4 * count := by
  refine Nat.le_trans (left_advance (Nat.zero_le _)) ?_
  have hcard : (Finset.range count \ gone).card ≤ count := by
    simpa using Finset.card_le_card (Finset.sdiff_subset (s := Finset.range count) (t := gone))
  unfold left
  simp only [Nat.sub_zero, List.map_nil, List.sum_nil]
  omega

/-! ### The first success -/

/-- What is settled is the first success. -/
theorem TryInv.firstSuccess (h : TryInv extract count notFoundMsg s) :
    s.settled = [] ∨ FirstSuccess extract count notFoundMsg s := by
  cases h.progress with
  | trying earlier last trials passed active settled => exact .inl settled
  | accepted earlier last json trials passed accepted settled =>
      refine .inr (.accepted earlier last json trials (fun a ha => (passed a ha).refused)
        accepted.accepts settled fun i hi => ?_)
      have hasked : asked s.trials = asked earlier ++ [last.provider] := by
        simp [asked, trials]
      have hlt : last.provider < s.index := h.turns.below _ (by simp [hasked])
      rcases h.turns.had i (Nat.lt_trans hi hlt) with hgone | hmem
      · exact .inl hgone
      · rw [hasked, List.mem_append, List.mem_singleton] at hmem
        exact .inr (hmem.resolve_right (Nat.ne_of_lt hi))
  | notFound passed index settled =>
      exact .inr (.notFound (fun a ha => (passed a ha).refused) settled
        fun i hi => h.turns.had i (index ▸ hi))
  | lost earlier last trials passed lost settled => exact .inl settled

theorem FirstSuccess.settled_ne_nil (h : FirstSuccess extract count notFoundMsg s) :
    s.settled ≠ [] := by
  cases h with
  | accepted earlier last json trials refused accepts settled before => simp [settled]
  | notFound refused settled all => simp [settled]

/-- Where nothing is under way the promise is settled, unless a provider failed with what no
handler catches. -/
theorem TryInv.quiet_iff (h : TryInv extract count notFoundMsg s) (hquiet : s.Quiet) :
    FirstSuccess extract count notFoundMsg s ↔
      ∀ a ∈ s.trials, a.outcome ≠ some (.error .unknown) := by
  have hsuccess := h.firstSuccess
  cases h.progress with
  | trying earlier last trials passed active settled =>
      have hover : last.stage = .over := hquiet last (by simp [trials])
      rcases active with hstage | ⟨hstage, -⟩
      · rw [hover] at hstage
        cases hstage
      · rw [hover] at hstage
        cases hstage
  | accepted earlier last json trials passed accepted settled =>
      refine iff_of_true (hsuccess.resolve_left (by simp [settled])) fun a ha => ?_
      rw [trials, List.mem_append, List.mem_singleton] at ha
      rcases ha with ha | rfl
      · exact (passed a ha).known
      · obtain ⟨value, hvalue, -⟩ := accepted.accepts
        rw [hvalue]
        nofun
  | notFound passed index settled =>
      exact iff_of_true (hsuccess.resolve_left (by simp [settled])) fun a ha => (passed a ha).known
  | lost earlier last trials passed lost settled =>
      refine iff_of_false (fun hs => hs.settled_ne_nil settled) fun hall => ?_
      exact hall last (by simp [trials]) lost.outcome

end Run

/-- Whatever the providers do and whenever they do it: the search ends, what it settles the promise
with is the first success, and it settles it if and only if no provider it asked has failed with
what is no `std::exception`. The providers are asked in order. -/
theorem first_success_iff {events : List (Event T)} {gone : Finset Nat} {s : TryEach T}
    (hrun : (tryEachProvider count notFoundMsg gone).run extract count notFoundMsg events =
      some s) :
    events.length ≤ 4 * count ∧ (asked s.trials).Pairwise (· < ·) ∧
      (s.settled = [] ∨ FirstSuccess extract count notFoundMsg s) ∧
      (s.Quiet → (FirstSuccess extract count notFoundMsg s ↔
        ∀ a ∈ s.trials, a.outcome ≠ some (.error .unknown))) := by
  have hinv := run_inv hrun (tryEachProvider_inv gone)
  refine ⟨?_, hinv.turns.ordered, hinv.firstSuccess, fun hquiet => hinv.quiet_iff hquiet⟩
  have hleft := left_run hrun (tryEachProvider_inv gone)
  have hstart : left count (tryEachProvider count notFoundMsg gone : TryEach T) ≤ 4 * count :=
    left_start gone
  omega

/-- A resource that the third provider has; the second one is destroyed while the first is
asked. -/
def thirdHas : List (Event JsonValue) :=
  [.destroyed 1, .ended 0 (.error (.stdException "no such file")), .reported 0, .reported 0,
    .ended 1 (.ok (.str "text")), .reported 1, .reported 1]

def thirdFound : TryEach JsonValue where
  index := 3
  gone := insert 1 ∅
  trials := [⟨0, some (.error (.stdException "no such file")), .over⟩,
    ⟨2, some (.ok (.str "text")), .over⟩]
  settled := [.ok (.str "text")]

theorem first_success_third : FirstSuccess some 3 "not found" thirdFound := by
  have hrun : (tryEachProvider 3 "not found" ∅).run some 3 "not found" thirdHas =
      some thirdFound := rfl
  have hquiet : thirdFound.Quiet := by simp [Quiet, thirdFound]
  refine ((first_success_iff some 3 "not found" hrun).2.2.2 hquiet).mpr ?_
  simp [thirdFound]

/-- A provider that fails with what is no `std::exception` leaves the promise open. -/
theorem promise_left_open :
    ∃ s, (tryEachProvider 1 "not found" ∅).run some 1 "not found"
        [.ended 0 (.error .unknown), .reported 0, .reported 0] = some s ∧ s.Quiet ∧
      ¬FirstSuccess some 1 "not found" s := by
  refine ⟨{ index := 1, trials := [⟨0, some (.error .unknown), .over⟩] }, rfl, ?_,
    fun h => h.settled_ne_nil rfl⟩
  simp [Quiet]

end TryEach

end LLMQore.Mcp
