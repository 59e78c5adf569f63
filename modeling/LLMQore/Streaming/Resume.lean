import Mathlib.Data.List.Basic
import Mathlib.Order.Basic

/-!
# LLMQore.Streaming.Resume

**Logs that are read on.** A writer keeps a log, and some of its entries have an id. A reader
remembers the id of the last entry it has read that has one, its cursor; where it comes back with
a cursor it goes on after the last entry of that id, and at the end of the log if there is none
(`start`).

What is read from a place on may leave out entries and stop anywhere. If all entries of interest
have an id, what the reader has taken then lies before the place its cursor stands for
(`sublist_start`), so that it takes nothing twice when it comes back.
-/

namespace Resume

variable {α ι β : Type} (key : α → Option ι)

/-- The cursor after entries were read. -/
def cursor (c : ι) : List α → ι
  | [] => c
  | a :: as => cursor ((key a).getD c) as

@[simp] theorem cursor_nil (c : ι) : cursor key c [] = c := rfl

/-- Entries without ids leave the cursor. -/
theorem cursor_of_none (c : ι) {as : List α} (h : ∀ a ∈ as, key a = none) :
    cursor key c as = c := by
  induction as with
  | nil => rfl
  | cons a as ih =>
      obtain ⟨ha, has⟩ := List.forall_mem_cons.mp h
      rw [cursor, ha]
      exact ih has

/-- The cursor is the id of the last entry that has one. -/
theorem cursor_cases (c : ι) (as : List α) :
    (∀ a ∈ as, key a = none) ∨ ∃ before a after, as = before ++ a :: after ∧
      key a = some (cursor key c as) ∧ ∀ b ∈ after, key b = none := by
  induction as generalizing c with
  | nil => exact .inl nofun
  | cons a as ih =>
      rcases ih ((key a).getD c) with hnone | ⟨before, b, after, rfl, hb, hafter⟩
      · cases ha : key a with
        | none => exact .inl (List.forall_mem_cons.mpr ⟨ha, hnone⟩)
        | some i =>
            refine .inr ⟨[], a, as, rfl, ?_, hnone⟩
            rw [cursor, ha, cursor_of_none key _ hnone]
            rfl
      · exact .inr ⟨a :: before, b, after, rfl, hb, hafter⟩

variable [DecidableEq ι]

/-- The place after the last entry of an id. -/
def place (c : ι) : List α → Option Nat
  | [] => none
  | a :: as =>
      match place c as with
      | some n => some (n + 1)
      | none => if key a = some c then some 1 else none

/-- The place at which a reader goes on. -/
def start (c : ι) (log : List α) : Nat := (place key c log).getD log.length

theorem place_le (c : ι) {log : List α} {n : Nat} (h : place key c log = some n) :
    n ≤ log.length := by
  induction log generalizing n with
  | nil => exact absurd h nofun
  | cons a as ih =>
      rw [place] at h
      split at h
      · next m hm =>
          cases h
          exact Nat.succ_le_succ (ih hm)
      · split at h
        · cases h
          exact Nat.succ_le_succ (Nat.zero_le _)
        · exact absurd h nofun

theorem start_le (c : ι) (log : List α) : start key c log ≤ log.length := by
  unfold start
  cases h : place key c log with
  | none => exact Nat.le_refl _
  | some n => exact place_le key c h

theorem place_append_none (c : ι) (log : List α) {more : List α} (h : place key c more = none) :
    place key c (log ++ more) = place key c log := by
  induction log with
  | nil => exact h
  | cons a as ih => rw [List.cons_append, place, place, ih]

theorem place_append_some (c : ι) (log : List α) {more : List α} {n : Nat}
    (h : place key c more = some n) : place key c (log ++ more) = some (log.length + n) := by
  induction log with
  | nil => simpa using h
  | cons a as ih =>
      rw [List.cons_append, place, ih, List.length_cons]
      exact congrArg some (by omega)

/-- A log that grows moves the place of an id forward at most. -/
theorem start_mono (c : ι) (log more : List α) : start key c log ≤ start key c (log ++ more) := by
  cases h : place key c more with
  | some n =>
      refine Nat.le_trans (start_le key c log) ?_
      rw [start, place_append_some key c log h]
      exact Nat.le_add_right _ _
  | none =>
      rw [start, start, place_append_none key c log h]
      cases place key c log with
      | some n => exact Nat.le_refl _
      | none =>
          show log.length ≤ (log ++ more).length
          rw [List.length_append]
          exact Nat.le_add_right _ _

/-- The place of an id is not before an entry that has it. -/
theorem lt_start {c : ι} {a : α} (h : key a = some c) (before after : List α) :
    before.length < start key c (before ++ a :: after) := by
  have hplace : ∃ n, place key c (a :: after) = some (n + 1) := by
    rw [place]
    cases place key c after with
    | some n => exact ⟨n, rfl⟩
    | none => exact ⟨0, if_pos h⟩
  obtain ⟨n, hn⟩ := hplace
  rw [start, place_append_some key c before hn]
  exact Nat.lt_add_of_pos_right (Nat.succ_pos n)

section Taken

variable (value : α → Option β) {log : List α}

omit [DecidableEq ι] in
/-- The values of entries without ids, where all entries with a value have one. -/
theorem filterMap_of_none (hkey : ∀ a ∈ log, (value a).isSome → (key a).isSome)
    (h : ∀ a ∈ log, key a = none) : log.filterMap value = [] := by
  refine List.filterMap_eq_nil_iff.mpr fun a ha => ?_
  cases hv : value a with
  | none => rfl
  | some b =>
      have hsome := hkey a ha (by rw [hv]; rfl)
      rw [h a ha] at hsome
      exact absurd hsome nofun

/-- What was taken from a place on is in the log behind that place. -/
theorem sublist_log {old : List β} {p : Nat} {read : List α}
    (hold : old.Sublist ((log.take p).filterMap value)) (hread : read.Sublist (log.drop p)) :
    (old ++ read.filterMap value).Sublist (log.filterMap value) := by
  conv => rhs; rw [← List.take_append_drop p log, List.filterMap_append]
  exact hold.append (hread.filterMap value)

/-- What a reader has taken lies before the place of its cursor, if it did when the reader came. -/
theorem sublist_start {old : List β} {p : Nat} {c : ι} {keep : α → Bool} {read : List α}
    (hkey : ∀ a ∈ log, (value a).isSome → (key a).isSome)
    (hold : old.Sublist ((log.take p).filterMap value))
    (hread : read <+: (log.drop p).filter keep) :
    (cursor key c read = c ∧ read.filterMap value = []) ∨
      (old ++ read.filterMap value).Sublist
        ((log.take (start key (cursor key c read) log)).filterMap value) := by
  have hmem : ∀ a ∈ read, a ∈ log := fun a ha =>
    List.mem_of_mem_drop (List.mem_of_mem_filter (hread.subset ha))
  rcases cursor_cases key c read with hnone | ⟨before, a, after, hsplit, ha, hafter⟩
  · exact .inl ⟨cursor_of_none key c hnone,
      filterMap_of_none key value (fun b hb => hkey b (hmem b hb)) hnone⟩
  · refine .inr ?_
    -- the entries up to the last with an id stand before the place of that id
    obtain ⟨skipped, rest, hdrop, hbefore⟩ : ∃ skipped rest, log.drop p = skipped ++ a :: rest ∧
        before.Sublist skipped := by
      obtain ⟨rest, hrest⟩ := hread
      rw [hsplit, List.append_assoc, List.cons_append] at hrest
      obtain ⟨l₁, l₂, hl, hl₁, hl₂⟩ := List.filter_eq_append_iff.mp hrest.symm
      obtain ⟨l₃, l₄, rfl, -, -, -⟩ := List.filter_eq_cons_iff.mp hl₂
      refine ⟨l₁ ++ l₃, l₄, by rw [hl, List.append_assoc], ?_⟩
      rw [← hl₁]
      exact List.filter_sublist.trans (List.sublist_append_left _ _)
    have hlog : log = (log.take p ++ skipped) ++ a :: rest := by
      rw [List.append_assoc, ← hdrop, List.take_append_drop]
    have hplace := lt_start key ha (log.take p ++ skipped) rest
    rw [← hlog] at hplace
    have hread' : read.filterMap value = (before ++ [a]).filterMap value := by
      have hnil : after.filterMap value = [] := by
        refine filterMap_of_none key value (fun b hb => hkey b (hmem b ?_)) hafter
        rw [hsplit]
        exact List.mem_append_right _ (List.mem_cons_of_mem _ hb)
      rw [hsplit, List.append_cons, List.filterMap_append, hnil, List.append_nil]
    have htake : ((log.take p ++ skipped) ++ [a]).Sublist
        (log.take (start key (cursor key c read) log)) := by
      have hprefix : (log.take p ++ skipped) ++ [a] <+: log := ⟨rest, by
        rw [← List.append_cons]
        exact hlog.symm⟩
      have heq := List.prefix_iff_eq_take.mp hprefix
      rw [heq]
      refine (List.take_prefix_take_left ?_).sublist
      rw [List.length_append]
      exact hplace
    rw [hread']
    refine List.Sublist.trans ?_ (htake.filterMap value)
    rw [List.append_assoc, List.filterMap_append (l := log.take p)]
    exact hold.append ((hbefore.append (.refl [a])).filterMap value)

end Taken

end Resume
