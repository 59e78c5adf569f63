import Mathlib.Data.List.Basic

/-!
# LLMQore.Lines

Texts as lists of letters, and their lines: a text that is cut into slices of its lines is the
slices joined again, and a translation of two-letter line ends changes a text if and only if it
has one.
-/

namespace LLMQore.Lines

variable {α : Type}

/-! ## Slices -/

/-- The slices of `k` elements, from the first to the `m`-th. -/
def slices (k m : Nat) (xs : List α) : List (List α) :=
  (List.range m).map fun i => (xs.drop (i * k)).take k

theorem flatten_slices (k m : Nat) (xs : List α) : (slices k m xs).flatten = xs.take (m * k) := by
  induction m with
  | zero => simp [slices]
  | succ m ih =>
      have hlast : slices k (m + 1) xs = slices k m xs ++ [(xs.drop (m * k)).take k] := by
        simp [slices, List.range_succ]
      rw [hlast, List.flatten_append, ih, List.flatten_singleton, Nat.succ_mul,
        List.take_add]

/-- How many slices of `k` a list of `n` has. -/
def sliceCount (k n : Nat) : Nat := (n + k - 1) / k

theorem lt_of_lt_sliceCount {k n i : Nat} (hk : 1 ≤ k) (h : i < sliceCount k n) : i * k < n := by
  have hle : (i + 1) * k ≤ n + k - 1 := (Nat.le_div_iff_mul_le hk).mp h
  rw [Nat.succ_mul] at hle
  omega

theorem le_sliceCount_mul {k : Nat} (hk : 1 ≤ k) (n : Nat) : n ≤ sliceCount k n * k := by
  have hlt := Nat.lt_div_mul_add (a := n + k - 1) hk
  unfold sliceCount
  omega

theorem flatten_all_slices {k : Nat} (hk : 1 ≤ k) (xs : List α) :
    (slices k (sliceCount k xs.length) xs).flatten = xs := by
  rw [flatten_slices, List.take_of_length_le (le_sliceCount_mul hk _)]

theorem slice_ne_nil {k : Nat} (hk : 1 ≤ k) {xs slice : List α}
    (h : slice ∈ slices k (sliceCount k xs.length) xs) : slice ≠ [] := by
  obtain ⟨i, hi, rfl⟩ := List.mem_map.mp h
  have hlt := lt_of_lt_sliceCount hk (List.mem_range.mp hi)
  rw [Ne, List.take_eq_nil_iff, List.drop_eq_nil_iff]
  omega

theorem intercalate_append (sep : List α) {xs ys : List (List α)} (hxs : xs ≠ []) (hys : ys ≠ []) :
    sep.intercalate (xs ++ ys) = sep.intercalate xs ++ sep ++ sep.intercalate ys := by
  induction xs with
  | nil => exact absurd rfl hxs
  | cons x xs ih =>
      by_cases hrest : xs = []
      · subst hrest
        simp [List.intercalate_cons_of_ne_nil hys]
      · rw [List.cons_append,
          List.intercalate_cons_of_ne_nil (List.append_ne_nil_of_left_ne_nil hrest ys), ih hrest,
          List.intercalate_cons_of_ne_nil hrest]
        simp

/-- Lists that are joined in groups are joined. -/
theorem intercalate_groups (sep : List α) {groups : List (List (List α))}
    (h : ∀ group ∈ groups, group ≠ []) :
    sep.intercalate (groups.map sep.intercalate) = sep.intercalate groups.flatten := by
  induction groups with
  | nil => rfl
  | cons group groups ih =>
      have hgroups := ih fun g hg => h g (List.mem_cons_of_mem _ hg)
      by_cases hrest : groups = []
      · simp [hrest]
      · have hflat : groups.flatten ≠ [] := fun hnil => by
          obtain ⟨g, hg⟩ := List.exists_mem_of_ne_nil _ hrest
          exact h g (List.mem_cons_of_mem _ hg) (List.flatten_eq_nil_iff.mp hnil g hg)
        rw [List.map_cons, List.intercalate_cons_of_ne_nil (by simpa using hrest), hgroups,
          List.flatten_cons, intercalate_append sep (h group List.mem_cons_self) hflat]

/-! ## Line ends -/

variable [DecidableEq α] (x y : α)

/-- Drop every `x` that stands before a `y`. -/
def dropBefore : List α → List α
  | [] => []
  | a :: rest => if a = x ∧ rest.head? = some y then dropBefore rest else a :: dropBefore rest

theorem dropBefore_sublist (xs : List α) : (dropBefore x y xs).Sublist xs := by
  induction xs with
  | nil => exact List.Sublist.refl []
  | cons a rest ih =>
      rw [dropBefore]
      split
      · exact ih.cons a
      · exact ih.cons_cons a

/-- A list is left as it is if and only if no `x` stands before a `y`. -/
theorem dropBefore_eq_self_iff (xs : List α) : dropBefore x y xs = xs ↔ ¬[x, y] <:+: xs := by
  induction xs with
  | nil => simp [dropBefore]
  | cons a rest ih =>
      have hhead : [x, y] <+: a :: rest ↔ a = x ∧ rest.head? = some y := by
        cases rest <;> simp [eq_comm]
      rw [dropBefore, List.infix_cons_iff, hhead]
      split
      · rename_i hdrop
        refine iff_of_false (fun heq => ?_) fun hnot => hnot (.inl hdrop)
        have hle := (dropBefore_sublist x y rest).length_le
        rw [heq, List.length_cons] at hle
        omega
      · rename_i hkeep
        rw [List.cons.injEq, ih]
        simp [hkeep]

/-- Where nothing is an `x`, nothing is dropped up to there. -/
theorem dropBefore_append {xs : List α} (h : x ∉ xs) (ys : List α) :
    dropBefore x y (xs ++ ys) = xs ++ dropBefore x y ys := by
  induction xs with
  | nil => rfl
  | cons a rest ih =>
      rw [List.mem_cons, not_or] at h
      rw [List.cons_append, dropBefore, if_neg fun hboth => h.1 hboth.1.symm, ih h.2,
        List.cons_append]

end LLMQore.Lines
