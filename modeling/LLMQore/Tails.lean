import Mathlib.Data.List.DropRight
import Mathlib.Data.List.Basic

/-!
# LLMQore.Tails

The last elements of a list that is written element by element in words: what is kept of such a
list while it grows is its end, and a cut of the written list is a cut between two words, or it is
inside a word.
-/

namespace LLMQore.Tails

variable {α β : Type}

/-- To keep the end of what was kept is to keep the end of the whole. -/
theorem rtake_rtake_append (n : Nat) (xs ys : List β) :
    (xs.rtake n ++ ys).rtake n = (xs ++ ys).rtake n := by
  unfold List.rtake
  simp only [List.length_append, List.length_drop, List.drop_append, List.drop_drop]
  congr 2 <;> omega

theorem rtake_of_length_le {n : Nat} {xs : List β} (h : xs.length ≤ n) : xs.rtake n = xs := by
  rw [List.rtake, Nat.sub_eq_zero_of_le h, List.drop_zero]

theorem rtake_append_of_le {n : Nat} {ys : List β} (xs : List β) (h : n ≤ ys.length) :
    (xs ++ ys).rtake n = ys.rtake n := by
  unfold List.rtake
  have hlength : (xs ++ ys).length - n = xs.length + (ys.length - n) := by
    rw [List.length_append]
    omega
  rw [hlength, List.drop_append, List.drop_eq_nil_of_le (by omega), List.nil_append,
    Nat.add_sub_cancel_left]

variable (write : α → List β)

/-- The end of a written list is that of an end of the list, or what is left of a word before it. -/
theorem rtake_written (n : Nat) (xs : List α) :
    (∃ tail, tail <:+ xs ∧ (xs.flatMap write).rtake n = tail.flatMap write) ∨
      ∃ x tail k, x :: tail <:+ xs ∧ 0 < k ∧ k < (write x).length ∧
        (xs.flatMap write).rtake n = (write x).drop k ++ tail.flatMap write := by
  induction xs with
  | nil => exact .inl ⟨[], List.suffix_refl _, by simp⟩
  | cons x rest ih =>
      rw [List.flatMap_cons]
      by_cases hrest : n ≤ (rest.flatMap write).length
      · -- the cut is behind the first word
        rw [rtake_append_of_le _ hrest]
        rcases ih with ⟨tail, htail, heq⟩ | ⟨y, tail, k, htail, hk⟩
        · exact .inl ⟨tail, htail.trans (List.suffix_cons x rest), heq⟩
        · exact .inr ⟨y, tail, k, htail.trans (List.suffix_cons x rest), hk⟩
      · by_cases hall : (write x ++ rest.flatMap write).length ≤ n
        · refine .inl ⟨x :: rest, List.suffix_refl _, ?_⟩
          rw [rtake_of_length_le hall, List.flatMap_cons]
        · rw [List.length_append] at hall
          refine .inr ⟨x, rest, (write x).length + (rest.flatMap write).length - n,
            List.suffix_refl _, by omega, by omega, ?_⟩
          rw [List.rtake, List.length_append, List.drop_append_of_le_length (by omega)]

variable {write}

theorem length_written_le {xs ys : List α} (h : xs <:+ ys) :
    (xs.flatMap write).length ≤ (ys.flatMap write).length := by
  obtain ⟨before, rfl⟩ := h
  simp

/-- Of two ends of a list, that with the longer text is longer. -/
theorem length_lt_of_written_lt {xs ys zs : List α} (hxs : xs <:+ zs) (hys : ys <:+ zs)
    (h : (xs.flatMap write).length < (ys.flatMap write).length) : xs.length < ys.length := by
  by_contra hle
  have hsuffix := List.suffix_of_suffix_length_le hys hxs (Nat.not_lt.mp hle)
  have hlength : (ys.flatMap write).length ≤ (xs.flatMap write).length := length_written_le hsuffix
  exact absurd hlength (Nat.not_le.mpr h)

/-- If every word has a letter, a longer end of a list has the longer text. -/
theorem written_lt_of_length_lt (hwrite : ∀ x, write x ≠ []) {xs ys zs : List α} (hxs : xs <:+ zs)
    (hys : ys <:+ zs) (h : xs.length < ys.length) :
    (xs.flatMap write).length < (ys.flatMap write).length := by
  obtain ⟨before, rfl⟩ := List.suffix_of_suffix_length_le hxs hys h.le
  obtain ⟨x, before, rfl⟩ := List.exists_cons_of_ne_nil (l := before) (by
    rintro rfl
    exact lt_irrefl _ h)
  have hpos := List.length_pos_of_ne_nil (hwrite x)
  simp only [List.cons_append, List.flatMap_cons, List.flatMap_append, List.length_append]
  omega

end LLMQore.Tails
