import Mathlib.Data.List.Nodup
import Mathlib.Data.List.Induction

/-!
# LLMQore.Keyed

Lists in which every element has a key. A new element takes the place of the one that has its
key, or goes to the end where there is none, so a list made that way has each key once, in the
order in which the keys were first given.
-/

namespace LLMQore.Keyed

variable {α κ : Type} [DecidableEq κ] (key : α → κ)

/-- Put an element in the place of the first one with its key, or at the end. -/
def put (x : α) : List α → List α
  | [] => [x]
  | y :: ys => if key y = key x then x :: ys else y :: put x ys

/-- The list made by putting the elements in order. -/
def puts (given : List α) (xs : List α) : List α :=
  given.foldl (fun xs x => put key x xs) xs

@[simp] theorem puts_nil (xs : List α) : puts key [] xs = xs := rfl

@[simp] theorem puts_cons (x : α) (given xs : List α) :
    puts key (x :: given) xs = puts key given (put key x xs) := rfl

theorem puts_append (given more xs : List α) :
    puts key (given ++ more) xs = puts key more (puts key given xs) :=
  List.foldl_append

theorem map_put (x : α) (xs : List α) :
    (put key x xs).map key =
      if key x ∈ xs.map key then xs.map key else xs.map key ++ [key x] := by
  induction xs with
  | nil => simp [put]
  | cons y ys ih =>
      by_cases h : key y = key x
      · simp [put, h]
      · simp only [put, if_neg h, List.map_cons, ih, List.mem_cons, Ne.symm h, false_or]
        split <;> simp

theorem put_of_new {x : α} {xs : List α} (h : key x ∉ xs.map key) : put key x xs = xs ++ [x] := by
  induction xs with
  | nil => rfl
  | cons y ys ih =>
      simp only [List.map_cons, List.mem_cons, not_or] at h
      simp [put, Ne.symm h.1, ih h.2]

/-- An element whose key is there replaces the one at the first index of the key. -/
theorem put_of_idx {x : α} {xs : List α} {i : Nat}
    (h : xs.findIdx? (fun y => key y == key x) = some i) : put key x xs = xs.set i x := by
  induction xs generalizing i with
  | nil => simp at h
  | cons y ys ih =>
      rw [List.findIdx?_cons] at h
      by_cases hy : key y = key x
      · simp only [hy, beq_self_eq_true, if_true, Option.some.injEq] at h
        simp [put, hy, ← h]
      · simp only [beq_eq_false_iff_ne.mpr hy, Bool.false_eq_true, if_false,
          Option.map_eq_some_iff] at h
        obtain ⟨j, hj, rfl⟩ := h
        simp [put, hy, ih hj]

theorem find_put (x : α) (xs : List α) (k : κ) :
    (put key x xs).find? (fun y => key y == k) =
      if key x = k then some x else xs.find? fun y => key y == k := by
  induction xs with
  | nil => by_cases h : key x = k <;> simp [put, h]
  | cons y ys ih =>
      by_cases hy : key y = key x
      · by_cases h : key x = k <;> simp [put, hy, h]
      · rw [put, if_neg hy, List.find?_cons, List.find?_cons, ih]
        by_cases hk : key y = k
        · have hx : key x ≠ k := fun h => hy (hk.trans h.symm)
          simp [hk, hx]
        · simp [beq_eq_false_iff_ne.mpr hk]

/-- The keys are those that were given, in the order in which they were first given. -/
theorem map_puts (given : List α) : (puts key given []).map key = (given.map key).eraseDups := by
  induction given using List.reverseRecOn with
  | nil => rfl
  | append_singleton given x ih =>
      rw [puts_append, puts_cons, puts_nil, map_put, ih, List.map_append, List.eraseDups_append,
        List.map_cons, List.map_nil]
      by_cases h : key x ∈ given.map key
      · rw [if_pos (List.mem_eraseDups.mpr h), List.removeAll,
          List.filter_cons_of_neg (by simpa using h)]
        simp
      · rw [if_neg (mt List.mem_eraseDups.mp h), List.removeAll,
          List.filter_cons_of_pos (by simpa using h)]
        simp [List.eraseDups_cons]

/-- Each key has the element that was given last for it. -/
theorem find_puts (given : List α) (k : κ) :
    (puts key given []).find? (fun y => key y == k) =
      given.reverse.find? fun y => key y == k := by
  induction given using List.reverseRecOn with
  | nil => rfl
  | append_singleton given x ih =>
      rw [puts_append, puts_cons, puts_nil, find_put, ih, List.reverse_append,
        List.reverse_singleton, List.singleton_append, List.find?_cons]
      by_cases h : key x = k
      · simp [h]
      · simp [h, beq_eq_false_iff_ne.mpr h]

theorem nodup_put {x : α} {xs : List α} (h : (xs.map key).Nodup) :
    ((put key x xs).map key).Nodup := by
  rw [map_put]
  split
  · exact h
  · rename_i hx
    exact h.append (List.nodup_singleton _) (List.disjoint_singleton.mpr hx)

theorem nodup_puts {given xs : List α} (h : (xs.map key).Nodup) :
    ((puts key given xs).map key).Nodup := by
  induction given generalizing xs with
  | nil => exact h
  | cons x given ih => exact ih (nodup_put key h)

/-- Elements with distinct keys are put one after the other. -/
theorem puts_of_nodup {given : List α} (h : (given.map key).Nodup) : puts key given [] = given := by
  induction given using List.reverseRecOn with
  | nil => rfl
  | append_singleton given x ih =>
      rw [List.map_append, List.nodup_append] at h
      rw [puts_append, ih h.1, puts_cons, puts_nil]
      refine put_of_new key fun hx => ?_
      exact h.2.2 _ hx _ (List.mem_singleton_self _) rfl

end LLMQore.Keyed
