import Mathlib.Data.List.Basic

/-!
# Histories

What an observer of a component has seen is a list, newest first. `Ordered F h`
says of a history that each observation may come, by `F`, after those that came
before it: the form in which "at most once", "only after" and "never after" are
stated.
-/

namespace Reentrant

variable {α : Type} {F : List α → α → Prop} {o o' : α} {h : List α}

/-- Each observation may come after those before it. -/
def Ordered (F : List α → α → Prop) (h : List α) : Prop :=
  ∀ later o earlier, h = later ++ o :: earlier → F earlier o

theorem ordered_nil : Ordered F [] := fun _ _ _ he => by simp at he

theorem ordered_cons : Ordered F (o :: h) ↔ F h o ∧ Ordered F h := by
  constructor
  · intro hl
    refine ⟨hl [] o h rfl, fun later o' earlier he => ?_⟩
    exact hl (o :: later) o' earlier (by rw [he]; rfl)
  · rintro ⟨ho, hl⟩ later o' earlier he
    cases later with
    | nil =>
        obtain ⟨rfl, rfl⟩ := List.cons.inj he
        exact ho
    | cons o'' later =>
        obtain ⟨rfl, rfl⟩ := List.cons.inj he
        exact hl later o' earlier rfl

/-- What is not the new observation was there before. -/
theorem mem_old (hm : o' ∈ o :: h) (hne : o' ≠ o) : o' ∈ h :=
  List.mem_of_ne_of_mem hne hm

end Reentrant
