import LLMQore.Reentrant.Proc

/-!
# Code that runs alone

Where nobody enters a component while it calls out, and the answers of its call-outs are
known, its code computes: `Proc.alone` is the evaluator, and `Yields` its total weakest
precondition. Named procedures are not entered: code that needs one yields nothing, like
code that waits for an answer that is not there. What it yields is one of its runs
(`Proc.reaches_alone`).
-/

namespace Reentrant

variable {S : Sig} {α β ε : Type}

/-- What code comes to with the given answers. -/
def Proc.alone (answers : (e : S.Out) → Option (S.Ans e)) :
    Proc S α → S.State → Option (α × S.State)
  | .ret a, s => some (a, s)
  | .get k, s => (k s).alone answers s
  | .set s' k, _ => k.alone answers s'
  | .out e k, s => (answers e).bind fun a => (k a).alone answers s
  | .call _ _, _ => none

/-- Run alone, the code ends with a result and in a state for which `Q` holds. -/
def Yields (answers : (e : S.Out) → Option (S.Ans e)) :
    Proc S α → (α → S.State → Prop) → S.State → Prop
  | .ret a, Q, s => Q a s
  | .get k, Q, s => Yields answers (k s) Q s
  | .set s' k, Q, _ => Yields answers k Q s'
  | .out e k, Q, s => ∃ a, answers e = some a ∧ Yields answers (k a) Q s
  | .call _ _, _, _ => False

section Yields

variable {answers : (e : S.Out) → Option (S.Ans e)} {p : Proc S α} {g : α → Proc S β}
  {s : S.State}

theorem yields_iff {Q : α → S.State → Prop} :
    Yields answers p Q s ↔ ∃ a s', p.alone answers s = some (a, s') ∧ Q a s' := by
  induction p generalizing s with
  | ret a => exact ⟨fun h => ⟨a, s, rfl, h⟩, fun ⟨_, _, he, h⟩ => by cases he; exact h⟩
  | get k ih => exact ih s
  | set s' k ih => exact ih
  | out e k ih =>
      constructor
      · rintro ⟨a, ha, h⟩
        obtain ⟨b, s', hk, h⟩ := (ih a).mp h
        exact ⟨b, s', Option.bind_eq_some_iff.mpr ⟨a, ha, hk⟩, h⟩
      · rintro ⟨b, s', hk, h⟩
        obtain ⟨a, ha, hk⟩ := Option.bind_eq_some_iff.mp hk
        exact ⟨a, ha, (ih a).mpr ⟨b, s', hk, h⟩⟩
  | call f k _ => exact ⟨False.elim, nofun⟩

/-- A weaker postcondition is yielded too. -/
theorem Yields.mono {Q Q' : α → S.State → Prop} (h : Yields answers p Q s)
    (hQ : ∀ a s', Q a s' → Q' a s') : Yields answers p Q' s := by
  obtain ⟨a, s', hp, h⟩ := yields_iff.mp h
  exact yields_iff.mpr ⟨a, s', hp, hQ a s' h⟩

theorem yields_bind {Q : β → S.State → Prop} :
    Yields answers (p >>= g) Q s ↔ Yields answers p (fun a s' => Yields answers (g a) Q s') s := by
  induction p generalizing s with
  | ret a => exact Iff.rfl
  | get k ih => exact ih s
  | set s' k ih => exact ih
  | out e k ih => exact exists_congr fun a => and_congr_right fun _ => ih a
  | call f k _ => exact Iff.rfl

theorem Yields.bind {P : α → S.State → Prop} {Q : β → S.State → Prop} (hp : Yields answers p P s)
    (hg : ∀ a s', P a s' → Yields answers (g a) Q s') : Yields answers (p >>= g) Q s :=
  yields_bind.mpr (hp.mono hg)

/-- Code that throws nothing, in front of code that may throw. -/
theorem Yields.run_bind {p : ExceptT ε (Proc S) Unit} {g : Unit → ExceptT ε (Proc S) β}
    {P : S.State → Prop} {Q : Except ε β → S.State → Prop}
    (hp : Yields answers p.run (fun r s' => r = .ok () ∧ P s') s)
    (hg : ∀ s', P s' → Yields answers (g ()).run Q s') : Yields answers (p >>= g).run Q s := by
  refine Yields.bind (p := p.run) hp fun r s' h => ?_
  obtain ⟨rfl, h⟩ := h
  exact hg s' h

/-- Code that reads the state first. -/
theorem Yields.read {g : S.State → Proc S β} {Q : β → S.State → Prop}
    (h : Yields answers (g s) Q s) : Yields answers (Proc.read >>= g) Q s := h

theorem Yields.run_read {g : S.State → ExceptT ε (Proc S) β} {Q : Except ε β → S.State → Prop}
    (h : Yields answers (g s).run Q s) :
    Yields answers (liftM (Proc.read (S := S)) >>= g : ExceptT ε (Proc S) β).run Q s := h

theorem Yields.run_lift {p : Proc S Unit} {P : S.State → Prop}
    (hp : Yields answers p (fun _ s' => P s') s) :
    Yields answers (liftM p : ExceptT ε (Proc S) Unit).run (fun r s' => r = .ok () ∧ P s') s :=
  Yields.bind hp fun _ _ h => ⟨rfl, h⟩

/-- What code yields is one of its runs, in any surroundings that may give the answers. -/
theorem Proc.reaches_alone {M : Machine S} {V : Surroundings M}
    (hV : ∀ s e a, answers e = some a → V.answer s e a) {s s' : S.State} {p : Proc S Unit}
    (h : p.alone answers s = some ((), s')) : Reaches V ⟨s, p⟩ (.idle s') := by
  induction p generalizing s with
  | ret a =>
      obtain rfl : s = s' := congrArg Prod.snd (Option.some.inj h)
      exact .refl _
  | get k ih => exact ((Reaches.refl _).step .get).trans (ih s h)
  | set s₁ k ih => exact ((Reaches.refl _).step .set).trans (ih h)
  | out e k ih =>
      obtain ⟨a, ha, hrest⟩ := Option.bind_eq_some_iff.mp h
      exact ((Reaches.refl _).step (.answer (hV s e a ha))).trans (ih a hrest)
  | call f k _ => cases h

end Yields

end Reentrant
