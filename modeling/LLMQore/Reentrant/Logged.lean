import LLMQore.Reentrant.Implement

/-!
# Logged runs

Some properties of a component speak of the order in which it was entered, which its state does
not show. `Machine.logged` is the machine together with a log: what entered it, newest first, each
event with the state it found. The log is written on entry and no code reads it, so that every run
of the machine is one of the logged machine (`Reaches.logged`).
-/

namespace Reentrant

variable {S : Sig}

/-- What entered a component, newest first, each event with the state it found. -/
abbrev EventLog (S : Sig) (E : Type) : Type := List (S.State × E)

/-- The signature with a log. -/
abbrev Sig.logged (S : Sig) (E : Type) : Sig where
  State := EventLog S E × S.State
  Out := S.Out
  Ans := S.Ans
  Fn := S.Fn
  Res := S.Res

/-- Code as code beside a log. -/
def logging (S : Sig) (E : Type) : Implementation S (S.logged E) where
  part t := t.2
  withPart t s := (t.1, s)
  part_withPart _ _ := rfl
  out e := Proc.query (S := S.logged E) e
  fn f := f
  res _ r := r

/-- Code as code of the logged machine. -/
abbrev Proc.logged {α : Type} (E : Type) (p : Proc S α) : Proc (S.logged E) α :=
  p.implement (logging S E)

/-- The machine with a log. -/
def Machine.logged (M : Machine S) : Machine (S.logged M.Event) where
  Event := M.Event
  entry e := do
    Proc.modify (S := S.logged M.Event) fun t => ((t.2, e) :: t.1, t.2)
    (M.entry e).logged M.Event
  body f := (M.body f).logged M.Event

section Runs

variable {M : Machine S} {V : Surroundings M} {W : Surroundings M.logged}

/-- A step of the machine is made of steps of the logged one. -/
theorem Step.logged (hevent : ∀ s e log, V.event s e → W.event (log, s) e)
    (hnested : ∀ s o e log, V.nested s o e → W.nested (log, s) o e)
    (hanswer : ∀ s o a log, V.answer s o a → W.answer (log, s) o a) {c c' : Config S}
    (hstep : Step V c c') (log : EventLog S M.Event) :
    ∃ log' : EventLog S M.Event, Reaches W ⟨(log, c.state), c.prog.logged M.Event⟩
      ⟨(log', c'.state), c'.prog.logged M.Event⟩ := by
  cases hstep with
  | get => exact ⟨log, (Reaches.refl _).step .get⟩
  | set => exact ⟨log, ((Reaches.refl _).step .get).step .set⟩
  | @call s f k =>
      refine ⟨log, ?_⟩
      have hcall : Reaches W ⟨(log, s), .call f fun r => (k r).logged M.Event⟩
          ⟨(log, s), ((M.body f).logged M.Event).bind fun r => (k r).logged M.Event⟩ :=
        (Reaches.refl _).step .call
      have hbind : ((M.body f).bind k).logged M.Event =
          ((M.body f).logged M.Event).bind fun r => (k r).logged M.Event :=
        Proc.implement_bind (logging S M.Event) (M.body f) k
      rw [hbind]
      exact hcall
  | @answer s o k a ha =>
      exact ⟨log, (Reaches.refl _).step (.answer (hanswer s o a log ha))⟩
  | @nested s o k e hn =>
      refine ⟨(s, e) :: log, ?_⟩
      have hentered := (Reaches.refl (V := W) ⟨(log, s), (Proc.out o k).logged M.Event⟩).step
        (.nested (hnested s o e log hn))
      have hlogged := (hentered.step .get).step .set
      have hbind : ((M.entry e).bind fun _ => .out o k).logged M.Event =
          ((M.entry e).logged M.Event).bind fun _ => (Proc.out o k).logged M.Event :=
        Proc.implement_bind (logging S M.Event) (M.entry e) fun _ => .out o k
      rw [hbind]
      exact hlogged
  | @event s e he =>
      refine ⟨(s, e) :: log, ?_⟩
      have hentered := (Reaches.refl (V := W) ⟨(log, s), Proc.ret ()⟩).step
        (.event (hevent s e log he))
      exact (hentered.step .get).step .set

/-- Every run of the machine is one of the logged machine. -/
theorem Reaches.logged (hevent : ∀ s e log, V.event s e → W.event (log, s) e)
    (hnested : ∀ s o e log, V.nested s o e → W.nested (log, s) o e)
    (hanswer : ∀ s o a log, V.answer s o a → W.answer (log, s) o a) {c c' : Config S}
    (hrun : Reaches V c c') (log : EventLog S M.Event) :
    ∃ log' : EventLog S M.Event, Reaches W ⟨(log, c.state), c.prog.logged M.Event⟩
      ⟨(log', c'.state), c'.prog.logged M.Event⟩ := by
  induction hrun with
  | refl => exact ⟨log, .refl _⟩
  | tail _ hstep ih =>
      obtain ⟨log₁, h₁⟩ := ih
      obtain ⟨log₂, h₂⟩ := hstep.logged hevent hnested hanswer log₁
      exact ⟨log₂, h₁.trans h₂⟩

end Runs

end Reentrant
