import LLMQore.Reentrant.Implement

/-!
# Code between call-outs

A segment of code runs from a point where the surroundings, or a named procedure, have
acted to the next such point, or to the end. `Proc.Segments R Q` says of code that its
segments move the state along `R`, and that one that ends in a call-out `e` moves it along
`Q e`; what was moved along `R` before the code began counts for its first segment.

Unlike `Proc.Within` this says something of several updates together, with which a
call-out is right that none of them would make right alone. Implemented, such code keeps a
contract that the moves along `R` keep, and the code for a call-out from where `Q` has led
(`Proc.Segments.keeps`).
-/

namespace Reentrant

variable {S T : Sig} {α β ε : Type}

namespace Proc

/-- The segment under way began in the first state and has come to the second. -/
def SegmentsAt (R : S.State → S.State → Prop) (Q : S.Out → S.State → S.State → Prop) :
    Proc S α → S.State → S.State → Prop
  | .ret _, s₀, s => R s₀ s
  | .get k, s₀, s => (k s).SegmentsAt R Q s₀ s
  | .set s' k, s₀, _ => k.SegmentsAt R Q s₀ s'
  | .out e k, s₀, s => Q e s₀ s ∧ ∀ s' a, (k a).SegmentsAt R Q s' s'
  | .call _ k, s₀, s => R s₀ s ∧ ∀ s' r, (k r).SegmentsAt R Q s' s'

/-- Every segment of the code is right. -/
def Segments (R : S.State → S.State → Prop) (Q : S.Out → S.State → S.State → Prop)
    (p : Proc S α) : Prop :=
  ∀ s₀ s, R s₀ s → p.SegmentsAt R Q s₀ s

variable {R : S.State → S.State → Prop} {Q : S.Out → S.State → S.State → Prop}

/-- Code over `ExceptT` that reads the state first. -/
theorem SegmentsAt.run_read {ε : Type} {g : S.State → ExceptT ε (Proc S) α} {s₀ s : S.State}
    (h : (g s).run.SegmentsAt R Q s₀ s) :
    (liftM (read (S := S)) >>= g : ExceptT ε (Proc S) α).run.SegmentsAt R Q s₀ s := h

theorem SegmentsAt.bind {p : Proc S α} {g : α → Proc S β} {s₀ s : S.State}
    (hp : p.SegmentsAt R Q s₀ s) (hg : ∀ a, (g a).Segments R Q) :
    (p >>= g).SegmentsAt R Q s₀ s := by
  induction p generalizing s₀ s with
  | ret a => exact hg a s₀ s hp
  | get k ih => exact ih s hp
  | set s' k ih => exact ih hp
  | out e k ih => exact ⟨hp.1, fun s' a => ih a (hp.2 s' a)⟩
  | call f k ih => exact ⟨hp.1, fun s' r => ih r (hp.2 s' r)⟩

namespace Segments

theorem pure (a : α) : (Pure.pure a : Proc S α).Segments R Q := fun _ _ h => h

theorem bind {p : Proc S α} {g : α → Proc S β} (hp : p.Segments R Q)
    (hg : ∀ a, (g a).Segments R Q) : (p >>= g).Segments R Q :=
  fun s₀ s h => (hp s₀ s h).bind hg

theorem reads (f : S.State → α) : (Proc.reads f).Segments R Q := fun _ _ h => h

theorem modify (htrans : ∀ s₁ s₂ s₃, R s₁ s₂ → R s₂ s₃ → R s₁ s₃) {f : S.State → S.State}
    (hf : ∀ s, R s (f s)) : (Proc.modify f).Segments R Q :=
  fun _ s h => htrans _ s _ h (hf s)

theorem query (hrefl : ∀ s, R s s) {e : S.Out} (he : ∀ s₀ s, R s₀ s → Q e s₀ s) :
    (Proc.query e).Segments R Q :=
  fun s₀ s h => ⟨he s₀ s h, fun s' _ => hrefl s'⟩

theorem invoke (hrefl : ∀ s, R s s) (f : S.Fn) : (Proc.invoke f).Segments R Q :=
  fun _ _ h => ⟨h, fun s' _ => hrefl s'⟩

theorem run_bind {p : ExceptT ε (Proc S) α} {g : α → ExceptT ε (Proc S) β}
    (hp : p.run.Segments R Q) (hg : ∀ a, (g a).run.Segments R Q) :
    (p >>= g).run.Segments R Q := by
  refine bind hp fun r => ?_
  cases r with
  | ok a => exact hg a
  | error e => exact pure _

theorem lift {p : Proc S α} (hp : p.Segments R Q) :
    (liftM p : ExceptT ε (Proc S) α).run.Segments R Q :=
  bind hp fun _ => pure _

/-- What code throws is dropped. -/
theorem discard {p : ExceptT ε (Proc S) Unit} (hp : p.run.Segments R Q) :
    Proc.Segments R Q (Functor.discard p.run) :=
  bind hp fun _ => pure _

/-- Implemented, code in right segments keeps a contract that the moves of a segment keep. -/
theorem keeps {C : Contract T} {ans : T.State → (e : T.Out) → T.Ans e → Prop} (hC : C.Preorder)
    {I : Implementation S T} (hrefl : ∀ s, R s s)
    (hsame : ∀ t, I.withPart t (I.part t) = t)
    (hagain : ∀ t s s', I.withPart (I.withPart t s) s' = I.withPart t s')
    (hmove : ∀ t s, C.inv t → R (I.part t) s → C.Moves t (I.withPart t s))
    (hout : ∀ e t s, C.inv t → Q e (I.part t) s → C.KeepsFrom ans t (I.out e) (I.withPart t s))
    (hcall : ∀ f, C.Keeps ans (Proc.invoke (I.fn f))) {p : Proc S α} (hp : p.Segments R Q) :
    C.Keeps ans (p.implement I) := by
  -- `t` is the state of the whole in which the segment under way began
  have hat : ∀ (p : Proc S α) (t : T.State) (s : S.State), C.inv t →
      p.SegmentsAt R Q (I.part t) s → C.KeepsFrom ans t (p.implement I) (I.withPart t s) := by
    intro p
    induction p with
    | ret a => exact fun t s ht h => hmove t s ht h
    | get k ih =>
        intro t s ht h
        refine ih (I.part (I.withPart t s)) t s ht ?_
        rw [I.part_withPart]
        exact h
    | set s' k ih =>
        intro t s ht h
        show C.KeepsFrom ans t (k.implement I) (I.withPart (I.withPart t s) s')
        rw [hagain]
        exact ih t s' ht h
    | out e k ih =>
        intro t s ht h
        refine Contract.KeepsFrom.bind (hout e t s ht h.1) fun a t' h' => ?_
        have hk := ih a t' (I.part t') h'.1 (h.2 _ a)
        rw [hsame] at hk
        exact wp_mono hk fun _ _ h'' => h'.trans hC h''
    | call f k ih =>
        intro t s ht h
        have hm := hmove t s ht h.1
        refine Contract.KeepsFrom.bind (p := Proc.invoke (I.fn f))
          (wp_mono (hcall f _ hm.1) fun _ _ h' => hm.trans hC h') fun r t' h' => ?_
        have hk := ih (I.res f r) t' (I.part t') h'.1 (h.2 _ _)
        rw [hsame] at hk
        exact wp_mono hk fun _ _ h'' => h'.trans hC h''
  intro t ht
  have h := hat p t (I.part t) ht (hp _ _ (hrefl _))
  rwa [hsame] at h

end Segments

/-- A segment that began earlier. -/
theorem SegmentsAt.earlier (htrans : ∀ s₁ s₂ s₃, R s₁ s₂ → R s₂ s₃ → R s₁ s₃) {p : Proc S α}
    {s₁ s₀ s : S.State} (h : R s₁ s₀) (hp : p.SegmentsAt R (fun _ => R) s₀ s) :
    p.SegmentsAt R (fun _ => R) s₁ s := by
  induction p generalizing s with
  | ret a => exact htrans _ _ _ h hp
  | get k ih => exact ih s hp
  | set s' k ih => exact ih hp
  | out e k _ => exact ⟨htrans _ _ _ h hp.1, hp.2⟩
  | call f k _ => exact ⟨htrans _ _ _ h hp.1, hp.2⟩

end Proc

section Runs

variable {M : Machine S} {V : Surroundings M} {R : S.State → S.State → Prop}

/-- One step of a machine whose code moves along a preorder from one waiting point to the next. -/
theorem Step.segments (hrefl : ∀ s, R s s) (htrans : ∀ s₁ s₂ s₃, R s₁ s₂ → R s₂ s₃ → R s₁ s₃)
    (hentry : ∀ e, (M.entry e).Segments R fun _ => R)
    (hbody : ∀ f, (M.body f).Segments R fun _ => R) {s₀ : S.State} {c c' : Config S}
    (hstep : Step V c c') (h : c.prog.SegmentsAt R (fun _ => R) s₀ c.state) :
    c'.prog.SegmentsAt R (fun _ => R) s₀ c'.state := by
  cases hstep with
  | get => exact h
  | set => exact h
  | @call s f k =>
      have hrest : ∀ r, (k r).Segments R fun _ => R := fun r s₁ s₂ hr =>
        Proc.SegmentsAt.earlier htrans hr (h.2 s₂ r)
      exact .bind (Proc.SegmentsAt.earlier htrans h.1 (hbody f s s (hrefl s))) hrest
  | @answer s e k a _ => exact Proc.SegmentsAt.earlier htrans h.1 (h.2 s a)
  | @nested s e k ev _ =>
      refine .bind (Proc.SegmentsAt.earlier htrans h.1 (hentry ev s s (hrefl s))) fun _ s₁ s₂ hr => ?_
      exact ⟨hr, h.2⟩
  | @event s ev _ => exact Proc.SegmentsAt.earlier htrans h (hentry ev s s (hrefl s))

/-- Wherever the machine waits it has moved along the preorder from where the code began. -/
theorem Reaches.segments (hrefl : ∀ s, R s s) (htrans : ∀ s₁ s₂ s₃, R s₁ s₂ → R s₂ s₃ → R s₁ s₃)
    (hentry : ∀ e, (M.entry e).Segments R fun _ => R)
    (hbody : ∀ f, (M.body f).Segments R fun _ => R) {s₀ : S.State} {c c' : Config S}
    (hrun : Reaches V c c') (h : c.prog.SegmentsAt R (fun _ => R) s₀ c.state)
    (hw : c'.Waiting) : R s₀ c'.state := by
  have hlast : c'.prog.SegmentsAt R (fun _ => R) s₀ c'.state := by
    clear hw
    induction hrun with
    | refl => exact h
    | tail _ hstep ih => exact Step.segments hrefl htrans hentry hbody hstep ih
  obtain ⟨s, p⟩ := c'
  rcases hw with rfl | ⟨e, k, rfl⟩
  · exact hlast
  · exact hlast.1

end Runs

end Reentrant
