import LLMQore.Reentrant.Proc

/-!
# Rules for programs with call-outs

A `Contract` states what holds whenever a component waits for its surroundings
(`inv`), what a complete visit of an entry point may do to the state (`rely`),
and what each named procedure needs and gives (`pre`, `post`).

`wp` is the weakest precondition of code under a contract. At a call-out the
invariant must hold, and the code that follows must be right after whatever
visits the surroundings make meanwhile: for every state the rely relates to the
state at the call-out.

`Contract.Valid` asks for one obligation for each entry point and each named
procedure. Given these, `Contract.Valid.reaches` says of a whole run, of any
length and any nesting of visits, that the code still to run is always right;
`Contract.Valid.waiting` and `Contract.Valid.idle` read the invariant and the
rely off it.
-/

namespace Reentrant

variable {S : Sig} {α β : Type} {M : Machine S}

/-- What a component promises its surroundings and its own procedures. -/
structure Contract (S : Sig) where
  inv : S.State → Prop
  rely : S.State → S.State → Prop
  pre : (f : S.Fn) → S.State → Prop
  post : (f : S.Fn) → S.State → S.Res f → S.State → Prop

/-- The contract with an invariant and a rely, for components without named
procedures. -/
def Contract.plain (inv : S.State → Prop) (rely : S.State → S.State → Prop) : Contract S where
  inv := inv
  rely := rely
  pre _ _ := False
  post _ _ _ _ := False

/-- Weakest precondition of code, given which answers the surroundings make. -/
def wp (ans : S.State → (e : S.Out) → S.Ans e → Prop) (C : Contract S) :
    Proc S α → (α → S.State → Prop) → S.State → Prop
  | .ret a, Q, s => Q a s
  | .get k, Q, s => wp ans C (k s) Q s
  | .set s' k, Q, _ => wp ans C k Q s'
  | .out e k, Q, s =>
      C.inv s ∧ ∀ s', C.rely s s' → C.inv s' → ∀ a, ans s' e a → wp ans C (k a) Q s'
  | .call f k, Q, s => C.pre f s ∧ ∀ r s', C.post f s r s' → wp ans C (k r) Q s'

section Wp

variable {ans : S.State → (e : S.Out) → S.Ans e → Prop} {C : Contract S}

/-- A stronger postcondition is enough. -/
theorem wp_mono {p : Proc S α} {Q Q' : α → S.State → Prop} {s : S.State}
    (h : wp ans C p Q s) (hQ : ∀ a s', Q a s' → Q' a s') : wp ans C p Q' s := by
  induction p generalizing s with
  | ret a => exact hQ a s h
  | get k ih => exact ih s h
  | set s' k ih => exact ih h
  | out e k ih => exact ⟨h.1, fun s' hr hi a ha => ih a (h.2 s' hr hi a ha)⟩
  | call f k ih => exact ⟨h.1, fun r s' hp => ih r (h.2 r s' hp)⟩

@[simp] theorem wp_ret (a : α) (Q : α → S.State → Prop) (s : S.State) :
    wp ans C (.ret a) Q s ↔ Q a s := Iff.rfl

@[simp] theorem wp_pure (a : α) (Q : α → S.State → Prop) (s : S.State) :
    wp ans C (pure a) Q s ↔ Q a s := Iff.rfl

@[simp] theorem wp_bind (p : Proc S α) (g : α → Proc S β) (Q : β → S.State → Prop)
    (s : S.State) :
    wp ans C (p >>= g) Q s ↔ wp ans C p (fun a s' => wp ans C (g a) Q s') s := by
  induction p generalizing s with
  | ret a => exact Iff.rfl
  | get k ih => exact ih s s
  | set s' k ih => exact ih s'
  | out e k ih =>
      exact and_congr_right fun _ => forall_congr' fun s' => imp_congr_right fun _ =>
        imp_congr_right fun _ => forall_congr' fun a => imp_congr_right fun _ => ih a s'
  | call f k ih =>
      exact and_congr_right fun _ => forall_congr' fun r => forall_congr' fun s' =>
        imp_congr_right fun _ => ih r s'

@[simp] theorem wp_read (Q : S.State → S.State → Prop) (s : S.State) :
    wp ans C Proc.read Q s ↔ Q s s := Iff.rfl

@[simp] theorem wp_reads (f : S.State → α) (Q : α → S.State → Prop) (s : S.State) :
    wp ans C (Proc.reads f) Q s ↔ Q (f s) s := Iff.rfl

@[simp] theorem wp_modify (f : S.State → S.State) (Q : Unit → S.State → Prop) (s : S.State) :
    wp ans C (Proc.modify f) Q s ↔ Q () (f s) := Iff.rfl

@[simp] theorem wp_query (e : S.Out) (Q : S.Ans e → S.State → Prop) (s : S.State) :
    wp ans C (Proc.query e) Q s ↔
      C.inv s ∧ ∀ s', C.rely s s' → C.inv s' → ∀ a, ans s' e a → Q a s' := Iff.rfl

@[simp] theorem wp_invoke (f : S.Fn) (Q : S.Res f → S.State → Prop) (s : S.State) :
    wp ans C (Proc.invoke f) Q s ↔ C.pre f s ∧ ∀ r s', C.post f s r s' → Q r s' := Iff.rfl

/-- Code that reads the state first. -/
theorem wp_of_read {g : S.State → Proc S α} {Q : α → S.State → Prop} {s : S.State}
    (h : wp ans C (g s) Q s) : wp ans C (Proc.read >>= g) Q s := h

theorem wp_of_reads {f : S.State → β} {g : β → Proc S α} {Q : α → S.State → Prop} {s : S.State}
    (h : wp ans C (g (f s)) Q s) : wp ans C (Proc.reads f >>= g) Q s := h

theorem wp_ite (c : Prop) [Decidable c] (p q : Proc S α) (Q : α → S.State → Prop)
    (s : S.State) :
    wp ans C (if c then p else q) Q s ↔ (c → wp ans C p Q s) ∧ (¬c → wp ans C q Q s) := by
  by_cases h : c <;> simp [h]

/-! Code that may throw is code over `ExceptT`. -/

variable {ε : Type}

@[simp] theorem wp_run_pure (a : α) (Q : Except ε α → S.State → Prop) (s : S.State) :
    wp ans C (pure a : ExceptT ε (Proc S) α).run Q s ↔ Q (.ok a) s := Iff.rfl

@[simp] theorem wp_run_throw (e : ε) (Q : Except ε α → S.State → Prop) (s : S.State) :
    wp ans C (throw e : ExceptT ε (Proc S) α).run Q s ↔ Q (.error e) s := Iff.rfl

/-- What is thrown skips the code that follows. -/
@[simp] theorem wp_run_bind (p : ExceptT ε (Proc S) α) (g : α → ExceptT ε (Proc S) β)
    (Q : Except ε β → S.State → Prop) (s : S.State) :
    wp ans C (p >>= g).run Q s ↔
      wp ans C p.run (fun r s' => match r with
        | .ok a => wp ans C (g a).run Q s'
        | .error e => Q (.error e) s') s := by
  refine (wp_bind p.run _ Q s).trans ?_
  refine ⟨fun h => wp_mono h fun r s' hr => ?_, fun h => wp_mono h fun r s' hr => ?_⟩
  · cases r with
    | ok a => exact hr
    | error e => exact hr
  · cases r with
    | ok a => exact hr
    | error e => exact hr

@[simp] theorem wp_run_lift (p : Proc S α) (Q : Except ε α → S.State → Prop) (s : S.State) :
    wp ans C (liftM p : ExceptT ε (Proc S) α).run Q s ↔
      wp ans C p (fun a s' => Q (.ok a) s') s :=
  wp_bind p _ Q s

theorem wp_run_of_read {g : S.State → ExceptT ε (Proc S) α} {Q : Except ε α → S.State → Prop}
    {s : S.State} (h : wp ans C (g s).run Q s) :
    wp ans C (liftM (Proc.read (S := S)) >>= g : ExceptT ε (Proc S) α).run Q s := h

theorem wp_run_of_modify {f : S.State → S.State} {g : Unit → ExceptT ε (Proc S) α}
    {Q : Except ε α → S.State → Prop} {s : S.State} (h : wp ans C (g ()).run Q (f s)) :
    wp ans C (liftM (Proc.modify (S := S) f) >>= g : ExceptT ε (Proc S) α).run Q s := h

end Wp

/-! ### Code that keeps a contract

Most code neither needs more than the invariant nor promises more than to keep it
and to move the state along the rely. Such code composes. -/

/-- From a state with the invariant, `p` ends in one with the invariant, related
to the first by the rely. -/
def Contract.Keeps (C : Contract S) (ans : S.State → (e : S.Out) → S.Ans e → Prop)
    (p : Proc S α) : Prop :=
  ∀ s, C.inv s → wp ans C p (fun _ s' => C.inv s' ∧ C.rely s s') s

/-- The rely of a contract is a preorder: visits compose. -/
structure Contract.Preorder (C : Contract S) : Prop where
  refl : ∀ s, C.rely s s
  trans : ∀ {s₁ s₂ s₃}, C.rely s₁ s₂ → C.rely s₂ s₃ → C.rely s₁ s₃

namespace Contract.Keeps

variable {ans : S.State → (e : S.Out) → S.Ans e → Prop} {C : Contract S}

/-- Keeping code in front of code that is right after it. -/
theorem wp {p : Proc S α} (hp : C.Keeps ans p) {Q : α → S.State → Prop} {s : S.State}
    (hs : C.inv s) (hQ : ∀ a s', C.inv s' → C.rely s s' → Q a s') : Reentrant.wp ans C p Q s :=
  wp_mono (hp s hs) fun a s' h => hQ a s' h.1 h.2

theorem pure (hC : C.Preorder) (a : α) : C.Keeps ans (Pure.pure a : Proc S α) :=
  fun s hs => ⟨hs, hC.refl s⟩

theorem bind (hC : C.Preorder) {p : Proc S α} {g : α → Proc S β} (hp : C.Keeps ans p)
    (hg : ∀ a, C.Keeps ans (g a)) : C.Keeps ans (p >>= g) := by
  intro s hs
  rw [wp_bind]
  refine hp.wp hs fun a s₁ h₁ hr₁ => ?_
  exact (hg a).wp h₁ fun _ s₂ h₂ hr₂ => ⟨h₂, hC.trans hr₁ hr₂⟩

theorem reads (hC : C.Preorder) (f : S.State → α) : C.Keeps ans (Proc.reads f) :=
  fun s hs => ⟨hs, hC.refl s⟩

theorem modify {f : S.State → S.State} (h : ∀ s, C.inv s → C.inv (f s) ∧ C.rely s (f s)) :
    C.Keeps ans (Proc.modify f) :=
  h

theorem query (e : S.Out) : C.Keeps ans (Proc.query e) :=
  fun _ hs => ⟨hs, fun _ hr hi _ _ => ⟨hi, hr⟩⟩

theorem ite (c : Prop) [Decidable c] {p q : Proc S α} (hp : c → C.Keeps ans p)
    (hq : ¬c → C.Keeps ans q) : C.Keeps ans (if c then p else q) := by
  by_cases h : c
  · rw [if_pos h]; exact hp h
  · rw [if_neg h]; exact hq h

theorem composes (hC : C.Preorder) : Composes fun _ p => C.Keeps ans p where
  pure := pure hC
  reads := reads hC
  bind := bind hC

end Contract.Keeps

/-! ### Code that keeps a contract from a given state

Where code is right only in the state it is run from, its rules speak of that
state. -/

/-- The state `s` may become `s'`. -/
def Contract.Moves (C : Contract S) (s s' : S.State) : Prop := C.inv s' ∧ C.rely s s'

/-- From state `s` the code `p` ends in one `s` may become. -/
def Contract.KeepsAt (C : Contract S) (ans : S.State → (e : S.Out) → S.Ans e → Prop)
    (p : Proc S α) (s : S.State) : Prop :=
  wp ans C p (fun _ s' => C.Moves s s') s

theorem Contract.Moves.trans {C : Contract S} (hC : C.Preorder) {s₁ s₂ s₃ : S.State}
    (h₁ : C.Moves s₁ s₂) (h₂ : C.Moves s₂ s₃) : C.Moves s₁ s₃ :=
  ⟨h₂.1, hC.trans h₁.2 h₂.2⟩

namespace Contract.KeepsAt

variable {ans : S.State → (e : S.Out) → S.Ans e → Prop} {C : Contract S} {ε : Type}
  {s : S.State}

theorem ret (hC : C.Preorder) (hs : C.inv s) (a : α) : C.KeepsAt ans (pure a) s :=
  ⟨hs, hC.refl s⟩

/-- Code that runs in a state `s` has become. -/
theorem after (hC : C.Preorder) {p : Proc S α} {s₁ : S.State} (h : C.Moves s s₁)
    (hp : C.KeepsAt ans p s₁) : wp ans C p (fun _ s' => C.Moves s s') s₁ :=
  wp_mono hp fun _ _ h' => h.trans hC h'

theorem bind (hC : C.Preorder) {p : Proc S α} {g : α → Proc S β} (hp : C.KeepsAt ans p s)
    (hg : ∀ a s', C.Moves s s' → C.KeepsAt ans (g a) s') : C.KeepsAt ans (p >>= g) s :=
  (wp_bind p g _ s).mpr (wp_mono hp fun a s₁ h₁ => after hC h₁ (hg a s₁ h₁))

theorem run_bind (hC : C.Preorder) {p : ExceptT ε (Proc S) α} {g : α → ExceptT ε (Proc S) β}
    (hp : C.KeepsAt ans p.run s)
    (hg : ∀ a s', C.Moves s s' → C.KeepsAt ans (g a).run s') :
    C.KeepsAt ans (p >>= g).run s := by
  refine bind hC hp fun r s' h => ?_
  cases r with
  | ok a => exact hg a s' h
  | error e => exact ret hC h.1 _

theorem run_lift (hC : C.Preorder) {p : Proc S α} (hp : C.KeepsAt ans p s) :
    C.KeepsAt ans (liftM p : ExceptT ε (Proc S) α).run s :=
  bind hC hp fun _ _ h => ret hC h.1 _

/-- What code throws is dropped. -/
theorem discard (hC : C.Preorder) {p : ExceptT ε (Proc S) Unit} (hp : C.KeepsAt ans p.run s) :
    C.KeepsAt ans (Functor.discard p.run) s :=
  bind hC hp fun _ _ h => ret hC h.1 ()

theorem read {g : S.State → Proc S α} (h : C.KeepsAt ans (g s) s) :
    C.KeepsAt ans (Proc.read >>= g) s := h

theorem reads {f : S.State → β} {g : β → Proc S α} (h : C.KeepsAt ans (g (f s)) s) :
    C.KeepsAt ans (Proc.reads f >>= g) s := h

/-- A call-out: what happens meanwhile are visits. -/
theorem query (hs : C.inv s) (e : S.Out) : C.KeepsAt ans (Proc.query e) s :=
  ⟨hs, fun _ hr hi _ _ => ⟨hi, hr⟩⟩

end Contract.KeepsAt

/-! ### Code that runs in the middle of a visit

The visit began in the state `s₀`, and the code runs in a state that `s₀` has become or
is about to become. -/

/-- Run in state `s`, the code `p` ends in a state `s₀` may become. -/
abbrev Contract.KeepsFrom (C : Contract S) (ans : S.State → (e : S.Out) → S.Ans e → Prop)
    (s₀ : S.State) (p : Proc S α) (s : S.State) : Prop :=
  wp ans C p (fun _ s' => C.Moves s₀ s') s

namespace Contract.KeepsFrom

variable {ans : S.State → (e : S.Out) → S.Ans e → Prop} {C : Contract S} {ε : Type}
  {s₀ s : S.State}

theorem ret (h : C.Moves s₀ s) (a : α) : C.KeepsFrom ans s₀ (pure a) s := h

theorem bind {p : Proc S α} {g : α → Proc S β} (hp : C.KeepsFrom ans s₀ p s)
    (hg : ∀ a s', C.Moves s₀ s' → C.KeepsFrom ans s₀ (g a) s') : C.KeepsFrom ans s₀ (p >>= g) s :=
  (wp_bind p g _ s).mpr (wp_mono hp hg)

theorem run_bind {p : ExceptT ε (Proc S) α} {g : α → ExceptT ε (Proc S) β}
    (hp : C.KeepsFrom ans s₀ p.run s)
    (hg : ∀ a s', C.Moves s₀ s' → C.KeepsFrom ans s₀ (g a).run s') :
    C.KeepsFrom ans s₀ (p >>= g).run s := by
  refine (wp_run_bind p g _ s).mpr (wp_mono hp fun r s' h => ?_)
  cases r with
  | ok a => exact hg a s' h
  | error e => exact h

theorem lift {p : Proc S α} (hp : C.KeepsFrom ans s₀ p s) :
    C.KeepsFrom ans s₀ (liftM p : ExceptT ε (Proc S) α).run s :=
  (wp_run_lift p _ s).mpr hp

/-- What code throws is dropped. -/
theorem discard {p : ExceptT ε (Proc S) Unit} (h : C.KeepsFrom ans s₀ p.run s) :
    C.KeepsFrom ans s₀ (Functor.discard p.run) s :=
  (wp_bind p.run _ _ s).mpr (wp_mono h fun _ _ h' => h')

theorem read {g : S.State → Proc S α} (h : C.KeepsFrom ans s₀ (g s) s) :
    C.KeepsFrom ans s₀ (Proc.read >>= g) s := h

theorem run_read {g : S.State → ExceptT ε (Proc S) α} (h : C.KeepsFrom ans s₀ (g s).run s) :
    C.KeepsFrom ans s₀ (liftM (Proc.read (S := S)) >>= g : ExceptT ε (Proc S) α).run s := h

theorem run_modify {f : S.State → S.State} {g : Unit → ExceptT ε (Proc S) α}
    (h : C.KeepsFrom ans s₀ (g ()).run (f s)) :
    C.KeepsFrom ans s₀ (liftM (Proc.modify (S := S) f) >>= g : ExceptT ε (Proc S) α).run s := h

/-- A call-out: what happens meanwhile are visits. -/
theorem query (hC : C.Preorder) (h : C.Moves s₀ s) (e : S.Out) :
    C.KeepsFrom ans s₀ (Proc.query e) s :=
  ⟨h.1, fun _ hr hi _ _ => h.trans hC ⟨hi, hr⟩⟩

/-- An update that is announced by a call-out. -/
theorem modify_query (hC : C.Preorder) {f : S.State → S.State} (h : C.Moves s₀ (f s))
    (e : S.Out) : C.KeepsFrom ans s₀ (Proc.modify f >>= fun _ => Proc.query e) s :=
  (wp_bind (Proc.modify f) _ _ s).mpr (query hC h e)

end Contract.KeepsFrom

/-- The obligations of a contract whose component, when it is idle, is in a state with `I`.
A visit of the idle component may do more than one that is made during a call-out. -/
structure Contract.ValidIdle (C : Contract S) (I : S.State → Prop) (V : Surroundings M) : Prop
    extends C.Preorder where
  event : ∀ s c, I s → V.event s c → wp V.answer C (M.entry c) (fun _ s' => I s') s
  nested : ∀ s e c, C.inv s → V.nested s e c →
    wp V.answer C (M.entry c) (fun _ s' => C.inv s' ∧ C.rely s s') s
  body : ∀ f s, C.pre f s → wp V.answer C (M.body f) (fun r s' => C.post f s r s') s

namespace Contract.ValidIdle

variable {C : Contract S} {I : S.State → Prop} {V : Surroundings M}

/-- One step keeps the code still to run right. -/
theorem step (hC : C.ValidIdle I V) {c c' : Config S} (hstep : Step V c c')
    (h : wp V.answer C c.prog (fun _ s' => I s') c.state) :
    wp V.answer C c'.prog (fun _ s' => I s') c'.state := by
  cases hstep with
  | get => exact h
  | set => exact h
  | @call s f k =>
      have hbody : wp V.answer C (M.body f >>= k) (fun _ s' => I s') s := by
        rw [wp_bind]
        exact wp_mono (hC.body f s h.1) h.2
      exact hbody
  | answer ha => exact h.2 _ (hC.refl _) h.1 _ ha
  | @nested s e k ev hn =>
      -- the visit may only move the state along the rely, and the interrupted
      -- code is right after any such move
      have hvisit : wp V.answer C (M.entry ev >>= fun _ => .out e k) (fun _ s' => I s') s := by
        rw [wp_bind]
        refine wp_mono (hC.nested s e ev h.1 hn) fun _ s₁ hs₁ => ⟨hs₁.1, fun s₂ hr => ?_⟩
        exact h.2 s₂ (hC.trans hs₁.2 hr)
      exact hvisit
  | @event s ev he => exact hC.event s ev h he

/-- Along a whole run the code still to run is right. -/
theorem reaches (hC : C.ValidIdle I V) {c c' : Config S} (hrun : Reaches V c c')
    (h : wp V.answer C c.prog (fun _ s' => I s') c.state) :
    wp V.answer C c'.prog (fun _ s' => I s') c'.state := by
  induction hrun with
  | refl => exact h
  | tail _ hstep ih => exact hC.step hstep ih

/-- An idle component is in a state with `I`. -/
theorem idle (hC : C.ValidIdle I V) {s₀ s : S.State} (h₀ : I s₀)
    (hrun : Reaches V (.idle s₀) (.idle s)) : I s :=
  hC.reaches hrun h₀

/-- Whenever the component waits for its surroundings, its invariant holds. -/
theorem waiting (hC : C.ValidIdle I V) (hI : ∀ s, I s → C.inv s) {s₀ : S.State} {c : Config S}
    (h₀ : I s₀) (hrun : Reaches V (.idle s₀) c) (hw : c.Waiting) : C.inv c.state := by
  have h := hC.reaches hrun h₀
  obtain ⟨s, p⟩ := c
  rcases hw with rfl | ⟨e, k, rfl⟩
  · exact hI s h
  · exact h.1

end Contract.ValidIdle

/-- The obligations of a contract: its rely is a preorder, and the code of every
entry point and of every named procedure is right. -/
structure Contract.Valid (C : Contract S) (V : Surroundings M) : Prop extends C.Preorder where
  event : ∀ s c, C.inv s → V.event s c →
    wp V.answer C (M.entry c) (fun _ s' => C.inv s' ∧ C.rely s s') s
  nested : ∀ s e c, C.inv s → V.nested s e c →
    wp V.answer C (M.entry c) (fun _ s' => C.inv s' ∧ C.rely s s') s
  body : ∀ f s, C.pre f s → wp V.answer C (M.body f) (fun r s' => C.post f s r s') s

namespace Contract.Valid

variable {C : Contract S} {V : Surroundings M}

/-- One obligation for the entry points is enough where nested visits are
restricted like visits of the idle component. -/
theorem of_guarded {P : S.State → M.Event → Prop}
    {A : S.State → (e : S.Out) → S.Ans e → Prop} (hC : C.Preorder)
    (entry : ∀ s c, C.inv s → P s c →
      wp A C (M.entry c) (fun _ s' => C.inv s' ∧ C.rely s s') s)
    (body : ∀ f s, C.pre f s → wp A C (M.body f) (fun r s' => C.post f s r s') s) :
    C.Valid (Surroundings.guarded M P A) where
  toPreorder := hC
  event := entry
  nested s _ c := entry s c
  body := body

/-- An idle component keeps its invariant, and moves along the rely. -/
theorem validIdle (hC : C.Valid V) (s₀ : S.State) :
    C.ValidIdle (fun s => C.inv s ∧ C.rely s₀ s) V where
  toPreorder := hC.toPreorder
  event s c hs he :=
    wp_mono (hC.event s c hs.1 he) fun _ _ hs' => ⟨hs'.1, hC.trans hs.2 hs'.2⟩
  nested := hC.nested
  body := hC.body

/-- Along a whole run the code still to run is right. -/
theorem reaches (hC : C.Valid V) (s₀ : S.State) {c c' : Config S} (hrun : Reaches V c c')
    (h : wp V.answer C c.prog (fun _ s' => C.inv s' ∧ C.rely s₀ s') c.state) :
    wp V.answer C c'.prog (fun _ s' => C.inv s' ∧ C.rely s₀ s') c'.state :=
  (hC.validIdle s₀).reaches hrun h

/-- Whenever the component waits for its surroundings, its invariant holds. -/
theorem waiting (hC : C.Valid V) {s₀ : S.State} {c : Config S} (h₀ : C.inv s₀)
    (hrun : Reaches V (.idle s₀) c) (hw : c.Waiting) : C.inv c.state := by
  have h := hC.reaches s₀ hrun ⟨h₀, hC.refl s₀⟩
  obtain ⟨s, p⟩ := c
  rcases hw with rfl | ⟨e, k, rfl⟩
  · exact h.1
  · exact h.1

/-- Whenever the component is idle, its invariant holds and its state is related
to the initial one by the rely. -/
theorem idle (hC : C.Valid V) {s₀ s : S.State} (h₀ : C.inv s₀)
    (hrun : Reaches V (.idle s₀) (.idle s)) : C.inv s ∧ C.rely s₀ s :=
  hC.reaches s₀ hrun ⟨h₀, hC.refl s₀⟩

/-- A complete visit of an entry point, with whatever happens during its
call-outs, keeps the invariant and moves the state along the rely. -/
theorem visit (hC : C.Valid V) {s s' : S.State} {e : M.Event} (hs : C.inv s)
    (he : V.event s e) (hrun : Reaches V ⟨s, M.entry e⟩ (.idle s')) :
    C.inv s' ∧ C.rely s s' :=
  hC.reaches s hrun (hC.event s e hs he)

/-- Wherever the component waits after it was entered, its invariant holds. -/
theorem waiting_visit (hC : C.Valid V) {s : S.State} {e : M.Event} {c : Config S} (hs : C.inv s)
    (he : V.event s e) (hrun : Reaches V ⟨s, M.entry e⟩ c) (hw : c.Waiting) : C.inv c.state := by
  have h := hC.reaches s hrun (hC.event s e hs he)
  obtain ⟨s', p⟩ := c
  rcases hw with rfl | ⟨e, k, rfl⟩
  · exact h.1
  · exact h.1

end Contract.Valid

end Reentrant
