import LLMQore.Reentrant.Rules

/-!
# Implementing call-outs

A component may be part of a larger one that does for it what it calls out for. An
`Implementation` says where the state of the part is and what code stands for each of its
call-outs; `Proc.implement` is the part's code as code of the whole.

`Proc.Within R Q` says of code that every update it makes is one `R` allows and every
call-out one `Q` allows. It needs no contract and composes like code, so it can be proved
of the part alone; from it follows that the implemented code keeps a contract of the whole
that such updates and the code for such call-outs keep (`Proc.Within.keeps`). Where all code
of a machine is within a preorder, its runs move along it (`Reaches.within`).
-/

namespace Reentrant

variable {S T : Sig} {α β : Type}

/-- The code of a component over `S` as part of one over `T`. -/
structure Implementation (S T : Sig) where
  part : T.State → S.State
  withPart : T.State → S.State → T.State
  part_withPart : ∀ t s, part (withPart t s) = s
  out : (e : S.Out) → Proc T (S.Ans e)
  fn : S.Fn → T.Fn
  res : (f : S.Fn) → T.Res (fn f) → S.Res f

namespace Proc

/-- The code of the part as code of the whole. -/
def implement (I : Implementation S T) : Proc S α → Proc T α
  | .ret a => .ret a
  | .get k => .get fun t => (k (I.part t)).implement I
  | .set s k => .get fun t => .set (I.withPart t s) (k.implement I)
  | .out e k => (I.out e).bind fun a => (k a).implement I
  | .call f k => .call (I.fn f) fun r => (k (I.res f r)).implement I

variable (I : Implementation S T)

theorem bind_assoc {γ : Type} (p : Proc T α) (g : α → Proc T β) (h : β → Proc T γ) :
    (p.bind g).bind h = p.bind fun a => (g a).bind h := by
  induction p with
  | ret a => rfl
  | get k ih => exact congrArg Proc.get (funext fun s => ih s)
  | set s k ih => exact congrArg (Proc.set s) ih
  | out e k ih => exact congrArg (Proc.out e) (funext fun a => ih a)
  | call f k ih => exact congrArg (Proc.call f) (funext fun r => ih r)

theorem bind_ret (p : Proc T α) : p.bind .ret = p := by
  induction p with
  | ret a => rfl
  | get k ih => exact congrArg Proc.get (funext fun s => ih s)
  | set s k ih => exact congrArg (Proc.set s) ih
  | out e k ih => exact congrArg (Proc.out e) (funext fun a => ih a)
  | call f k ih => exact congrArg (Proc.call f) (funext fun r => ih r)

@[simp] theorem implement_query (e : S.Out) : (query e).implement I = I.out e :=
  bind_ret (I.out e)

@[simp] theorem implement_pure (a : α) : (pure a : Proc S α).implement I = pure a := rfl

@[simp] theorem implement_bind (p : Proc S α) (g : α → Proc S β) :
    (p >>= g).implement I = p.implement I >>= fun a => (g a).implement I := by
  induction p with
  | ret a => rfl
  | get k ih => exact congrArg Proc.get (funext fun t => ih (I.part t))
  | set s k ih => exact congrArg Proc.get (funext fun t => congrArg (Proc.set _) ih)
  | out e k ih =>
      refine Eq.trans ?_ (bind_assoc (I.out e) _ _).symm
      exact congrArg (I.out e).bind (funext fun a => ih a)
  | call f k ih => exact congrArg (Proc.call _) (funext fun r => ih (I.res f r))

/-! ### Code within a relation -/

/-- Every update the code makes from a state on is one `R` allows, and every call-out one `Q`
allows, whatever is answered and whatever happens meanwhile. It enters no named procedure. -/
def WithinAt (R : S.State → S.State → Prop) (Q : S.Out → Prop) : Proc S α → S.State → Prop
  | .ret _, _ => True
  | .get k, s => (k s).WithinAt R Q s
  | .set s' k, s => R s s' ∧ k.WithinAt R Q s'
  | .out e k, _ => Q e ∧ ∀ s a, (k a).WithinAt R Q s
  | .call _ _, _ => False

/-- Every update the code makes is one `R` allows, and every call-out one `Q` allows. -/
def Within (R : S.State → S.State → Prop) (Q : S.Out → Prop) (p : Proc S α) : Prop :=
  ∀ s, p.WithinAt R Q s

variable {R : S.State → S.State → Prop} {Q : S.Out → Prop}

theorem WithinAt.bind {p : Proc S α} {g : α → Proc S β} {s : S.State} (hp : p.WithinAt R Q s)
    (hg : ∀ a, (g a).Within R Q) : (p >>= g).WithinAt R Q s := by
  induction p generalizing s with
  | ret a => exact hg a s
  | get k ih => exact ih s hp
  | set s' k ih => exact ⟨hp.1, ih hp.2⟩
  | out e k ih => exact ⟨hp.1, fun s' a => ih a (hp.2 s' a)⟩
  | call f k _ => exact hp.elim

theorem WithinAt.ite (c : Prop) [Decidable c] {p q : Proc S α} {s : S.State}
    (hp : c → p.WithinAt R Q s) (hq : ¬c → q.WithinAt R Q s) :
    (if c then p else q).WithinAt R Q s := by
  split
  · exact hp ‹_›
  · exact hq ‹_›

namespace Within

theorem pure (a : α) : (Pure.pure a : Proc S α).Within R Q := fun _ => trivial

theorem bind {p : Proc S α} {g : α → Proc S β} (hp : p.Within R Q) (hg : ∀ a, (g a).Within R Q) :
    (p >>= g).Within R Q :=
  fun s => (hp s).bind hg

theorem read : (Proc.read (S := S)).Within R Q := fun _ => trivial

theorem reads (f : S.State → α) : (Proc.reads f).Within R Q := fun _ => trivial

theorem modify {f : S.State → S.State} (h : ∀ s, R s (f s)) : (Proc.modify f).Within R Q :=
  fun s => ⟨h s, trivial⟩

theorem query {e : S.Out} (h : Q e) : (Proc.query e).Within R Q :=
  fun _ => ⟨h, fun _ _ => trivial⟩

theorem ite (c : Prop) [Decidable c] {p q : Proc S α} (hp : p.Within R Q) (hq : q.Within R Q) :
    (if c then p else q).Within R Q := by
  split
  · exact hp
  · exact hq

/-- Code that enters no named procedure is within the relation of all updates. -/
theorem of_noFn (hfn : S.Fn → False) (p : Proc S α) :
    p.Within (fun _ _ => True) fun _ => True := by
  intro s
  induction p generalizing s with
  | ret a => trivial
  | get k ih => exact ih s s
  | set s' k ih => exact ⟨trivial, ih s'⟩
  | out e k ih => exact ⟨trivial, fun s a => ih a s⟩
  | call f k _ => exact (hfn f).elim

theorem composes : Composes fun _ (p : Proc S _) => p.Within R Q where
  pure := pure
  reads := reads
  bind := bind

/-- Code within a relation keeps, implemented, what the updates of that relation and the code
for the call-outs keep. -/
theorem keeps {C : Contract T} {ans : T.State → (e : T.Out) → T.Ans e → Prop} (hC : C.Preorder)
    {I : Implementation S T}
    (hset : ∀ t s, C.inv t → R (I.part t) s →
      C.inv (I.withPart t s) ∧ C.rely t (I.withPart t s))
    (hout : ∀ e, Q e → C.Keeps ans (I.out e)) {p : Proc S α} (h : p.Within R Q) :
    C.Keeps ans (p.implement I) := by
  have hat : ∀ (p : Proc S α) (t : T.State), C.inv t → p.WithinAt R Q (I.part t) →
      wp ans C (p.implement I) (fun _ t' => C.inv t' ∧ C.rely t t') t := by
    intro p
    induction p with
    | ret a => exact fun t ht _ => ⟨ht, hC.refl t⟩
    | get k ih => exact fun t ht h => ih (I.part t) t ht h
    | set s k ih =>
        intro t ht h
        obtain ⟨hinv, hrely⟩ := hset t s ht h.1
        have hk := ih (I.withPart t s) hinv (by rw [I.part_withPart]; exact h.2)
        exact wp_mono hk fun _ _ h' => ⟨h'.1, hC.trans hrely h'.2⟩
    | out e k ih =>
        intro t ht h
        refine (wp_bind (I.out e) _ _ t).mpr ((hout e h.1).wp ht fun a t' ht' hr => ?_)
        exact wp_mono (ih a t' ht' (h.2 _ a)) fun _ _ h' => ⟨h'.1, hC.trans hr h'.2⟩
    | call f k _ => exact fun _ _ h => h.elim
  exact fun t ht => hat p t ht (h _)

/-- Code within a relation keeps what the updates of that relation keep. -/
theorem keeps_plain {I : S.State → Prop} {ans : S.State → (e : S.Out) → S.Ans e → Prop}
    (hset : ∀ s s', I s → R s s' → I s') {p : Proc S α} (h : p.Within R Q) :
    (Contract.plain I fun _ _ => True : Contract S).Keeps ans p := by
  have hat : ∀ (p : Proc S α) (s : S.State), I s → p.WithinAt R Q s →
      wp ans (Contract.plain I fun _ _ => True : Contract S) p (fun _ s' => I s' ∧ True) s := by
    intro p
    induction p with
    | ret a => exact fun s hs _ => ⟨hs, trivial⟩
    | get k ih => exact fun s hs h => ih s s hs h
    | set s' k ih => exact fun s hs h => ih s' (hset s s' hs h.1) h.2
    | out e k ih => exact fun s hs h => ⟨hs, fun s' _ hs' a _ => ih a s' hs' (h.2 s' a)⟩
    | call f k _ => exact fun _ _ h => h.elim
  exact fun s hs => hat p s hs (h s)

/-- Code within a relation is, implemented, within any that allows its updates and the updates of
the code for its call-outs. -/
theorem implement {R' : T.State → T.State → Prop} {Q' : T.Out → Prop} {I : Implementation S T}
    (hset : ∀ t s, R (I.part t) s → R' t (I.withPart t s))
    (hout : ∀ e, Q e → (I.out e).Within R' Q') {p : Proc S α} (h : p.Within R Q) :
    (p.implement I).Within R' Q' := by
  have hat : ∀ (p : Proc S α) (t : T.State), p.WithinAt R Q (I.part t) →
      (p.implement I).WithinAt R' Q' t := by
    intro p
    induction p with
    | ret a => exact fun _ _ => trivial
    | get k ih => exact fun t h => ih (I.part t) t h
    | set s k ih =>
        exact fun t h => ⟨hset t s h.1, ih (I.withPart t s) (by rw [I.part_withPart]; exact h.2)⟩
    | out e k ih => exact fun t h => (hout e h.1 t).bind fun a t' => ih a t' (h.2 _ a)
    | call f k _ => exact fun _ h => h.elim
  exact fun t => hat p t (h _)

end Within

end Proc

section Runs

variable {M : Machine S} {V : Surroundings M} {R : S.State → S.State → Prop} {Q : S.Out → Prop}

/-- One step of a machine whose code is within a relation. -/
theorem Step.within (hrefl : ∀ s, R s s) (hentry : ∀ e, (M.entry e).Within R Q) {c c' : Config S}
    (hstep : Step V c c') (h : c.prog.WithinAt R Q c.state) :
    R c.state c'.state ∧ c'.prog.WithinAt R Q c'.state := by
  cases hstep with
  | get => exact ⟨hrefl _, h⟩
  | set => exact h
  | call => exact h.elim
  | answer _ => exact ⟨hrefl _, h.2 _ _⟩
  | nested _ => exact ⟨hrefl _, (hentry _ _).bind fun _ _ => h⟩
  | event _ => exact ⟨hrefl _, hentry _ _⟩

/-- Code within a preorder moves along it from any point of a run to any later one. -/
theorem Reaches.within (hrefl : ∀ s, R s s)
    (htrans : ∀ {s₁ s₂ s₃}, R s₁ s₂ → R s₂ s₃ → R s₁ s₃) (hentry : ∀ e, (M.entry e).Within R Q)
    {c c' : Config S} (hrun : Reaches V c c') (h : c.prog.WithinAt R Q c.state) :
    R c.state c'.state ∧ c'.prog.WithinAt R Q c'.state := by
  induction hrun with
  | refl => exact ⟨hrefl _, h⟩
  | tail _ hstep ih =>
      obtain ⟨hmove, hrest⟩ := Step.within hrefl hentry hstep ih.2
      exact ⟨htrans ih.1 hmove, hrest⟩

end Runs

/-! ### Code of a part the contract does not speak of -/

/-- A contract that allows every change of the part is kept by all code of the part, where the
code for its call-outs and its named procedures keep the contract. -/
theorem Contract.Keeps.implement {C : Contract T} {ans : T.State → (e : T.Out) → T.Ans e → Prop}
    (hC : C.Preorder) {I : Implementation S T}
    (hset : ∀ t s, C.inv t → C.Moves t (I.withPart t s))
    (hout : ∀ e, C.Keeps ans (I.out e)) (hcall : ∀ f, C.Keeps ans (Proc.invoke (I.fn f)))
    (p : Proc S α) : C.Keeps ans (p.implement I) := by
  induction p with
  | ret a => exact .pure hC a
  | get k ih => exact fun t ht => ih (I.part t) t ht
  | set s k ih =>
      intro t ht
      have hmove := hset t s ht
      exact wp_mono (ih _ hmove.1) fun _ _ h => hmove.trans hC h
  | out e k ih => exact .bind hC (hout e) fun a => ih a
  | call f k ih => exact .bind hC (hcall f) fun r => ih (I.res f r)

end Reentrant
