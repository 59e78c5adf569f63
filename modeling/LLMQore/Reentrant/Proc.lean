import Mathlib.Logic.Relation

/-!
# Programs with call-outs

The code of an event-driven, single-threaded component is a sequence of reads
and writes of the component's state, interrupted by **call-outs**: a signal is
emitted, a user callback runs, a virtual function of somebody else is called.
While a call-out is in progress the component's own entry points may be entered
again, to any depth, before the interrupted code goes on.

`Proc S α` is the syntax of such code as a free monad: `get` and `set` act on
the state, `out e` calls out and continues with the answer, and `call f` enters
one of the component's own named procedures, which is how loops and mutual
recursion are written without a termination argument.

A `Machine` adds the entry points. A configuration is a state together with the
code still to run; entering an entry point during a call-out puts its body in
front of the interrupted code with `bind`, so the code still to run is the whole
call stack.
-/

namespace Reentrant

/-- What code is written against: the state it acts on, its call-outs with the
type of their answers, and the named procedures with the type of their results. -/
structure Sig where
  State : Type
  Out : Type
  Ans : Out → Type
  Fn : Type
  Res : Fn → Type

/-- Code over the signature `S` with result `α`. -/
inductive Proc (S : Sig) (α : Type) : Type where
  /-- Finished, with a result. -/
  | ret (a : α)
  /-- Read the state. -/
  | get (k : S.State → Proc S α)
  /-- Replace the state. -/
  | set (s : S.State) (k : Proc S α)
  /-- Call out, and continue with the answer. -/
  | out (e : S.Out) (k : S.Ans e → Proc S α)
  /-- Enter a named procedure, and continue with its result. -/
  | call (f : S.Fn) (k : S.Res f → Proc S α)

variable {S : Sig} {α β : Type}

namespace Proc

/-- Sequential composition. -/
def bind : Proc S α → (α → Proc S β) → Proc S β
  | .ret a, g => g a
  | .get k, g => .get fun s => (k s).bind g
  | .set s k, g => .set s (k.bind g)
  | .out e k, g => .out e fun a => (k a).bind g
  | .call f k, g => .call f fun r => (k r).bind g

instance : Monad (Proc S) where
  pure := .ret
  bind := bind

/-- Read the state. -/
def read : Proc S S.State := .get .ret

/-- Read one component of the state. -/
def reads (f : S.State → α) : Proc S α := .get fun s => .ret (f s)

/-- Apply a function to the state. -/
def modify (f : S.State → S.State) : Proc S Unit := .get fun s => .set (f s) (.ret ())

/-- Call out and return the answer. -/
def query (e : S.Out) : Proc S (S.Ans e) := .out e .ret

/-- Enter a named procedure and return its result. -/
def invoke (f : S.Fn) : Proc S (S.Res f) := .call f .ret

/-- Run code up to its next call-out, procedure call or end. -/
def advance : Proc S α → S.State → S.State × Proc S α
  | .get k, s => (k s).advance s
  | .set s' k, _ => k.advance s'
  | p, s => (s, p)

@[simp] theorem advance_ret (a : α) (s : S.State) :
    (ret a : Proc S α).advance s = (s, .ret a) := rfl
@[simp] theorem advance_pure (a : α) (s : S.State) :
    (pure a : Proc S α).advance s = (s, .ret a) := rfl
@[simp] theorem advance_out (e : S.Out) (k : S.Ans e → Proc S α) (s : S.State) :
    (out e k).advance s = (s, .out e k) := rfl
@[simp] theorem advance_call (f : S.Fn) (k : S.Res f → Proc S α) (s : S.State) :
    (call f k).advance s = (s, .call f k) := rfl

@[simp] theorem advance_reads_bind (f : S.State → α) (g : α → Proc S β) (s : S.State) :
    (reads f >>= g).advance s = (g (f s)).advance s := rfl
@[simp] theorem advance_read_bind (g : S.State → Proc S β) (s : S.State) :
    (read >>= g).advance s = (g s).advance s := rfl
@[simp] theorem advance_modify_bind (f : S.State → S.State) (g : Unit → Proc S β) (s : S.State) :
    (modify f >>= g).advance s = (g ()).advance (f s) := rfl
@[simp] theorem advance_modify (f : S.State → S.State) (s : S.State) :
    (modify f).advance s = (f s, .ret ()) := rfl
@[simp] theorem advance_pure_bind (a : α) (g : α → Proc S β) (s : S.State) :
    (pure a >>= g).advance s = (g a).advance s := rfl
end Proc

/-- A property of code that sequences keep. -/
structure Composes (P : (α : Type) → Proc S α → Prop) : Prop where
  pure : ∀ {α : Type} (a : α), P α (Pure.pure a)
  reads : ∀ {α : Type} (f : S.State → α), P α (Proc.reads f)
  bind : ∀ {α β : Type} {p : Proc S α} {g : α → Proc S β}, P α p → (∀ a, P β (g a)) →
    P β (p >>= g)

theorem Composes.ite {P : (α : Type) → Proc S α → Prop} (_ : Composes P) {α : Type} (c : Prop)
    [Decidable c] {p q : Proc S α} (hp : P α p) (hq : P α q) : P α (if c then p else q) := by
  split
  · exact hp
  · exact hq

/-- A component: its entry points, the code of each, and the code of its named
procedures. -/
structure Machine (S : Sig) where
  Event : Type
  entry : Event → Proc S Unit
  body : (f : S.Fn) → Proc S (S.Res f)

/-- What the surroundings of a component may do: enter it while it is idle, enter
it while it calls out, and answer its call-outs. -/
structure Surroundings (M : Machine S) where
  event : S.State → M.Event → Prop
  nested : S.State → (e : S.Out) → M.Event → Prop
  answer : S.State → (e : S.Out) → S.Ans e → Prop

/-- Surroundings that may do anything at any time. -/
def Surroundings.any (M : Machine S) : Surroundings M where
  event _ _ := True
  nested _ _ _ := True
  answer _ _ _ := True

/-- Surroundings that enter the entry points `P` allows and give the answers `A`
allows. -/
def Surroundings.guarded (M : Machine S) (P : S.State → M.Event → Prop)
    (A : S.State → (e : S.Out) → S.Ans e → Prop) : Surroundings M where
  event := P
  nested s _ c := P s c
  answer := A

/-- Surroundings that may do anything but enter an entry point that `P` excludes. -/
abbrev Surroundings.only (M : Machine S) (P : S.State → M.Event → Prop) : Surroundings M :=
  .guarded M P fun _ _ _ => True

/-- A state and the code still to run. -/
structure Config (S : Sig) where
  state : S.State
  prog : Proc S Unit

/-- No code left to run: the component waits for its next event. -/
def Config.idle (s : S.State) : Config S := ⟨s, .ret ()⟩

/-- The component waits for its surroundings: it is idle or calling out. -/
def Config.Waiting (c : Config S) : Prop :=
  c.prog = .ret () ∨ ∃ e k, c.prog = .out e k

instance (c : Config S) : Decidable c.Waiting :=
  match c with
  | ⟨_, .ret ()⟩ => .isTrue (.inl rfl)
  | ⟨_, .out e k⟩ => .isTrue (.inr ⟨e, k, rfl⟩)
  | ⟨_, .get _⟩ | ⟨_, .set _ _⟩ | ⟨_, .call _ _⟩ => .isFalse nofun

variable {M : Machine S}

/-- One step of a component in its surroundings. -/
inductive Step (V : Surroundings M) : Config S → Config S → Prop
  | get {s k} : Step V ⟨s, .get k⟩ ⟨s, k s⟩
  | set {s s' k} : Step V ⟨s, .set s' k⟩ ⟨s', k⟩
  | call {s f k} : Step V ⟨s, .call f k⟩ ⟨s, (M.body f).bind k⟩
  /-- The surroundings answer a call-out. -/
  | answer {s e k a} : V.answer s e a → Step V ⟨s, .out e k⟩ ⟨s, k a⟩
  /-- The component is entered again while it calls out. -/
  | nested {s e k c} : V.nested s e c →
      Step V ⟨s, .out e k⟩ ⟨s, (M.entry c).bind fun _ => .out e k⟩
  /-- An idle component is entered. -/
  | event {s c} : V.event s c → Step V ⟨s, .ret ()⟩ ⟨s, M.entry c⟩

/-- Configurations connected by a run. -/
def Reaches (V : Surroundings M) : Config S → Config S → Prop :=
  Relation.ReflTransGen (Step V)

theorem Reaches.refl {V : Surroundings M} (c : Config S) : Reaches V c c :=
  Relation.ReflTransGen.refl

theorem Reaches.trans {V : Surroundings M} {c₁ c₂ c₃ : Config S}
    (h₁ : Reaches V c₁ c₂) (h₂ : Reaches V c₂ c₃) : Reaches V c₁ c₃ :=
  Relation.ReflTransGen.trans h₁ h₂

theorem Reaches.step {V : Surroundings M} {c₁ c₂ c₃ : Config S}
    (h₁ : Reaches V c₁ c₂) (h₂ : Step V c₂ c₃) : Reaches V c₁ c₃ :=
  Relation.ReflTransGen.tail h₁ h₂

/-- Surroundings that allow more have more runs. -/
theorem Reaches.mono {V W : Surroundings M} (hev : ∀ s c, V.event s c → W.event s c)
    (hne : ∀ s e c, V.nested s e c → W.nested s e c)
    (han : ∀ s e a, V.answer s e a → W.answer s e a) {c c' : Config S}
    (h : Reaches V c c') : Reaches W c c' := by
  refine Relation.ReflTransGen.mono (fun c₁ c₂ hstep => ?_) _ _ h
  cases hstep with
  | get => exact .get
  | set => exact .set
  | call => exact .call
  | answer ha => exact .answer (han _ _ _ ha)
  | nested hn => exact .nested (hne _ _ _ hn)
  | event he => exact .event (hev _ _ he)

/-- Advancing code is a run, in whatever surroundings. -/
theorem reaches_advance (V : Surroundings M) (p : Proc S Unit) (s : S.State) :
    Reaches V ⟨s, p⟩ ⟨(p.advance s).1, (p.advance s).2⟩ := by
  induction p generalizing s with
  | ret a => exact .refl _
  | get k ih => exact (Reaches.refl _).step .get |>.trans (ih s s)
  | set s' k ih => exact (Reaches.refl _).step .set |>.trans (ih s')
  | out e k _ => exact .refl _
  | call f k _ => exact .refl _

/-! ### Scripted runs

A script is a list of moves of the surroundings. Playing it computes the
configuration it leads to, so that a particular run can be evaluated. -/

/-- A move of the surroundings: enter an entry point, or answer the call-out in
progress from a table of answers, which may have none for some. -/
inductive Move (M : Machine S) where
  | event (c : M.Event)
  | answer (a : (e : S.Out) → S.Ans e)
  | respond (a : (e : S.Out) → Option (S.Ans e))

/-- Run up to the next point where the surroundings move, entering at most `fuel`
named procedures on the way. -/
def settle (M : Machine S) : Nat → Config S → Config S
  | 0, c => ⟨(c.prog.advance c.state).1, (c.prog.advance c.state).2⟩
  | fuel + 1, c =>
      match c.prog.advance c.state with
      | (s, .call f k) => settle M fuel ⟨s, (M.body f).bind k⟩
      | (s, p) => ⟨s, p⟩

/-- Is the move one the surroundings `V` may make in configuration `c`? -/
def Move.Allowed (V : Surroundings M) : Move M → Config S → Prop
  | .event c, ⟨s, .ret ()⟩ => V.event s c
  | .event c, ⟨s, .out e _⟩ => V.nested s e c
  | .answer a, ⟨s, .out e _⟩ => V.answer s e (a e)
  | .respond a, ⟨s, .out e _⟩ => ∃ r, a e = some r ∧ V.answer s e r
  | _, _ => False

/-- The effect of a move. -/
def Move.apply : Move M → Config S → Config S
  | .event c, ⟨s, .ret ()⟩ => ⟨s, M.entry c⟩
  | .event c, ⟨s, .out e k⟩ => ⟨s, (M.entry c).bind fun _ => .out e k⟩
  | .answer a, ⟨s, .out e k⟩ => ⟨s, k (a e)⟩
  | .respond a, ⟨s, .out e k⟩ =>
      match a e with
      | some r => ⟨s, k r⟩
      | none => ⟨s, .out e k⟩
  | _, c => c

/-- Play a script. -/
def play (M : Machine S) (fuel : Nat) : List (Move M) → Config S → Config S
  | [], c => settle M fuel c
  | m :: ms, c => play M fuel ms (m.apply (settle M fuel c))

/-- Every move of the script is allowed when it is made. -/
def Playable (V : Surroundings M) (fuel : Nat) : List (Move M) → Config S → Prop
  | [], _ => True
  | m :: ms, c =>
      m.Allowed V (settle M fuel c) ∧ Playable V fuel ms (m.apply (settle M fuel c))

theorem reaches_settle (V : Surroundings M) (fuel : Nat) (c : Config S) :
    Reaches V c (settle M fuel c) := by
  induction fuel generalizing c with
  | zero => exact reaches_advance V c.prog c.state
  | succ fuel ih =>
      have hadv := reaches_advance V c.prog c.state
      unfold settle
      rcases hp : c.prog.advance c.state with ⟨s, p⟩
      rw [hp] at hadv
      cases p with
      | call f k => exact (hadv.step .call).trans (ih _)
      | ret a => exact hadv
      | get k => exact hadv
      | set s' k => exact hadv
      | out e k => exact hadv

theorem Move.step_apply {V : Surroundings M} {m : Move M} {c : Config S}
    (h : m.Allowed V c) : Step V c (m.apply c) := by
  obtain ⟨s, p⟩ := c
  cases m with
  | event ev =>
      cases p with
      | ret a => exact .event h
      | out e k => exact .nested h
      | get k => exact h.elim
      | set s' k => exact h.elim
      | call f k => exact h.elim
  | answer a =>
      cases p with
      | out e k => exact .answer h
      | ret a => exact h.elim
      | get k => exact h.elim
      | set s' k => exact h.elim
      | call f k => exact h.elim
  | respond a =>
      cases p with
      | out e k =>
          obtain ⟨r, hr, hans⟩ := h
          have happly : (Move.respond (M := M) a).apply ⟨s, .out e k⟩ = ⟨s, k r⟩ := by
            show (match a e with
              | some r => ⟨s, k r⟩ | none => ⟨s, .out e k⟩ : Config S) = ⟨s, k r⟩
            rw [hr]
          rw [happly]
          exact .answer hans
      | ret a => exact h.elim
      | get k => exact h.elim
      | set s' k => exact h.elim
      | call f k => exact h.elim

/-- A playable script is a run. -/
theorem reaches_play {V : Surroundings M} {fuel : Nat} {ms : List (Move M)} {c : Config S}
    (h : Playable V fuel ms c) : Reaches V c (play M fuel ms c) := by
  induction ms generalizing c with
  | nil => exact reaches_settle V fuel c
  | cons m ms ih =>
      exact ((reaches_settle V fuel c).step (Move.step_apply h.1)).trans (ih h.2)

section Decidable

variable (V : Surroundings M) [∀ s c, Decidable (V.event s c)]
  [∀ s e c, Decidable (V.nested s e c)] [∀ s e a, Decidable (V.answer s e a)]

instance Move.decidableAllowed (m : Move M) (c : Config S) : Decidable (m.Allowed V c) :=
  match m, c with
  | .event c, ⟨s, .ret ()⟩ => inferInstanceAs (Decidable (V.event s c))
  | .event c, ⟨s, .out e _⟩ => inferInstanceAs (Decidable (V.nested s e c))
  | .answer a, ⟨s, .out e _⟩ => inferInstanceAs (Decidable (V.answer s e (a e)))
  | .respond a, ⟨s, .out e _⟩ =>
      match h : a e with
      | some r => decidable_of_iff (V.answer s e r) (by simp [Move.Allowed, h])
      | none => .isFalse (by simp [Move.Allowed, h])
  | .event _, ⟨_, .get _⟩ | .event _, ⟨_, .set _ _⟩ | .event _, ⟨_, .call _ _⟩
  | .answer _, ⟨_, .ret ()⟩ | .answer _, ⟨_, .get _⟩ | .answer _, ⟨_, .set _ _⟩
  | .answer _, ⟨_, .call _ _⟩ | .respond _, ⟨_, .ret ()⟩ | .respond _, ⟨_, .get _⟩
  | .respond _, ⟨_, .set _ _⟩ | .respond _, ⟨_, .call _ _⟩ => .isFalse nofun

instance Playable.decidable (fuel : Nat) : (ms : List (Move M)) → (c : Config S) →
    Decidable (Playable V fuel ms c)
  | [], _ => .isTrue trivial
  | m :: ms, _ => @instDecidableAnd _ _ (m.decidableAllowed V _) (decidable fuel ms _)

end Decidable

end Reentrant
