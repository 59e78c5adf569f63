import Mathlib.Data.Option.Basic
import Mathlib.Data.List.Induction
import Mathlib.Logic.Relation

/-!
# LLMQore.FutureUtils

Chaining of futures (`FutureUtils.hpp`): `futureThen`, `futureOnFailed` and `futureUnwrap` make a
promise and watch a future, and a slot of the watcher settles the promise when the future has
finished.

A future is known by its number. A slot runs once, at some time after the future it watches has
finished, whatever else has happened in between; what a handler does to other futures is a step
before the slot runs. A value is of one type for all futures; a value that is itself a future is
read as the number of one.
-/

namespace LLMQore.FutureUtils

/-- What the `catch` clauses tell apart: the two types of the library, the exceptions that derive
from `std::exception`, and all others. -/
inductive ExnKind where
  | httpTransportError
  | jsonRpcException
  | stdException
  | other
  deriving DecidableEq

/-- The values and the exceptions of a program. -/
structure Types (V E : Type) where
  /-- The future a value is, where it is one. -/
  asFuture : V → Nat
  kind : E → ExnKind
  /-- `HttpTransportError("Request cancelled before completion", OperationCanceledError)`. -/
  cancelledBeforeCompletion : E
  kind_cancelled : kind cancelledBeforeCompletion = .httpTransportError

variable {V E : Type}

/-! ## Futures -/

/-- The state a promise and its futures share. -/
structure Future (V E : Type) where
  isVoid : Bool
  results : List V := []
  exception : Option E := none
  canceled : Bool := false
  finished : Bool := false
  /-- How often `finish` was called. -/
  finishCalls : Nat := 0
  /-- The promise belongs to somebody else. -/
  isSource : Bool := false

namespace Future

/-- `QPromise::addResult`, which does nothing once the future is cancelled or finished. -/
def addResult (f : Future V E) (v : V) : Future V E :=
  if f.canceled || f.finished then f else { f with results := f.results ++ [v] }

/-- `QPromise::setException`, which also cancels the future. -/
def setException (f : Future V E) (e : E) : Future V E :=
  if f.canceled || f.finished then f else { f with exception := some e, canceled := true }

def finish (f : Future V E) : Future V E :=
  { f with finished := true, finishCalls := f.finishCalls + 1 }

/-- `QFuture::cancel`. -/
def cancel (f : Future V E) : Future V E := { f with canceled := true }

/-- `futureResultOrRethrow`: a void future has no result to wait for. -/
def resultOrRethrow (T : Types V E) (f : Future V E) : Except E (Option V) :=
  match f.exception with
  | some e => .error e
  | none =>
      if f.isVoid then .ok none
      else
        match f.results with
        | [] => .error T.cancelledBeforeCompletion
        | v :: _ => .ok (some v)

/-- Nothing was done to the promise yet. -/
structure Fresh (f : Future V E) : Prop where
  results : f.results = []
  exception : f.exception = none
  canceled : f.canceled = false
  finished : f.finished = false
  finishCalls : f.finishCalls = 0

/-- The future ended with a value: a void one by finishing without being cancelled. -/
def HasValue (f : Future V E) : Prop :=
  f.exception = none ∧ if f.isVoid then f.canceled = false else f.results ≠ []

/-- The future ended without a value: with its exception, or cancelled before completion. -/
def Fails (T : Types V E) (f : Future V E) (e : E) : Prop :=
  f.exception = some e ∨ f.exception = none ∧ ¬f.HasValue ∧ e = T.cancelledBeforeCompletion

/-- The future is a void one that was cancelled, without an exception. -/
structure CancelledVoid (f : Future V E) : Prop where
  isVoid : f.isVoid = true
  canceled : f.canceled = true
  exception : f.exception = none

/-- How a future of somebody else ends. -/
inductive Ending (V E : Type) where
  | value (v : V)
  | exception (e : E)
  | cancelled

/-- End a future. A void one has no result. -/
def settle (f : Future V E) : Ending V E → Future V E
  | .value v => (if f.isVoid then f else f.addResult v).finish
  | .exception e => (f.setException e).finish
  | .cancelled => f.cancel.finish

end Future

/-! ## Slots -/

/-- The slot of a watcher, with the promise it settles. -/
inductive Slot where
  | onThen (promise : Nat)
  /-- `takes` says which of the caught types the handler can be called with. -/
  | onFailed (promise : Nat) (takes : ExnKind → Bool) (returnsVoid : Bool)
  | onUnwrap (promise : Nat)
  /-- The slot of the second watcher of `futureUnwrap`. -/
  | onInner (promise : Nat)

namespace Slot

def promise : Slot → Nat
  | onThen p => p
  | onFailed p _ _ => p
  | onUnwrap p => p
  | onInner p => p

end Slot

structure Watcher where
  watched : Nat
  slot : Slot
  /-- The slot has run. -/
  delivered : Bool := false
  /-- How often the handler was called. -/
  calls : Nat := 0

/-- What a slot does: it calls its handler or not, and then settles its promise, watches another
future, or is left by an exception. -/
inductive Effect (V E : Type) where
  | settles (called : Bool) (change : Future V E → Future V E)
  | watches (inner : Nat)
  | escapes (e : E)

/-- Store what a slot of a future with a result ends with. -/
def keep (r : V) (q : Future V E) : Future V E :=
  (if q.isVoid then q else q.addResult r).finish

def fail (e : E) (q : Future V E) : Future V E := (q.setException e).finish

/-- `invokeFailureHandler` with a handler that can be called; `answer` is what it returns or
throws. A handler without a result leaves the promise without one. -/
def invokeFailureHandler (returnsVoid : Bool) (answer : Except E V) (q : Future V E) :
    Future V E :=
  match answer with
  | .ok r => if returnsVoid then q.finish else keep r q
  | .error e => fail e q

/-- `resolveFailure`. -/
def resolveFailure (T : Types V E) (takes : ExnKind → Bool) (returnsVoid : Bool) (e : E)
    (answer : Except E V) : Effect V E :=
  match T.kind e with
  -- no `catch` clause: the exception leaves the slot
  | .other => .escapes e
  | k =>
      if takes k then .settles true (invokeFailureHandler returnsVoid answer)
      else .settles false (fail e)

/-- The slot of a watcher of the finished future `f`; `answer` is what its handler returns or
throws if it is called. -/
def Slot.run (T : Types V E) (f : Future V E) (answer : Except E V) : Slot → Option (Effect V E)
  | .onThen _ =>
      match f.resultOrRethrow T with
      | .ok _ =>
          match answer with
          | .ok r => some (.settles true (keep r))
          | .error e => some (.settles true (fail e))
      | .error e => some (.settles false (fail e))
  | .onFailed _ takes returnsVoid =>
      match f.resultOrRethrow T with
      | .ok none => some (.settles false Future.finish)
      | .ok (some v) => some (.settles false (keep v))
      | .error e => some (resolveFailure T takes returnsVoid e answer)
  | .onUnwrap _ =>
      match f.resultOrRethrow T with
      -- a future of futures is not void
      | .ok none => none
      | .ok (some v) => some (.watches (T.asFuture v))
      | .error e => some (.settles false (fail e))
  | .onInner _ =>
      match f.resultOrRethrow T with
      | .ok none => some (.settles false Future.finish)
      | .ok (some v) => some (.settles false (keep v))
      | .error e => some (.settles false (fail e))

/-! ## Runs -/

structure State (V E : Type) where
  futures : List (Future V E) := []
  watchers : List Watcher := []

inductive Event (V E : Type) where
  /-- Somebody makes a promise. -/
  | promise (isVoid : Bool)
  /-- Somebody's promise ends. -/
  | settle (id : Nat) (ending : Future.Ending V E)
  | futureThen (id : Nat) (resultIsVoid : Bool)
  | futureOnFailed (id : Nat) (takes : ExnKind → Bool) (returnsVoid : Bool)
  | futureUnwrap (id : Nat) (isVoid : Bool)
  /-- A watcher gets `finished`. -/
  | finished (watcher : Nat) (answer : Except E V)

namespace State

/-- Make a promise and watch a future for it. -/
def chain (s : State V E) (id : Nat) (isVoid : Bool) (slot : Nat → Slot) : State V E where
  futures := s.futures ++ [{ isVoid }]
  watchers := s.watchers ++ [{ watched := id, slot := slot s.futures.length }]

/-- The state after the slot of watcher `i` has had an effect. -/
def effect (s : State V E) (i : Nat) (w : Watcher) : Effect V E → State V E
  | .settles called change =>
      { futures := s.futures.modify w.slot.promise change
        watchers := s.watchers.set i { w with delivered := true, calls := w.calls + called.toNat } }
  | .watches inner =>
      { s with
        watchers := s.watchers.set i { w with delivered := true } ++
          [{ watched := inner, slot := .onInner w.slot.promise }] }
  | .escapes _ => { s with watchers := s.watchers.set i { w with delivered := true } }

def step (T : Types V E) (s : State V E) : Event V E → Option (State V E)
  | .promise isVoid => some { s with futures := s.futures ++ [{ isVoid, isSource := true }] }
  | .settle id ending => do
      let f ← s.futures[id]?
      guard (f.isSource && !f.finished)
      some { s with futures := s.futures.set id (f.settle ending) }
  | .futureThen id resultIsVoid => do
      let _ ← s.futures[id]?
      some (s.chain id resultIsVoid .onThen)
  | .futureOnFailed id takes returnsVoid => do
      let f ← s.futures[id]?
      some (s.chain id f.isVoid fun promise => .onFailed promise takes returnsVoid)
  | .futureUnwrap id isVoid => do
      let f ← s.futures[id]?
      guard !f.isVoid
      some (s.chain id isVoid .onUnwrap)
  | .finished i answer => do
      let w ← s.watchers[i]?
      let f ← s.futures[w.watched]?
      guard (!w.delivered && f.finished)
      let e ← w.slot.run T f answer
      some (s.effect i w e)

end State

/-! ## What a chain promises -/

/-- The promise was finished, once. -/
structure Finished (q : Future V E) : Prop where
  finished : q.finished = true
  finishCalls : q.finishCalls = 1

/-- The slot of the watcher of the future `f` did what it is for, with `q` its promise: the handler
ran as often as it should, and the promise is finished, with the failure of `f` if no handler took
it. The slot of `futureUnwrap` leaves its promise to a second watcher if there is an inner
future. -/
def Watcher.Right (T : Types V E) (s : State V E) (w : Watcher) (f q : Future V E) : Prop :=
  match w.slot with
  | .onThen _ =>
      Finished q ∧ (f.HasValue → w.calls = 1) ∧ (¬f.HasValue → w.calls = 0) ∧
        ∀ e, f.Fails T e → q.exception = some e
  | .onFailed _ takes _ =>
      Finished q ∧ w.calls ≤ 1 ∧
        (w.calls = 1 → ∃ e, f.Fails T e ∧ takes (T.kind e) = true) ∧
        (∀ e, f.Fails T e → takes (T.kind e) = true → w.calls = 1) ∧
        ∀ e, f.Fails T e → takes (T.kind e) = false → q.exception = some e
  | .onUnwrap promise =>
      w.calls = 0 ∧ (∀ e, f.Fails T e → Finished q ∧ q.exception = some e) ∧
        (f.HasValue → ∃ v, f.results.head? = some v ∧
          ∃ w' ∈ s.watchers, w'.watched = T.asFuture v ∧ w'.slot = .onInner promise)
  | .onInner _ =>
      w.calls = 0 ∧ Finished q ∧ ∀ e, f.Fails T e → q.exception = some e

/-- The handlers and the promises of all chains, whatever has happened so far: before its slot has
run no handler was called and the promise is untouched, and after it has run it did what it is
for. -/
structure State.Sound (T : Types V E) (s : State V E) : Prop where
  promise : ∀ w ∈ s.watchers, ∃ q, s.futures[w.slot.promise]? = some q
  pending : ∀ w ∈ s.watchers, w.delivered = false → w.calls = 0
  untouched : ∀ w ∈ s.watchers, w.delivered = false →
    ∀ q, s.futures[w.slot.promise]? = some q → q.Fresh
  delivered : ∀ w ∈ s.watchers, w.delivered = true → ∀ q, s.futures[w.slot.promise]? = some q →
    ∃ f, s.futures[w.watched]? = some f ∧ f.finished = true ∧ w.Right T s f q
  finishes : ∀ f ∈ s.futures, f.finishCalls = f.finished.toNat

/-- The future has ended, if it is somebody else's, or what its chain waits for has. -/
inductive State.Ends (T : Types V E) (s : State V E) : Nat → Prop
  | source {id : Nat} {f : Future V E} (hf : s.futures[id]? = some f)
      (hfinished : f.finished = true) : Ends T s id
  | chain {w : Watcher} (hw : w ∈ s.watchers) (hslot : ∀ p, w.slot ≠ .onUnwrap p)
      (hwatched : Ends T s w.watched) : Ends T s w.slot.promise
  | unwrap {w : Watcher} {p : Nat} (hw : w ∈ s.watchers) (hslot : w.slot = .onUnwrap p)
      (hwatched : Ends T s w.watched)
      (hinner : ∀ f v, s.futures[w.watched]? = some f → f.HasValue → f.results.head? = some v →
        Ends T s (T.asFuture v)) : Ends T s p

/-- Every slot whose future has finished has run. -/
def State.Quiet (s : State V E) : Prop :=
  ∀ w ∈ s.watchers, w.delivered = false → ∀ f, s.futures[w.watched]? = some f → f.finished = false

/-- What the code asks of the future a slot is run for: it is no void future that was cancelled
without an exception, and for `futureOnFailed` its exception derives from `std::exception`. The
future of `futureUnwrap` is not void. -/
def Slot.Clean (T : Types V E) (f : Future V E) : Slot → Prop
  | .onThen _ | .onInner _ => ¬f.CancelledVoid
  | .onFailed _ _ _ => ¬f.CancelledVoid ∧ ∀ e, f.exception = some e → T.kind e ≠ .other
  | .onUnwrap _ => True

def State.Clean (T : Types V E) (s : State V E) : Event V E → Prop
  | .finished i _ => ∀ w f, s.watchers[i]? = some w → s.futures[w.watched]? = some f →
      w.slot.Clean T f
  | _ => True

/-! ## What a slot does -/

section Fresh

variable {q : Future V E} (hq : q.Fresh)
include hq

theorem finished_keep (r : V) : Finished (keep r q) := by
  unfold keep Future.finish
  split <;> exact ⟨rfl, by simp [Future.addResult, hq.canceled, hq.finished, hq.finishCalls]⟩

theorem finished_finish : Finished q.finish :=
  ⟨rfl, congrArg (· + 1) hq.finishCalls⟩

theorem finished_fail (e : E) : Finished (fail e q) :=
  ⟨rfl, by simp [fail, Future.finish, Future.setException, hq.canceled, hq.finished,
    hq.finishCalls]⟩

theorem exception_fail (e : E) : (fail e q).exception = some e := by
  simp [fail, Future.finish, Future.setException, hq.canceled, hq.finished]

theorem finished_invokeFailureHandler (returnsVoid : Bool) (answer : Except E V) :
    Finished (invokeFailureHandler returnsVoid answer q) := by
  unfold invokeFailureHandler
  split
  · split
    · exact finished_finish hq
    · exact finished_keep hq _
  · exact finished_fail hq _

omit hq

theorem isSource_keep (r : V) (q : Future V E) : (keep r q).isSource = q.isSource := by
  unfold keep Future.finish Future.addResult
  split
  · rfl
  · split <;> rfl

theorem isSource_fail (e : E) (q : Future V E) : (fail e q).isSource = q.isSource := by
  unfold fail Future.finish Future.setException
  split <;> rfl

theorem isSource_invokeFailureHandler (returnsVoid : Bool) (answer : Except E V)
    (q : Future V E) : (invokeFailureHandler returnsVoid answer q).isSource = q.isSource := by
  unfold invokeFailureHandler
  split
  · split
    · rfl
    · exact isSource_keep _ q
  · exact isSource_fail _ q

end Fresh

/-- A future has a value exactly if there is a result to hand to a handler, a cancelled void one
apart. -/
theorem hasValue_iff (T : Types V E) {f : Future V E} (hf : ¬f.CancelledVoid) :
    f.HasValue ↔ ∃ r, f.resultOrRethrow T = .ok r := by
  unfold Future.HasValue Future.resultOrRethrow
  cases hexn : f.exception with
  | some e => simp
  | none =>
      cases hvoid : f.isVoid with
      | true =>
          have hcanceled : f.canceled = false := by
            by_contra hcanceled
            exact hf ⟨hvoid, by simpa using hcanceled, hexn⟩
          simp [hcanceled]
      | false => cases hresults : f.results <;> simp

/-- So it fails exactly if there is an exception to rethrow. -/
theorem fails_iff (T : Types V E) {f : Future V E} (hf : ¬f.CancelledVoid) (e : E) :
    f.Fails T e ↔ f.resultOrRethrow T = .error e := by
  have hvalue := hasValue_iff T hf
  unfold Future.Fails
  cases hexn : f.exception with
  | some e' => simp [Future.resultOrRethrow, hexn]
  | none =>
      cases hresult : f.resultOrRethrow T with
      | ok r => simp [hvalue, hresult]
      | error e' =>
          have hcancelled : e' = T.cancelledBeforeCompletion := by
            simp only [Future.resultOrRethrow, hexn] at hresult
            split at hresult
            · cases hresult
            · split at hresult
              · exact (Except.error.inj hresult).symm
              · cases hresult
          simp [hvalue, hresult, hcancelled, eq_comm]

/-- What there is to hand on is the first result, or nothing for a void future. -/
theorem resultOrRethrow_ok {T : Types V E} {f : Future V E} {r : Option V}
    (h : f.resultOrRethrow T = .ok r) :
    f.exception = none ∧ (f.isVoid = true ∧ r = none ∨
      ∃ v, f.isVoid = false ∧ r = some v ∧ f.results.head? = some v) := by
  unfold Future.resultOrRethrow at h
  split at h
  · cases h
  · rename_i hexn
    refine ⟨hexn, ?_⟩
    split at h
    · rename_i hvoid
      exact .inl ⟨hvoid, (Except.ok.inj h).symm⟩
    · rename_i hvoid
      split at h
      · cases h
      · rename_i v rest hresults
        exact .inr ⟨v, Bool.eq_false_iff.mpr hvoid, (Except.ok.inj h).symm, by rw [hresults]; rfl⟩

theorem resolveFailure_eq {T : Types V E} {e : E} (hkind : T.kind e ≠ .other)
    (takes : ExnKind → Bool) (returnsVoid : Bool) (answer : Except E V) :
    resolveFailure T takes returnsVoid e answer =
      if takes (T.kind e) then .settles true (invokeFailureHandler returnsVoid answer)
      else .settles false (fail e) := by
  unfold resolveFailure
  split
  · rename_i h
    exact absurd h hkind
  · rfl

/-- What is known of a slot that was run: it settles its promise and does what it is for, or it is
the one of `futureUnwrap` and there is an inner future. -/
inductive RunSpec (T : Types V E) (s : State V E) (w : Watcher) (f : Future V E) :
    Effect V E → Prop
  | settles {called : Bool} {change : Future V E → Future V E}
      (hsource : ∀ q, (change q).isSource = q.isSource)
      (hfinished : ∀ q, q.Fresh → Finished (change q))
      (hright : ∀ q, q.Fresh →
        Watcher.Right T s { w with delivered := true, calls := called.toNat } f (change q)) :
      RunSpec T s w f (.settles called change)
  | watches {v : V} {p : Nat} (hslot : w.slot = .onUnwrap p)
      (hinner : f.resultOrRethrow T = .ok (some v)) : RunSpec T s w f (.watches (T.asFuture v))

section RunSpec

variable {T : Types V E} {s : State V E} {w : Watcher} {f : Future V E} {answer : Except E V}
  {e : Effect V E}

theorem not_fails_of_ok (hf : ¬f.CancelledVoid) {r : Option V}
    (hresult : f.resultOrRethrow T = .ok r) (e : E) : ¬f.Fails T e := fun he =>
  nomatch ((fails_iff T hf e).mp he).symm.trans hresult

theorem not_hasValue_of_error (hf : ¬f.CancelledVoid) {e : E}
    (hresult : f.resultOrRethrow T = .error e) : ¬f.HasValue := fun h => by
  obtain ⟨r, hr⟩ := (hasValue_iff T hf).mp h
  cases hr.symm.trans hresult

/-- A future that fails does so in one way. -/
theorem eq_of_fails (hf : ¬f.CancelledVoid) {e e' : E} (hresult : f.resultOrRethrow T = .error e)
    (he' : f.Fails T e') : e' = e :=
  Except.error.inj (((fails_iff T hf e').mp he').symm.trans hresult)

/-- Only an exception of the future itself may be one that no `catch` clause takes. -/
theorem known_of_error {e : E} (hresult : f.resultOrRethrow T = .error e)
    (hknown : ∀ e', f.exception = some e' → T.kind e' ≠ .other) : T.kind e ≠ .other := by
  unfold Future.resultOrRethrow at hresult
  split at hresult
  · rename_i e' he'
    exact Except.error.inj hresult ▸ hknown e' he'
  · split at hresult
    · cases hresult
    · split at hresult
      · rw [← Except.error.inj hresult, T.kind_cancelled]
        decide
      · cases hresult

theorem runSpec_onThen {p : Nat} (hslot : w.slot = .onThen p)
    (hrun : Slot.run T f answer (.onThen p) = some e) (hf : ¬f.CancelledVoid) :
    RunSpec T s w f e := by
  simp only [Slot.run] at hrun
  cases hresult : f.resultOrRethrow T with
  | ok r =>
      have hhas : f.HasValue := (hasValue_iff T hf).mpr ⟨r, hresult⟩
      rw [hresult] at hrun
      cases answer with
      | ok v =>
          obtain rfl := Option.some.inj hrun
          refine .settles (isSource_keep v) (fun q hq => finished_keep hq v) fun q hq => ?_
          simp only [Watcher.Right, hslot]
          exact ⟨finished_keep hq v, fun _ => rfl, fun hnot => absurd hhas hnot,
            fun e he => absurd he (not_fails_of_ok hf hresult e)⟩
      | error e =>
          obtain rfl := Option.some.inj hrun
          refine .settles (isSource_fail e) (fun q hq => finished_fail hq e) fun q hq => ?_
          simp only [Watcher.Right, hslot]
          exact ⟨finished_fail hq e, fun _ => rfl, fun hnot => absurd hhas hnot,
            fun e he => absurd he (not_fails_of_ok hf hresult e)⟩
  | error e =>
      rw [hresult] at hrun
      obtain rfl := Option.some.inj hrun
      refine .settles (isSource_fail e) (fun q hq => finished_fail hq e) fun q hq => ?_
      simp only [Watcher.Right, hslot]
      refine ⟨finished_fail hq e, fun h => absurd h (not_hasValue_of_error hf hresult),
        fun _ => rfl, fun e' he' => ?_⟩
      rw [exception_fail hq, eq_of_fails hf hresult he']

theorem runSpec_onFailed {p : Nat} {takes : ExnKind → Bool} {returnsVoid : Bool}
    (hslot : w.slot = .onFailed p takes returnsVoid)
    (hrun : Slot.run T f answer (.onFailed p takes returnsVoid) = some e)
    (hf : ¬f.CancelledVoid) (hknown : ∀ e', f.exception = some e' → T.kind e' ≠ .other) :
    RunSpec T s w f e := by
  simp only [Slot.run] at hrun
  cases hresult : f.resultOrRethrow T with
  | ok r =>
      have hnone := not_fails_of_ok hf hresult
      rw [hresult] at hrun
      cases r with
      | none =>
          obtain rfl := Option.some.inj hrun
          refine .settles (fun _ => rfl) (fun q hq => finished_finish hq) fun q hq => ?_
          simp only [Watcher.Right, hslot]
          exact ⟨finished_finish hq, Nat.zero_le 1, nofun, fun e he => absurd he (hnone e),
            fun e he => absurd he (hnone e)⟩
      | some v =>
          obtain rfl := Option.some.inj hrun
          refine .settles (isSource_keep v) (fun q hq => finished_keep hq v) fun q hq => ?_
          simp only [Watcher.Right, hslot]
          exact ⟨finished_keep hq v, Nat.zero_le 1, nofun, fun e he => absurd he (hnone e),
            fun e he => absurd he (hnone e)⟩
  | error e =>
      rw [hresult] at hrun
      obtain rfl := Option.some.inj hrun
      -- only one of the three `catch` clauses is entered
      rw [resolveFailure_eq (known_of_error hresult hknown)]
      cases htakes : takes (T.kind e) with
      | true =>
          rw [if_pos rfl]
          refine .settles (isSource_invokeFailureHandler returnsVoid answer)
            (fun q hq => finished_invokeFailureHandler hq _ _) fun q hq => ?_
          simp only [Watcher.Right, hslot]
          refine ⟨finished_invokeFailureHandler hq _ _, Nat.le_refl 1,
            fun _ => ⟨e, (fails_iff T hf e).mpr hresult, htakes⟩, fun _ _ _ => rfl,
            fun e' he' hnot => ?_⟩
          rw [eq_of_fails hf hresult he', htakes] at hnot
          cases hnot
      | false =>
          rw [if_neg Bool.false_ne_true]
          refine .settles (isSource_fail e) (fun q hq => finished_fail hq e) fun q hq => ?_
          simp only [Watcher.Right, hslot]
          refine ⟨finished_fail hq e, Nat.zero_le 1, nofun, fun e' he' hyes => ?_,
            fun e' he' _ => ?_⟩
          · rw [eq_of_fails hf hresult he', htakes] at hyes
            cases hyes
          · rw [exception_fail hq, eq_of_fails hf hresult he']

theorem runSpec_onUnwrap {p : Nat} (hslot : w.slot = .onUnwrap p)
    (hrun : Slot.run T f answer (.onUnwrap p) = some e) : RunSpec T s w f e := by
  simp only [Slot.run] at hrun
  cases hresult : f.resultOrRethrow T with
  | ok r =>
      rw [hresult] at hrun
      cases r with
      | none => cases hrun
      | some v =>
          obtain rfl := Option.some.inj hrun
          exact .watches hslot hresult
  | error e =>
      -- a void future would not have been rethrown
      have hvoid : ¬f.CancelledVoid := fun h => by
        simp [Future.resultOrRethrow, h.exception, h.isVoid] at hresult
      rw [hresult] at hrun
      obtain rfl := Option.some.inj hrun
      refine .settles (isSource_fail e) (fun q hq => finished_fail hq e) fun q hq => ?_
      simp only [Watcher.Right, hslot]
      refine ⟨rfl, fun e' he' => ⟨finished_fail hq e, ?_⟩,
        fun h => absurd h (not_hasValue_of_error hvoid hresult)⟩
      rw [exception_fail hq, eq_of_fails hvoid hresult he']

theorem runSpec_onInner {p : Nat} (hslot : w.slot = .onInner p)
    (hrun : Slot.run T f answer (.onInner p) = some e) (hf : ¬f.CancelledVoid) :
    RunSpec T s w f e := by
  simp only [Slot.run] at hrun
  cases hresult : f.resultOrRethrow T with
  | ok r =>
      have hnone := not_fails_of_ok hf hresult
      rw [hresult] at hrun
      cases r with
      | none =>
          obtain rfl := Option.some.inj hrun
          refine .settles (fun _ => rfl) (fun q hq => finished_finish hq) fun q hq => ?_
          simp only [Watcher.Right, hslot]
          exact ⟨rfl, finished_finish hq, fun e he => absurd he (hnone e)⟩
      | some v =>
          obtain rfl := Option.some.inj hrun
          refine .settles (isSource_keep v) (fun q hq => finished_keep hq v) fun q hq => ?_
          simp only [Watcher.Right, hslot]
          exact ⟨rfl, finished_keep hq v, fun e he => absurd he (hnone e)⟩
  | error e =>
      rw [hresult] at hrun
      obtain rfl := Option.some.inj hrun
      refine .settles (isSource_fail e) (fun q hq => finished_fail hq e) fun q hq => ?_
      simp only [Watcher.Right, hslot]
      refine ⟨rfl, finished_fail hq e, fun e' he' => ?_⟩
      rw [exception_fail hq, eq_of_fails hf hresult he']

theorem runSpec_of_run (hrun : w.slot.run T f answer = some e) (hclean : w.slot.Clean T f) :
    RunSpec T s w f e := by
  cases hslot : w.slot with
  | onThen p =>
      rw [hslot] at hrun hclean
      exact runSpec_onThen hslot hrun hclean
  | onFailed p takes returnsVoid =>
      rw [hslot] at hrun hclean
      exact runSpec_onFailed hslot hrun hclean.1 hclean.2
  | onUnwrap p =>
      rw [hslot] at hrun
      exact runSpec_onUnwrap hslot hrun
  | onInner p =>
      rw [hslot] at hrun hclean
      exact runSpec_onInner hslot hrun hclean

end RunSpec

/-- Where every slot has run that could, every chain whose futures have ended is finished. -/
theorem State.Sound.finished_of_ends {T : Types V E} {s : State V E} (h : s.Sound T)
    (hquiet : s.Quiet) {id : Nat} (hends : s.Ends T id) :
    ∃ f, s.futures[id]? = some f ∧ Finished f := by
  -- a watcher whose future has finished has been delivered
  have hrun : ∀ w ∈ s.watchers, (∃ f, s.futures[w.watched]? = some f ∧ Finished f) →
      w.delivered = true := by
    rintro w hw ⟨f, hf, hfinished⟩
    by_contra hnot
    have := hquiet w hw (Bool.eq_false_iff.mpr hnot) f hf
    simp [hfinished.finished] at this
  induction hends with
  | source hf hfinished =>
      exact ⟨_, hf, hfinished, by
        rw [h.finishes _ (List.mem_of_getElem? hf), hfinished, Bool.toNat_true]⟩
  | @chain w hw hslot _ ih =>
      obtain ⟨q, hq⟩ := h.promise w hw
      obtain ⟨f, hf, -, hright⟩ := h.delivered w hw (hrun w hw ih) q hq
      refine ⟨q, hq, ?_⟩
      unfold Watcher.Right at hright
      split at hright
      · exact hright.1
      · exact hright.1
      · rename_i p hp
        exact absurd hp (hslot p)
      · exact hright.2.1
  | @unwrap w p hw hslot _ _ ih ihinner =>
      obtain ⟨q, hq⟩ := h.promise w hw
      obtain ⟨f, hf, -, hright⟩ := h.delivered w hw (hrun w hw ih) q hq
      have hp : w.slot.promise = p := by rw [hslot]; rfl
      rw [hp] at hq
      simp only [Watcher.Right, hslot] at hright
      by_cases hvalue : f.HasValue
      · obtain ⟨v, hv, w', hw', hwatched, hslot'⟩ := hright.2.2 hvalue
        have hdelivered := hrun w' hw' (hwatched ▸ ihinner f v hf hvalue hv)
        have hq' : s.futures[w'.slot.promise]? = some q := by rw [hslot']; exact hq
        obtain ⟨f', -, -, hright'⟩ := h.delivered w' hw' hdelivered q hq'
        simp only [Watcher.Right, hslot'] at hright'
        exact ⟨q, hq, hright'.2.1⟩
      · cases hexn : f.exception with
        | some e => exact ⟨q, hq, (hright.2.1 e (.inl hexn)).1⟩
        | none => exact ⟨q, hq, (hright.2.1 _ (.inr ⟨hexn, hvalue, rfl⟩)).1⟩

/-! ## Every run -/

namespace State

variable {T : Types V E} {s s' : State V E}

/-- What a run keeps: a promise is settled by one slot, and by nobody else. -/
structure Inv (T : Types V E) (s : State V E) : Prop where
  sound : s.Sound T
  own : ∀ w ∈ s.watchers, ∀ q, s.futures[w.slot.promise]? = some q → q.isSource = false
  distinct : ∀ (i j : Nat) (w w' : Watcher), s.watchers[i]? = some w → s.watchers[j]? = some w' →
    w.delivered = false → w'.delivered = false → w.slot.promise = w'.slot.promise → i = j

theorem inv_start : Inv T ({} : State V E) :=
  ⟨⟨nofun, nofun, nofun, nofun, nofun⟩, nofun, nofun⟩

/-- A slot that did what it is for is not called into question by further watchers. -/
theorem right_mono {w : Watcher} {f q : Future V E} (h : w.Right T s f q)
    (hw : ∀ x ∈ s.watchers, ∃ x' ∈ s'.watchers, x'.watched = x.watched ∧ x'.slot = x.slot) :
    w.Right T s' f q := by
  obtain ⟨id, slot, delivered, calls⟩ := w
  cases slot with
  | onUnwrap p =>
      refine ⟨h.1, h.2.1, fun hvalue => ?_⟩
      obtain ⟨v, hv, x, hx, hwatched, hslot⟩ := h.2.2 hvalue
      obtain ⟨x', hx', hwatched', hslot'⟩ := hw x hx
      exact ⟨v, hv, x', hx', hwatched'.trans hwatched, hslot'.trans hslot⟩
  | onThen p => exact h
  | onFailed p takes returnsVoid => exact h
  | onInner p => exact h

/-- A slot that left its promise untouched left it to another one. -/
theorem right_of_fresh {w : Watcher} {f q : Future V E} (h : w.Right T s f q) (hq : q.Fresh)
    (q' : Future V E) : w.Right T s f q' := by
  have hnot : ¬Finished q := fun hf => nomatch hf.finished.symm.trans hq.finished
  obtain ⟨id, slot, delivered, calls⟩ := w
  cases slot with
  | onUnwrap p => exact ⟨h.1, fun e he => absurd (h.2.1 e he).1 hnot, h.2.2⟩
  | onThen p => exact absurd h.1 hnot
  | onFailed p takes returnsVoid => exact absurd h.1 hnot
  | onInner p => exact absurd h.2.1 hnot

theorem getElem?_append_old {g : Future V E} {id : Nat} {q : Future V E}
    (h : s.futures[id]? = some q) : (s.futures ++ [g])[id]? = some q :=
  (List.getElem?_append_left (List.getElem?_eq_some_iff.mp h).1).trans h

theorem finishes_settle {f : Future V E} (hcalls : f.finishCalls = 0)
    (ending : Future.Ending V E) :
    (f.settle ending).finishCalls = (f.settle ending).finished.toNat := by
  cases ending with
  | value v =>
      simp only [Future.settle, Future.finish, Future.addResult]
      split
      · simp [hcalls]
      · split <;> simp [hcalls]
  | exception e =>
      simp only [Future.settle, Future.finish, Future.setException]
      split <;> simp [hcalls]
  | cancelled => simp [Future.settle, Future.finish, Future.cancel, hcalls]

/-- A new promise, and at most one new watcher that is to settle it. -/
theorem Inv.append (h : s.Inv T) {g : Future V E} (hg : g.Fresh) {ws : List Watcher}
    (hlength : ws.length ≤ 1)
    (hws : ∀ w ∈ ws, w.slot.promise = s.futures.length ∧ w.delivered = false ∧ w.calls = 0 ∧
      g.isSource = false) :
    Inv T { futures := s.futures ++ [g], watchers := s.watchers ++ ws } := by
  have hold : ∀ w ∈ s.watchers, ∀ q, (s.futures ++ [g])[w.slot.promise]? = some q →
      s.futures[w.slot.promise]? = some q := fun w hw q hq => by
    obtain ⟨q', hq'⟩ := h.sound.promise w hw
    exact hq'.trans ((getElem?_append_old hq').symm.trans hq)
  have hnew : ∀ w ∈ ws, ∀ q, (s.futures ++ [g])[w.slot.promise]? = some q → q = g := by
    intro w hw q hq
    rw [(hws w hw).1, List.getElem?_append_right (Nat.le_refl _), Nat.sub_self] at hq
    exact (Option.some.inj hq).symm
  refine ⟨⟨fun w hw => ?_, fun w hw hund => ?_, fun w hw hund q hq => ?_, fun w hw hdel q hq => ?_,
    fun f hf => ?_⟩, fun w hw q hq => ?_, fun i j w w' hi hj hund hund' hp => ?_⟩
  · rcases List.mem_append.mp hw with hw | hw
    · obtain ⟨q, hq⟩ := h.sound.promise w hw
      exact ⟨q, getElem?_append_old hq⟩
    · exact ⟨g, by rw [(hws w hw).1]; simp⟩
  · rcases List.mem_append.mp hw with hw | hw
    · exact h.sound.pending w hw hund
    · exact (hws w hw).2.2.1
  · rcases List.mem_append.mp hw with hw | hw
    · exact h.sound.untouched w hw hund q (hold w hw q hq)
    · rw [hnew w hw q hq]
      exact hg
  · rcases List.mem_append.mp hw with hw | hw
    · obtain ⟨f, hf, hfinished, hright⟩ := h.sound.delivered w hw hdel q (hold w hw q hq)
      exact ⟨f, getElem?_append_old hf, hfinished, right_mono hright fun x hx =>
        ⟨x, List.mem_append_left _ hx, rfl, rfl⟩⟩
    · rw [(hws w hw).2.1] at hdel
      cases hdel
  · rcases List.mem_append.mp hf with hf | hf
    · exact h.sound.finishes f hf
    · rw [List.mem_singleton.mp hf, hg.finishCalls, hg.finished]
      rfl
  · rcases List.mem_append.mp hw with hw | hw
    · exact h.own w hw q (hold w hw q hq)
    · rw [hnew w hw q hq]
      exact (hws w hw).2.2.2
  · -- an old promise is older than the new one
    have hlt : ∀ (k : Nat) (x : Watcher), s.watchers[k]? = some x →
        x.slot.promise < s.futures.length :=
      fun k x hk => by
        obtain ⟨q, hq⟩ := h.sound.promise x (List.mem_of_getElem? hk)
        exact (List.getElem?_eq_some_iff.mp hq).1
    have hsplit : ∀ (k : Nat) (x : Watcher), (s.watchers ++ ws)[k]? = some x →
        s.watchers[k]? = some x ∨ k = s.watchers.length ∧ x ∈ ws := by
      intro k x hk
      by_cases hlt : k < s.watchers.length
      · exact .inl ((List.getElem?_append_left hlt).symm.trans hk)
      · rw [List.getElem?_append_right (Nat.not_lt.mp hlt)] at hk
        have := (List.getElem?_eq_some_iff.mp hk).1
        exact .inr ⟨by omega, List.mem_of_getElem? hk⟩
    rcases hsplit i w hi with hi | ⟨hi, hmem⟩ <;> rcases hsplit j w' hj with hj | ⟨hj, hmem'⟩
    · exact h.distinct i j w w' hi hj hund hund' hp
    · have := hlt i w hi
      rw [hp, (hws w' hmem').1] at this
      exact absurd this (Nat.lt_irrefl _)
    · have := hlt j w' hj
      rw [← hp, (hws w hmem).1] at this
      exact absurd this (Nat.lt_irrefl _)
    · exact hi.trans hj.symm

theorem Inv.settle (h : s.Inv T) {id : Nat} {f : Future V E} (hf : s.futures[id]? = some f)
    (hsource : f.isSource = true) (hfinished : f.finished = false) (ending : Future.Ending V E) :
    Inv T { s with futures := s.futures.set id (f.settle ending) } := by
  -- what has finished, and every promise of a slot, is another future
  have hsame : ∀ (k : Nat) (g : Future V E), s.futures[k]? = some g →
      g.finished = true ∨ g.isSource = false →
        (s.futures.set id (f.settle ending))[k]? = some g := by
    intro k g hg hother
    have hne : id ≠ k := by
      rintro rfl
      obtain rfl := Option.some.inj (hf.symm.trans hg)
      rcases hother with h | h
      · exact absurd (hfinished.symm.trans h) (by decide)
      · exact absurd (hsource.symm.trans h) (by decide)
    rw [List.getElem?_set_ne hne, hg]
  have hpromise : ∀ w ∈ s.watchers, ∀ q,
      (s.futures.set id (f.settle ending))[w.slot.promise]? = some q →
        s.futures[w.slot.promise]? = some q := fun w hw q hq => by
    obtain ⟨q', hq'⟩ := h.sound.promise w hw
    exact hq'.trans ((hsame _ q' hq' (.inr (h.own w hw q' hq'))).symm.trans hq)
  refine ⟨⟨fun w hw => ?_, h.sound.pending, fun w hw hund q hq => ?_, fun w hw hdel q hq => ?_,
    fun g hg => ?_⟩, fun w hw q hq => h.own w hw q (hpromise w hw q hq), h.distinct⟩
  · obtain ⟨q, hq⟩ := h.sound.promise w hw
    exact ⟨q, hsame _ q hq (.inr (h.own w hw q hq))⟩
  · exact h.sound.untouched w hw hund q (hpromise w hw q hq)
  · obtain ⟨g, hg, hgfinished, hright⟩ := h.sound.delivered w hw hdel q (hpromise w hw q hq)
    exact ⟨g, hsame _ g hg (.inl hgfinished), hgfinished, right_mono hright fun x hx =>
      ⟨x, hx, rfl, rfl⟩⟩
  · rcases List.mem_or_eq_of_mem_set hg with hg | rfl
    · exact h.sound.finishes g hg
    · have hcalls : f.finishCalls = 0 := by
        rw [h.sound.finishes f (List.mem_of_getElem? hf), hfinished]
        rfl
      exact finishes_settle hcalls ending

/-- A watcher in a list where one was replaced is that one, or an old one at another index. -/
theorem mem_set_cases {ws : List Watcher} {i : Nat} {w x : Watcher} {k : Nat}
    (hk : (ws.set i w)[k]? = some x) : x = w ∨ k ≠ i ∧ ws[k]? = some x := by
  by_cases h : i = k
  · subst h
    rw [List.getElem?_set] at hk
    split at hk
    · split at hk
      · exact .inl (Option.some.inj hk).symm
      · cases hk
    · rename_i hne
      exact absurd rfl hne
  · rw [List.getElem?_set_ne h] at hk
    exact .inr ⟨Ne.symm h, hk⟩

theorem set_kept {ws : List Watcher} {i : Nat} {w w' : Watcher} (hw : ws[i]? = some w)
    (hwatched : w'.watched = w.watched) (hslot : w'.slot = w.slot) :
    ∀ x ∈ ws, ∃ x' ∈ ws.set i w', x'.watched = x.watched ∧ x'.slot = x.slot := by
  intro x hx
  obtain ⟨k, hk⟩ := List.mem_iff_getElem?.mp hx
  have hlt := (List.getElem?_eq_some_iff.mp hk).1
  by_cases h : i = k
  · subst h
    obtain rfl := Option.some.inj (hw.symm.trans hk)
    exact ⟨w', List.mem_of_getElem? (List.getElem?_set_self hlt), hwatched, hslot⟩
  · exact ⟨x, List.mem_of_getElem? ((List.getElem?_set_ne h).trans hk), rfl, rfl⟩

/-- The slot settles its promise. -/
theorem Inv.settles (h : s.Inv T) {i : Nat} {w w' : Watcher} {f q : Future V E}
    (hw : s.watchers[i]? = some w) (hund : w.delivered = false)
    (hf : s.futures[w.watched]? = some f) (hfinished : f.finished = true)
    (hq : s.futures[w.slot.promise]? = some q) {change : Future V E → Future V E}
    (hsource : (change q).isSource = q.isSource) (hchange : Finished (change q))
    (hwatched : w'.watched = w.watched) (hslot : w'.slot = w.slot) (hdel : w'.delivered = true)
    (hright : w'.Right T s f (change q)) :
    Inv T { futures := s.futures.modify w.slot.promise change, watchers := s.watchers.set i w' } := by
  have hmem := List.mem_of_getElem? hw
  have hfresh := h.sound.untouched w hmem hund q hq
  have hself : (s.futures.modify w.slot.promise change)[w.slot.promise]? = some (change q) := by
    rw [List.getElem?_modify, hq]
    simp
  have hother : ∀ k, k ≠ w.slot.promise →
      (s.futures.modify w.slot.promise change)[k]? = s.futures[k]? := fun k hk => by
    rw [List.getElem?_modify]
    simp [Ne.symm hk]
  -- a finished future is not the promise, which was not finished
  have hdone : ∀ (k : Nat) (g : Future V E), s.futures[k]? = some g → g.finished = true →
      (s.futures.modify w.slot.promise change)[k]? = some g := by
    intro k g hg hgf
    rw [hother k, hg]
    rintro rfl
    obtain rfl := Option.some.inj (hq.symm.trans hg)
    exact absurd (hfresh.finished.symm.trans hgf) (by decide)
  have hkept := set_kept hw hwatched hslot
  have hcases : ∀ x ∈ s.watchers.set i w', x = w' ∨ ∃ k, k ≠ i ∧ s.watchers[k]? = some x :=
    fun x hx => by
      obtain ⟨k, hk⟩ := List.mem_iff_getElem?.mp hx
      exact (mem_set_cases hk).imp_right fun ⟨hne, hk⟩ => ⟨k, hne, hk⟩
  refine ⟨⟨fun x hx => ?_, fun x hx hxund => ?_, fun x hx hxund r hr => ?_,
    fun x hx hxdel r hr => ?_, fun g hg => ?_⟩, fun x hx r hr => ?_,
    fun j k x y hj hk hxund hyund hp => ?_⟩
  · have hpromise : ∃ r, s.futures[x.slot.promise]? = some r := by
      rcases hcases x hx with rfl | ⟨k, -, hk⟩
      · exact ⟨q, hslot ▸ hq⟩
      · exact h.sound.promise x (List.mem_of_getElem? hk)
    obtain ⟨r, hr⟩ := hpromise
    by_cases hp : x.slot.promise = w.slot.promise
    · exact ⟨change q, hp ▸ hself⟩
    · exact ⟨r, (hother _ hp).trans hr⟩
  · rcases hcases x hx with rfl | ⟨k, -, hk⟩
    · exact absurd (hdel.symm.trans hxund) (by decide)
    · exact h.sound.pending x (List.mem_of_getElem? hk) hxund
  · rcases hcases x hx with rfl | ⟨k, hne, hk⟩
    · exact absurd (hdel.symm.trans hxund) (by decide)
    · have hp : x.slot.promise ≠ w.slot.promise := fun hp =>
        hne (h.distinct k i x w hk hw hxund hund hp)
      exact h.sound.untouched x (List.mem_of_getElem? hk) hxund r ((hother _ hp).symm.trans hr)
  · rcases hcases x hx with rfl | ⟨k, -, hk⟩
    · have hr' : r = change q := by
        rw [show x.slot.promise = w.slot.promise by rw [hslot], hself] at hr
        exact (Option.some.inj hr).symm
      refine ⟨f, hdone _ f (hwatched ▸ hf) hfinished, hfinished, ?_⟩
      rw [hr']
      exact right_mono hright hkept
    · have hxmem := List.mem_of_getElem? hk
      by_cases hp : x.slot.promise = w.slot.promise
      · obtain ⟨g, hg, hgf, hgright⟩ := h.sound.delivered x hxmem hxdel q (hp ▸ hq)
        exact ⟨g, hdone _ g hg hgf, hgf, right_mono (right_of_fresh hgright hfresh r) hkept⟩
      · obtain ⟨g, hg, hgf, hgright⟩ :=
          h.sound.delivered x hxmem hxdel r ((hother _ hp).symm.trans hr)
        exact ⟨g, hdone _ g hg hgf, hgf, right_mono hgright hkept⟩
  · obtain ⟨k, hk⟩ := List.mem_iff_getElem?.mp hg
    by_cases hp : k = w.slot.promise
    · rw [hp, hself] at hk
      rw [← Option.some.inj hk, hchange.finishCalls, hchange.finished]
      rfl
    · exact h.sound.finishes g (List.mem_of_getElem? ((hother k hp).symm.trans hk))
  · have hxown : ∀ r, s.futures[x.slot.promise]? = some r → r.isSource = false := by
      rcases hcases x hx with rfl | ⟨k, -, hk⟩
      · exact fun r hr => h.own w hmem r (hslot ▸ hr)
      · exact h.own x (List.mem_of_getElem? hk)
    by_cases hp : x.slot.promise = w.slot.promise
    · rw [hp, hself] at hr
      rw [← Option.some.inj hr, hsource]
      exact h.own w hmem q hq
    · exact hxown r ((hother _ hp).symm.trans hr)
  · rcases mem_set_cases hj with rfl | ⟨-, hj⟩
    · exact absurd (hdel.symm.trans hxund) (by decide)
    · rcases mem_set_cases hk with rfl | ⟨-, hk⟩
      · exact absurd (hdel.symm.trans hyund) (by decide)
      · exact h.distinct j k x y hj hk hxund hyund hp

/-- The slot of `futureUnwrap` leaves its promise to a second watcher. -/
theorem Inv.watches (h : s.Inv T) {i : Nat} {w : Watcher} {f : Future V E} {v : V} {p : Nat}
    (hw : s.watchers[i]? = some w) (hund : w.delivered = false)
    (hf : s.futures[w.watched]? = some f) (hfinished : f.finished = true)
    (hslot : w.slot = .onUnwrap p) (hinner : f.resultOrRethrow T = .ok (some v)) :
    Inv T { s with
      watchers := s.watchers.set i { w with delivered := true } ++
        [{ watched := T.asFuture v, slot := .onInner w.slot.promise }] } := by
  have hmem := List.mem_of_getElem? hw
  have hkept : ∀ x ∈ s.watchers, ∃ x' ∈ s.watchers.set i { w with delivered := true } ++
      [{ watched := T.asFuture v, slot := .onInner w.slot.promise }],
      x'.watched = x.watched ∧ x'.slot = x.slot := fun x hx => by
    have hset := @set_kept s.watchers i w { w with delivered := true } hw rfl rfl
    obtain ⟨x', hx', hsame⟩ := hset x hx
    exact ⟨x', List.mem_append_left _ hx', hsame⟩
  have hcases : ∀ x ∈ s.watchers.set i { w with delivered := true } ++
      [{ watched := T.asFuture v, slot := .onInner w.slot.promise }],
      x = { w with delivered := true } ∨ (∃ k, k ≠ i ∧ s.watchers[k]? = some x) ∨
        x = { watched := T.asFuture v, slot := .onInner w.slot.promise } := fun x hx => by
    rcases List.mem_append.mp hx with hx | hx
    · obtain ⟨k, hk⟩ := List.mem_iff_getElem?.mp hx
      exact (mem_set_cases hk).imp_right fun h => .inl ⟨k, h⟩
    · exact .inr (.inr (List.mem_singleton.mp hx))
  refine ⟨⟨fun x hx => ?_, fun x hx hxund => ?_, fun x hx hxund r hr => ?_,
    fun x hx hxdel r hr => ?_, h.sound.finishes⟩, fun x hx r hr => ?_,
    fun j k x y hj hk hxund hyund hp => ?_⟩
  · rcases hcases x hx with rfl | ⟨k, -, hk⟩ | rfl
    · exact h.sound.promise w hmem
    · exact h.sound.promise x (List.mem_of_getElem? hk)
    · exact h.sound.promise w hmem
  · rcases hcases x hx with rfl | ⟨k, -, hk⟩ | rfl
    · cases hxund
    · exact h.sound.pending x (List.mem_of_getElem? hk) hxund
    · rfl
  · rcases hcases x hx with rfl | ⟨k, -, hk⟩ | rfl
    · cases hxund
    · exact h.sound.untouched x (List.mem_of_getElem? hk) hxund r hr
    · exact h.sound.untouched w hmem hund r hr
  · rcases hcases x hx with rfl | ⟨k, -, hk⟩ | rfl
    · refine ⟨f, hf, hfinished, ?_⟩
      simp only [Watcher.Right, hslot]
      obtain ⟨hexn, ⟨-, hnone⟩ | ⟨v', hvoid, hv, hhead⟩⟩ := resultOrRethrow_ok hinner
      · cases hnone
      obtain rfl := Option.some.inj hv
      have hnot : ¬f.CancelledVoid := fun h => nomatch h.isVoid.symm.trans hvoid
      refine ⟨h.sound.pending w hmem hund, fun e he => ?_, fun _ => ?_⟩
      · exact absurd he (not_fails_of_ok hnot hinner e)
      · exact ⟨v, hhead, _, List.mem_append_right _ (List.mem_singleton_self _), rfl, rfl⟩
    · obtain ⟨g, hg, hgf, hright⟩ :=
        h.sound.delivered x (List.mem_of_getElem? hk) hxdel r hr
      exact ⟨g, hg, hgf, right_mono hright hkept⟩
    · cases hxdel
  · rcases hcases x hx with rfl | ⟨k, -, hk⟩ | rfl
    · exact h.own w hmem r hr
    · exact h.own x (List.mem_of_getElem? hk) r hr
    · exact h.own w hmem r hr
  · -- the second watcher has the promise the first one had
    have hsplit : ∀ (k : Nat) (x : Watcher), (s.watchers.set i { w with delivered := true } ++
        [{ watched := T.asFuture v, slot := .onInner w.slot.promise }])[k]? = some x →
        x.delivered = false → k ≠ i ∧ s.watchers[k]? = some x ∨
          k = s.watchers.length ∧ x.slot.promise = w.slot.promise := by
      intro k x hk hxund
      by_cases hlt : k < s.watchers.length
      · rw [List.getElem?_append_left (by rwa [List.length_set])] at hk
        rcases mem_set_cases hk with rfl | hold
        · cases hxund
        · exact .inl hold
      · rw [List.getElem?_append_right (by rw [List.length_set]; exact Nat.not_lt.mp hlt),
          List.length_set] at hk
        have hlast := (List.getElem?_eq_some_iff.mp hk).1
        rw [List.length_singleton] at hlast
        have hx := List.mem_singleton.mp (List.mem_of_getElem? hk)
        exact .inr ⟨by omega, by rw [hx]; rfl⟩
    rcases hsplit j x hj hxund with ⟨hne, hj⟩ | ⟨hj, hxp⟩ <;>
      rcases hsplit k y hk hyund with ⟨hne', hk⟩ | ⟨hk, hyp⟩
    · exact h.distinct j k x y hj hk hxund hyund hp
    · exact absurd (h.distinct j i x w hj hw hxund hund (hp.trans hyp)) hne
    · exact absurd (h.distinct k i y w hk hw hyund hund (hp.symm.trans hxp)) hne'
    · exact hj.trans hk.symm

/-- The slot of a watcher runs. -/
theorem Inv.effect (h : s.Inv T) {i : Nat} {w : Watcher} {f : Future V E}
    (hw : s.watchers[i]? = some w) (hund : w.delivered = false)
    (hf : s.futures[w.watched]? = some f) (hfinished : f.finished = true) {e : Effect V E}
    (hspec : RunSpec T s w f e) : Inv T (s.effect i w e) := by
  obtain ⟨q, hq⟩ := h.sound.promise w (List.mem_of_getElem? hw)
  have hfresh := h.sound.untouched w (List.mem_of_getElem? hw) hund q hq
  cases hspec with
  | @settles called change hsource hchange hright =>
      have hcalls : w.calls = 0 := h.sound.pending w (List.mem_of_getElem? hw) hund
      have heffect : s.effect i w (.settles called change) =
          { futures := s.futures.modify w.slot.promise change
            watchers := s.watchers.set i { w with delivered := true, calls := called.toNat } } := by
        rw [State.effect, hcalls, Nat.zero_add]
      rw [heffect]
      exact h.settles hw hund hf hfinished hq (hsource q) (hchange q hfresh) rfl rfl rfl
        (hright q hfresh)
  | watches hslot hinner => exact h.watches hw hund hf hfinished hslot hinner

theorem of_guard {p : Prop} [Decidable p] {u : Unit} (h : guard p = some u) : p := by
  by_contra hp
  simp [guard, hp] at h

theorem Inv.step (h : s.Inv T) {event : Event V E} (hclean : s.Clean T event)
    (hstep : s.step T event = some s') : s'.Inv T := by
  cases event with
  | promise isVoid =>
      obtain rfl := Option.some.inj hstep
      have happend : Inv T { futures := s.futures ++ [{ isVoid, isSource := true }]
                             watchers := s.watchers ++ [] } :=
        h.append ⟨rfl, rfl, rfl, rfl, rfl⟩ (Nat.zero_le 1) nofun
      rwa [List.append_nil] at happend
  | settle id ending =>
      simp only [State.step, Option.bind_eq_bind, Option.bind_eq_some_iff] at hstep
      obtain ⟨f, hf, _, hguard, hsome⟩ := hstep
      obtain rfl := Option.some.inj hsome
      have hopen := of_guard hguard
      simp only [Bool.and_eq_true, Bool.not_eq_true'] at hopen
      exact h.settle hf hopen.1 hopen.2 ending
  | futureThen id resultIsVoid =>
      simp only [State.step, Option.bind_eq_bind, Option.bind_eq_some_iff] at hstep
      obtain ⟨f, hf, hsome⟩ := hstep
      obtain rfl := Option.some.inj hsome
      exact h.append ⟨rfl, rfl, rfl, rfl, rfl⟩ (Nat.le_refl 1) fun w hw => by
        rw [List.mem_singleton.mp hw]
        exact ⟨rfl, rfl, rfl, rfl⟩
  | futureOnFailed id takes returnsVoid =>
      simp only [State.step, Option.bind_eq_bind, Option.bind_eq_some_iff] at hstep
      obtain ⟨f, hf, hsome⟩ := hstep
      obtain rfl := Option.some.inj hsome
      exact h.append ⟨rfl, rfl, rfl, rfl, rfl⟩ (Nat.le_refl 1) fun w hw => by
        rw [List.mem_singleton.mp hw]
        exact ⟨rfl, rfl, rfl, rfl⟩
  | futureUnwrap id isVoid =>
      simp only [State.step, Option.bind_eq_bind, Option.bind_eq_some_iff] at hstep
      obtain ⟨f, hf, _, -, hsome⟩ := hstep
      obtain rfl := Option.some.inj hsome
      exact h.append ⟨rfl, rfl, rfl, rfl, rfl⟩ (Nat.le_refl 1) fun w hw => by
        rw [List.mem_singleton.mp hw]
        exact ⟨rfl, rfl, rfl, rfl⟩
  | finished i answer =>
      simp only [State.step, Option.bind_eq_bind, Option.bind_eq_some_iff] at hstep
      obtain ⟨w, hw, f, hf, _, hguard, e, hrun, hsome⟩ := hstep
      obtain rfl := Option.some.inj hsome
      have hready := of_guard hguard
      simp only [Bool.and_eq_true, Bool.not_eq_true'] at hready
      exact h.effect hw hready.1 hf hready.2 (runSpec_of_run hrun (hclean w f hw hf))

/-- A state is reached by steps that are all allowed. -/
inductive Reached (T : Types V E) (allowed : State V E → Event V E → Prop) : State V E → Prop
  | start : Reached T allowed {}
  | step {s s' : State V E} (event : Event V E) (h : Reached T allowed s)
      (hallowed : allowed s event) (hstep : s.step T event = some s') : Reached T allowed s'

/-- **Chaining settles exactly once.** In every state that is reached by clean steps, each slot
that has run did what it is for, no handler was called before, and no promise was finished twice;
and where every slot has run that could, every chain whose futures have ended is finished. -/
theorem chaining (T : Types V E) {s : State V E} (h : Reached T (Clean T) s) :
    s.Sound T ∧
      (s.Quiet → ∀ id, s.Ends T id → ∃ f, s.futures[id]? = some f ∧ Finished f) := by
  have hinv : s.Inv T := by
    induction h with
    | start => exact inv_start
    | step event _ hclean hstep ih => exact ih.step hclean hstep
  exact ⟨hinv.sound, fun hquiet id hends => hinv.sound.finished_of_ends hquiet hends⟩

end State

/-- Numbers as values, and exceptions that are told apart by their text. -/
def plainTypes : Types Nat (ExnKind × String) where
  asFuture := id
  kind := Prod.fst
  cancelledBeforeCompletion := (.httpTransportError, "Request cancelled before completion")
  kind_cancelled := rfl

/-- A value that is handed on through `futureThen` and `futureOnFailed`. -/
def handedOn : State Nat (ExnKind × String) where
  futures := [
    { isVoid := false, results := [7], finished := true, finishCalls := 1, isSource := true },
    { isVoid := false, results := [8], finished := true, finishCalls := 1 },
    { isVoid := false, results := [8], finished := true, finishCalls := 1 }]
  watchers := [
    { watched := 0, slot := .onThen 1, delivered := true, calls := 1 },
    { watched := 1, slot := .onFailed 2 (fun _ => true) false, delivered := true }]

theorem chaining_handedOn : handedOn.Sound plainTypes := by
  have hreached : State.Reached plainTypes (State.Clean plainTypes) handedOn := by
    refine .step (.finished 1 (.ok 9)) (.step (.finished 0 (.ok 8)) (.step
      (.futureOnFailed 1 (fun _ => true) false) (.step (.futureThen 0 false) (.step
      (.settle 0 (.value 7)) (.step (.promise false) .start trivial rfl) trivial rfl) trivial rfl)
      trivial rfl) (fun w f hw hf => ?_) rfl) (fun w f hw hf => ?_) rfl
    · obtain rfl := Option.some.inj hw
      obtain rfl := Option.some.inj hf
      exact fun h => nomatch h.isVoid
    · obtain rfl := Option.some.inj hw
      obtain rfl := Option.some.inj hf
      exact ⟨fun h => (nomatch h.isVoid), fun e he => (nomatch he)⟩
  exact (State.chaining plainTypes hreached).1

/-- The slot of `futureOnFailed` was left by an exception of another type. -/
def unsettled : State Nat (ExnKind × String) where
  futures := [
    { isVoid := false, exception := some (.other, "an int"), canceled := true, finished := true,
      finishCalls := 1, isSource := true },
    { isVoid := false }]
  watchers := [{ watched := 0, slot := .onFailed 1 (fun _ => true) false, delivered := true }]

/-- A void future of somebody else that was cancelled. -/
def cancelledSource : Future Nat (ExnKind × String) where
  isVoid := true
  canceled := true
  finished := true
  finishCalls := 1
  isSource := true

/-- `futureThen` has run its handler. -/
def calledAnyway : State Nat (ExnKind × String) where
  futures := [cancelledSource,
    { isVoid := false, results := [0], finished := true, finishCalls := 1 }]
  watchers := [{ watched := 0, slot := .onThen 1, delivered := true, calls := 1 }]

/-- `futureOnFailed` has passed it on as one that succeeded. -/
def passedOver : State Nat (ExnKind × String) where
  futures := [cancelledSource,
    { isVoid := true, finished := true, finishCalls := 1 }]
  watchers := [{ watched := 0, slot := .onFailed 1 (fun _ => true) true, delivered := true }]

/-- An exception of another type leaves the slot, and the future is never finished, although every
slot has run. Of a void future that was cancelled, `futureThen` calls its handler, and
`futureOnFailed` neither calls its own nor passes the failure on. -/
theorem unsettled_and_called :
    (unsettled.Reached plainTypes (fun _ _ => True) ∧ unsettled.Quiet ∧
      unsettled.Ends plainTypes 1 ∧ ∀ f, unsettled.futures[1]? = some f → f.finished = false) ∧
    (calledAnyway.Reached plainTypes (fun _ _ => True) ∧ ¬calledAnyway.Sound plainTypes) ∧
    passedOver.Reached plainTypes (fun _ _ => True) ∧ ¬passedOver.Sound plainTypes := by
  have hcancelled : ¬cancelledSource.HasValue := fun h => nomatch h.2
  refine ⟨⟨?_, fun w hw hund => ?_, ?_, fun f hf => ?_⟩, ⟨?_, fun h => ?_⟩, ?_, fun h => ?_⟩
  · exact .step (.finished 0 (.ok 0)) (.step (.futureOnFailed 0 (fun _ => true) false) (.step
      (.settle 0 (.exception (.other, "an int"))) (.step (.promise false) .start trivial rfl)
      trivial rfl) trivial rfl) trivial rfl
  · obtain rfl := List.mem_singleton.mp hw
    cases hund
  · have hw : ({ watched := 0, slot := .onFailed 1 (fun _ => true) false, delivered := true } :
        Watcher) ∈ unsettled.watchers := List.mem_singleton_self _
    refine State.Ends.chain hw (fun p hp => ?_) ?_
    · cases hp
    · exact .source (List.getElem?_eq_getElem (Nat.zero_lt_succ 1)) rfl
  · obtain rfl := Option.some.inj hf
    rfl
  · exact .step (.finished 0 (.ok 0)) (.step (.futureThen 0 false) (.step
      (.settle 0 .cancelled) (.step (.promise true) .start trivial rfl) trivial rfl) trivial rfl)
      trivial rfl
  · obtain ⟨f, hf, -, -, -, hzero, -⟩ := h.delivered _ (List.mem_singleton_self _) rfl _ rfl
    obtain rfl := Option.some.inj hf
    exact absurd (hzero hcancelled) (by decide)
  · exact .step (.finished 0 (.ok 0)) (.step (.futureOnFailed 0 (fun _ => true) true) (.step
      (.settle 0 .cancelled) (.step (.promise true) .start trivial rfl) trivial rfl) trivial rfl)
      trivial rfl
  · obtain ⟨f, hf, -, -, -, -, hcalled, -⟩ :=
      h.delivered _ (List.mem_singleton_self _) rfl _ rfl
    obtain rfl := Option.some.inj hf
    exact absurd (hcalled _ (.inr ⟨rfl, hcancelled, rfl⟩) rfl) (by decide)

end LLMQore.FutureUtils
