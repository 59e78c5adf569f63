import Mathlib.Data.List.Basic

/-!
# Transducers over streams

A transducer reads a stream one element at a time and emits a list of outputs at
each. Feeding it a stream in pieces is feeding it the whole.

A component that takes chunks of a stream does not depend on how the stream was cut
if it agrees with a transducer on each chunk, in every state the transducer reaches
along the stream (`appendAll_eq_feed`). Only those states count: what a component
does when the stream breaks a limit need not agree.
-/

namespace Streaming

variable {σ α β : Type}

/-- One step of a transducer: the next state, and what is emitted. -/
abbrev Transducer (σ α β : Type) := σ → α → σ × List β

/-- Prefix the outputs of a result. -/
def emit (bs : List β) (r : σ × List β) : σ × List β := (r.1, bs ++ r.2)

@[simp] theorem emit_nil (r : σ × List β) : emit [] r = r := rfl

@[simp] theorem emit_fst (bs : List β) (r : σ × List β) : (emit bs r).1 = r.1 := rfl

/-- Feed a stream. -/
def feed (T : Transducer σ α β) : σ → List α → σ × List β
  | s, [] => (s, [])
  | s, a :: as => emit (T s a).2 (feed T (T s a).1 as)

@[simp] theorem feed_nil (T : Transducer σ α β) (s : σ) : feed T s [] = (s, []) := rfl

theorem feed_cons (T : Transducer σ α β) (s : σ) (a : α) (as : List α) :
    feed T s (a :: as) = emit (T s a).2 (feed T (T s a).1 as) := rfl

/-- Feeding a stream in two pieces. -/
theorem feed_append (T : Transducer σ α β) (s : σ) (as bs : List α) :
    feed T s (as ++ bs) = emit (feed T s as).2 (feed T (feed T s as).1 bs) := by
  induction as generalizing s with
  | nil => rfl
  | cons a as ih => simp [feed_cons, ih, emit]

/-- Feed chunks to a component that takes them one after the other. -/
def appendAll (append : σ → List α → σ × List β) : σ → List (List α) → σ × List β
  | s, [] => (s, [])
  | s, c :: cs => emit (append s c).2 (appendAll append (append s c).1 cs)

/-- A component that agrees with a transducer along a stream does not depend on how
the stream is cut. -/
theorem appendAll_eq_feed {T : Transducer σ α β} {append : σ → List α → σ × List β} {s : σ}
    {chunks : List (List α)}
    (h : ∀ before chunk after, before ++ chunk ++ after = chunks.flatten →
      append (feed T s before).1 chunk = feed T (feed T s before).1 chunk) :
    appendAll append s chunks = feed T s chunks.flatten := by
  induction chunks generalizing s with
  | nil => rfl
  | cons c cs ih =>
      have hc : append s c = feed T s c := h [] c cs.flatten (by simp)
      have hcs : appendAll append (feed T s c).1 cs = feed T (feed T s c).1 cs.flatten := by
        refine ih fun before chunk after he => ?_
        have hstep := h (c ++ before) chunk after (by simp [← he])
        rw [feed_append] at hstep
        exact hstep
      calc appendAll append s (c :: cs)
          = emit (append s c).2 (appendAll append (append s c).1 cs) := rfl
        _ = emit (feed T s c).2 (feed T (feed T s c).1 cs.flatten) := by rw [hc, hcs]
        _ = feed T s (c :: cs).flatten := (feed_append T s c cs.flatten).symm

end Streaming
