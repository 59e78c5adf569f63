import Mathlib.Data.List.Basic

/-!
# LLMQore.Streaming.Fifo

**Bounded queues.** What is done to a queue is a history, newest first: elements are put
in at the end, the oldest is dropped when there are more than the limit, and the queue is
emptied as a whole, to be passed on (`flush`) or not (`clear`).

`Run limit history q` says that a queue that began empty can hold `q` after `history`.
What was passed on and what is still in the queue is then a subsequence of what was put in
(`Run.sublist`), and every element put in is accounted for once (`Run.accounts`).
-/

namespace Fifo

variable {α : Type}

inductive Op (α : Type) where
  | put (a : α)
  | overflow (a : α)
  | flush (as : List α)
  | clear (as : List α)

/-- The history of a queue, with what it holds. -/
inductive Run (limit : Option Nat) : List (Op α) → List α → Prop
  | nil : Run limit [] []
  | put {h q a} : Run limit h q → Run limit (.put a :: h) (q ++ [a])
  | overflow {h q a n} : Run limit h (a :: q) → limit = some n → n ≤ q.length →
      Run limit (.overflow a :: h) q
  | flush {h q} : Run limit h q → Run limit (.flush q :: h) []
  | clear {h q} : Run limit h q → Run limit (.clear q :: h) []

/-- What was put in, oldest first. -/
def puts : List (Op α) → List α
  | [] => []
  | .put a :: h => puts h ++ [a]
  | _ :: h => puts h

/-- What was passed on, oldest first. -/
def flushed : List (Op α) → List α
  | [] => []
  | .flush as :: h => flushed h ++ as
  | _ :: h => flushed h

/-- What was dropped, in the order in which it was. -/
def dropped : List (Op α) → List α
  | [] => []
  | .overflow a :: h => dropped h ++ [a]
  | .clear as :: h => dropped h ++ as
  | _ :: h => dropped h

namespace Run

variable {limit : Option Nat} {h : List (Op α)} {q : List α}

/-- Nothing is passed on out of order or twice. -/
theorem sublist (hrun : Run limit h q) : (flushed h ++ q).Sublist (puts h) := by
  induction hrun with
  | nil => exact .slnil
  | @put h q a _ ih =>
      show (flushed h ++ (q ++ [a])).Sublist (puts h ++ [a])
      rw [← List.append_assoc]
      exact ih.append (.refl _)
  | @overflow h q a n _ _ _ ih =>
      have hskip : (flushed h ++ q).Sublist (flushed h ++ a :: q) :=
        (List.Sublist.refl _).append (List.sublist_cons_self a q)
      exact hskip.trans ih
  | @flush h q _ ih => simpa [flushed, puts] using ih
  | @clear h q _ ih =>
      have hskip : (flushed h).Sublist (flushed h ++ q) := List.sublist_append_left _ _
      simpa [flushed, puts] using hskip.trans ih

/-- What was put in was passed on, was dropped or is in the queue. -/
theorem accounts (hrun : Run limit h q) : (puts h).Perm (flushed h ++ dropped h ++ q) := by
  induction hrun with
  | nil => exact .nil
  | @put h q a _ ih =>
      show (puts h ++ [a]).Perm (flushed h ++ dropped h ++ (q ++ [a]))
      rw [← List.append_assoc]
      exact ih.append_right [a]
  | @overflow h q a n _ _ _ ih =>
      show (puts h).Perm (flushed h ++ (dropped h ++ [a]) ++ q)
      simpa [List.append_assoc] using ih
  | @flush h q _ ih =>
      -- what was in the queue moves in front of what was dropped
      show (puts h).Perm (flushed h ++ q ++ dropped h ++ [])
      refine ih.trans ?_
      rw [List.append_nil, List.append_assoc, List.append_assoc]
      exact List.perm_append_comm.append_left (flushed h)
  | @clear h q _ ih =>
      show (puts h).Perm (flushed h ++ (dropped h ++ q) ++ [])
      simpa [List.append_assoc] using ih

/-- The oldest elements overflow, as long as enough are left. -/
theorem overflows {n : Nat} (hlimit : limit = some n) (as : List α)
    (hrun : Run limit h (as ++ q)) (hq : n ≤ q.length) :
    Run limit ((as.map Op.overflow).reverse ++ h) q := by
  induction as generalizing h with
  | nil => exact hrun
  | cons a as ih =>
      have hlen : n ≤ (as ++ q).length := by
        rw [List.length_append]
        omega
      have hone : Run limit (.overflow a :: h) (as ++ q) := .overflow hrun hlimit hlen
      simpa using ih hone

end Run

end Fifo
