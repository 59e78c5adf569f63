import LLMQore.Rpc.LineFramer
import LLMQore.Reentrant.Rules
import LLMQore.Reentrant.History

/-!
# LLMQore.Rpc.Transport

What a user of a transport (`Rpc::Transport`) sees of its life, and the transport that is one
end of a pipe inside the process (`PipeTransport`).

A transport lives as its users rely on it when `closed` is emitted only of a transport that is
open, and no message is received between a `closed` and the next time it opens (`LifeCycle`).
-/

namespace LLMQore.Rpc

open Reentrant

/-- What a user of a transport sees, and the calls that reach it. -/
inductive TransportObservation where
  | startCalled
  | stopCalled
  /-- A child process was started. -/
  | launched
  /-- `start` was successful. -/
  | opened
  | received (message : JsonObject)
  | closed

/-- Was `opened` the last there was of `opened` and `closed`? -/
def isUp : List TransportObservation → Bool
  | .opened :: _ => true
  | .closed :: _ => false
  | _ :: earlier => isUp earlier
  | [] => false

/-- Was `closed` the last there was of `opened` and `closed`? -/
def isDown : List TransportObservation → Bool
  | .opened :: _ => false
  | .closed :: _ => true
  | _ :: earlier => isDown earlier
  | [] => false

theorem isDown_of_isUp {h : List TransportObservation} (hup : isUp h = true) :
    isDown h = false := by
  induction h with
  | nil => rfl
  | cons o earlier ih =>
      cases o with
      | opened => rfl
      | closed => exact absurd hup Bool.false_ne_true
      | _ => exact ih hup

/-- A transport is closed only when it is open, and receives nothing once it is closed. -/
def Lives (earlier : List TransportObservation) : TransportObservation → Prop
  | .closed => isUp earlier = true
  | .received _ => isDown earlier = false
  | _ => True

/-- The life of a transport, as its users rely on it. -/
def LifeCycle (h : List TransportObservation) : Prop := Ordered Lives h

theorem lifeCycle_nil : LifeCycle [] := ordered_nil

theorem LifeCycle.cons {h : List TransportObservation} {o : TransportObservation}
    (hl : LifeCycle h) (ho : Lives h o) : LifeCycle (o :: h) :=
  ordered_cons.mpr ⟨ho, hl⟩

/-! ### The pipe -/

/-- The two ends `createPair` gives. -/
inductive PipeEnd where
  | a | b
  deriving DecidableEq

/-- `m_peer`. -/
def PipeEnd.peer : PipeEnd → PipeEnd
  | .a => .b
  | .b => .a

/-- A `PipeTransport`. -/
structure PipeTransport where
  isOpen : Bool := false
  log : List TransportObservation := []

/-- Both ends, and the deliveries the event loop has not made yet. -/
structure Pipe where
  transport : PipeEnd → PipeTransport := fun _ => {}
  queue : List (PipeEnd × JsonObject) := []

def PipeTransport.observe (t : PipeTransport) (o : TransportObservation) : PipeTransport :=
  { t with log := o :: t.log }

namespace Pipe

/-- One end changes. -/
def update (e : PipeEnd) (f : PipeTransport → PipeTransport) (s : Pipe) : Pipe :=
  { s with transport := Function.update s.transport e (f (s.transport e)) }

end Pipe

/-- The signals of an end. -/
inductive PipeOut where
  | messageReceived (e : PipeEnd) (message : JsonObject)
  | errorOccurred (e : PipeEnd) (reason : String)
  | closed (e : PipeEnd)

abbrev PipeSig : Sig where
  State := Pipe
  Out := PipeOut
  Ans _ := Unit
  Fn := Empty
  Res := nofun

namespace Pipe

/-- `start`. -/
def start (e : PipeEnd) : Proc PipeSig Unit := do
  Proc.modify (S := PipeSig) (update e (·.observe .startCalled))
  if (← Proc.reads (S := PipeSig) (·.transport e)).isOpen then
    pure ()
  else
    Proc.modify (S := PipeSig) (update e fun t => { t with isOpen := true }.observe .opened)

/-- `stop`. -/
def stop (e : PipeEnd) : Proc PipeSig Unit := do
  Proc.modify (S := PipeSig) (update e (·.observe .stopCalled))
  if (← Proc.reads (S := PipeSig) (·.transport e)).isOpen then
    Proc.modify (S := PipeSig) (update e fun t => { t with isOpen := false }.observe .closed)
    Proc.query (S := PipeSig) (.closed e)
  else
    pure ()

/-- `send`: the delivery is queued. -/
def send (e : PipeEnd) (message : JsonObject) : Proc PipeSig Unit := do
  let s ← Proc.read (S := PipeSig)
  if !(s.transport e).isOpen then
    pure ()
  else if !(s.transport e.peer).isOpen then
    Proc.query (S := PipeSig) (.errorOccurred e "Pipe peer not open")
  else
    Proc.modify (S := PipeSig) fun s => { s with queue := s.queue ++ [(e.peer, message)] }

/-- `deliver`, of an end that is open or not. -/
def deliver (e : PipeEnd) (message : JsonObject) : Proc PipeSig Unit := do
  Proc.modify (S := PipeSig) (update e (·.observe (.received message)))
  Proc.query (S := PipeSig) (.messageReceived e message)

/-- The event loop makes the next delivery. -/
def nextDelivery : Proc PipeSig Unit := do
  match (← Proc.reads (S := PipeSig) (·.queue)) with
  | [] => pure ()
  | (e, message) :: rest =>
      Proc.modify (S := PipeSig) fun s => { s with queue := rest }
      deliver e message

end Pipe

inductive PipeEvent where
  | start (e : PipeEnd)
  | stop (e : PipeEnd)
  | send (e : PipeEnd) (message : JsonObject)
  | nextDelivery

/-- Both ends of a pipe, whose slots may enter it again. -/
def pipeMachine : Machine PipeSig where
  Event := PipeEvent
  entry
    | .start e => Pipe.start e
    | .stop e => Pipe.stop e
    | .send e message => Pipe.send e message
    | .nextDelivery => Pipe.nextDelivery
  body := nofun

namespace Pipe

/-- The next delivery is for an end that is open. -/
def DeliversOpen (s : Pipe) : PipeEvent → Prop
  | .nextDelivery => ∀ e message rest, s.queue = (e, message) :: rest → (s.transport e).isOpen
  | _ => True

/-- An end that is open was opened since it was closed, and lives as its users rely on. -/
def EndLives (t : PipeTransport) : Prop :=
  LifeCycle t.log ∧ (t.isOpen = true → isUp t.log = true)

def contract : Contract PipeSig :=
  .plain (fun s => ∀ e, EndLives (s.transport e)) fun _ _ => True

theorem preorder : contract.Preorder := ⟨fun _ => trivial, fun _ _ => trivial⟩

/-- One end changes, and lives on. -/
theorem lives_update {s : Pipe} {e : PipeEnd} {f : PipeTransport → PipeTransport}
    (hs : contract.inv s) (hf : EndLives (f (s.transport e))) : contract.inv (s.update e f) := by
  intro e'
  show EndLives (Function.update s.transport e (f (s.transport e)) e')
  by_cases he : e' = e
  · subst he
    rwa [Function.update_self]
  · rw [Function.update_of_ne he]
    exact hs e'

theorem EndLives.calledOf {t : PipeTransport} (ht : EndLives t) :
    EndLives (t.observe .startCalled) ∧ EndLives (t.observe .stopCalled) :=
  ⟨⟨ht.1.cons trivial, ht.2⟩, ⟨ht.1.cons trivial, ht.2⟩⟩

variable {A : Pipe → (e : PipeOut) → Unit → Prop}

theorem keeps_start (e : PipeEnd) : contract.Keeps (S := PipeSig) A (start e) := by
  refine .bind preorder (.modify fun s hs => ⟨lives_update hs (hs e).calledOf.1, trivial⟩)
    fun _ => .bind preorder (.reads preorder _) fun t => .ite _ (fun _ => .pure preorder _) ?_
  exact fun _ => .modify fun s hs => ⟨lives_update hs ⟨(hs e).1.cons trivial, fun _ => rfl⟩, trivial⟩

theorem keeps_stop (e : PipeEnd) : contract.Keeps (S := PipeSig) A (stop e) := by
  refine .bind preorder (.modify fun s hs => ⟨lives_update hs (hs e).calledOf.2, trivial⟩)
    fun _ s hs => ?_
  refine (wp_bind (S := PipeSig) _ _ _ s).mpr ((wp_ite (S := PipeSig) _ _ _ _ s).mpr ⟨?_, ?_⟩)
  · intro hopen
    -- it is open, so it was opened since it was closed
    have hclosed : EndLives ({ s.transport e with isOpen := false }.observe .closed) :=
      ⟨(hs e).1.cons (o := .closed) ((hs e).2 hopen), fun h => absurd h Bool.false_ne_true⟩
    exact ⟨lives_update hs hclosed, fun _ _ hs' _ _ => ⟨hs', trivial⟩⟩
  · exact fun _ => ⟨hs, trivial⟩

theorem keeps_send (e : PipeEnd) (message : JsonObject) :
    contract.Keeps (S := PipeSig) A (send e message) := by
  refine .bind preorder (.reads preorder _) fun s => .ite _ (fun _ => .pure preorder _) fun _ => ?_
  exact .ite _ (fun _ => .query _) fun _ => .modify fun s hs => ⟨hs, trivial⟩

/-- A delivery to an end that is open. -/
theorem nextDelivery_keeps {s : Pipe} (hs : contract.inv s)
    (hopen : DeliversOpen s .nextDelivery) :
    wp (S := PipeSig) A contract nextDelivery (fun _ s' => contract.inv s' ∧ True) s := by
  refine (wp_bind (S := PipeSig) _ _ _ s).mpr ((wp_reads (S := PipeSig) _ _ s).mpr ?_)
  cases hq : s.queue with
  | nil => exact ⟨hs, trivial⟩
  | cons d rest =>
      obtain ⟨e, message⟩ := d
      have hup := (hs e).2 (hopen e message rest hq)
      have hrest : contract.inv { s with queue := rest } := hs
      have hreceived : EndLives ((s.transport e).observe (.received message)) :=
        ⟨(hs e).1.cons (o := .received message) (isDown_of_isUp hup), (hs e).2⟩
      exact ⟨lives_update hrest hreceived, fun _ _ hs' _ _ => ⟨hs', trivial⟩⟩

theorem valid : contract.Valid (Surroundings.only pipeMachine DeliversOpen) := by
  refine .of_guarded preorder (fun s c hs hc => ?_) nofun
  cases c with
  | start e => exact keeps_start e s hs
  | stop e => exact keeps_stop e s hs
  | send e message => exact keeps_send e message s hs
  | nextDelivery => exact nextDelivery_keeps hs hc

/-- While each delivery is made to an end that is open, both ends live as their users rely on. -/
theorem lifeCycle {c : Config PipeSig}
    (hrun : Reaches (Surroundings.only pipeMachine DeliversOpen) (.idle {}) c) (hw : c.Waiting)
    (e : PipeEnd) : LifeCycle (c.state.transport e).log := by
  have hinit : contract.inv {} := fun _ => ⟨lifeCycle_nil, nofun⟩
  exact (valid.waiting hinit hrun hw e).1

end Pipe

end LLMQore.Rpc
