import LLMQore.Rpc.Session
import LLMQore.Reentrant.Rules

/-!
# LLMQore.Rpc.SessionMachine

The session over a transport about which nothing is known: it may open and close
at any time, and during each of its virtual functions, like during each slot and
each handler, the session may be entered again.
-/

namespace LLMQore.Rpc

open Reentrant

/-- A session and whether its transport is open. -/
structure SessionState where
  session : Session := {}
  transportOpen : Bool := true

/-- What the session calls out to. -/
inductive SessionOut where
  | send (message : JsonObject)
  | abandon (id : String)
  | emit (signal : Signal)
  | handle (tag : RequestTag) (method : String) (params : JsonObject)
  | notify (method : String) (params : JsonObject)
  | progress (token : String) (progress total : Rat) (message : String)

/-- A request handler returns a future or throws; nothing else is answered. -/
def SessionOut.Ans : SessionOut → Type
  | .handle .. => Except Exn Unit
  | _ => Unit

/-- Every call-out returns, and a request handler returns a future. -/
def SessionOut.returns : (e : SessionOut) → e.Ans
  | .handle .. => .ok ()
  | .send _ | .abandon _ | .emit _ | .notify .. | .progress .. => ()

abbrev SessionSig : Sig where
  State := SessionState
  Out := SessionOut
  Ans := SessionOut.Ans
  Fn := Empty
  Res f := f.elim

/-- The session's own surroundings. -/
def sessionHost : SessionHost SessionSig where
  session s := s.session
  withSession s session := { s with session }
  isOpen s := s.transportOpen
  send answers message := do
    Proc.modify (S := SessionSig) fun s =>
      { s with session := s.session.observe (.sent message answers) }
    Proc.query (S := SessionSig) (.send message)
  abandon id := Proc.query (S := SessionSig) (.abandon id)
  emit signal := Proc.query (S := SessionSig) (.emit signal)
  handle tag method params := Proc.query (S := SessionSig) (.handle tag method params)
  notify method params := Proc.query (S := SessionSig) (.notify method params)
  progress token progress total message :=
    Proc.query (S := SessionSig) (.progress token progress total message)

/-- The events that reach a session. -/
inductive SessionEvent where
  | call (c : SessionCall)
  /-- `Transport::messageReceived` -/
  | messageReceived (message : JsonObject)
  /-- `Transport::sendFailed` -/
  | sendFailed (message : JsonObject) (reason : String)
  /-- `Transport::closed` -/
  | transportClosed
  /-- The transport's `isOpen` changes. -/
  | transportOpen (isOpen : Bool)

/-- The code of each event. -/
def sessionEntry : SessionEvent → Proc SessionSig Unit
  | .call c => sessionHost.call c
  | .messageReceived message => sessionHost.onMessageReceived message
  | .sendFailed message reason => sessionHost.onSendFailed message reason
  | .transportClosed => sessionHost.onTransportClosed
  | .transportOpen isOpen =>
      Proc.modify (S := SessionSig) fun s => { s with transportOpen := isOpen }

def sessionMachine : Machine SessionSig where
  Event := SessionEvent
  entry := sessionEntry
  body f := f.elim

end LLMQore.Rpc
