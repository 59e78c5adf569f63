import LLMQore.Rpc.Transport

/-!
# LLMQore.Mcp.StdioServerTransport

The transport of a server over a pair of devices (`McpStdioServerTransport` with injected
devices).

`undelivered` counts the messages that were decoded and wait to be emitted, and `finishing` the
runs of the slot of `readChannelFinished` that have not emitted `closed`; no code reads them.
-/

namespace LLMQore.Mcp

open Reentrant Rpc

structure McpStdioServerTransport where
  isOpen : Bool := false
  /-- The signals of the input device are connected. -/
  subscribed : Bool := false
  /-- There is an output device; otherwise it is the standard output. -/
  hasOutput : Bool := true
  /-- The bytes of the input device that were not read. -/
  unread : Bytes := []
  codec : NdJsonCodec := {}
  undelivered : Nat := 0
  finishing : Nat := 0
  log : List TransportObservation := []

/-- What the transport calls out to: its devices, and the slots of its signals. -/
inductive StdioServerOut where
  /-- Writes a line to the output device: was it written as a whole? -/
  | write (line : String)
  | errorString
  | writeStdout (line : String)
  | messageReceived (message : JsonObject)
  | errorOccurred (reason : String)
  | closed

def StdioServerOut.Ans : StdioServerOut → Type
  | .write _ => Bool
  | .errorString => String
  | _ => Unit

abbrev StdioServerSig : Sig where
  State := McpStdioServerTransport
  Out := StdioServerOut
  Ans := StdioServerOut.Ans
  Fn := Empty
  Res := nofun

namespace McpStdioServerTransport

def observe (s : McpStdioServerTransport) (o : TransportObservation) : McpStdioServerTransport :=
  { s with log := o :: s.log }

/-- The loop that emits what was decoded. -/
def emitMessages : List JsonObject → Proc StdioServerSig Unit
  | [] => pure ()
  | message :: rest => do
      Proc.modify (S := StdioServerSig) fun s =>
        { s with undelivered := s.undelivered - 1 }.observe (.received message)
      Proc.query (S := StdioServerSig) (.messageReceived message)
      emitMessages rest

/-- `in->readAll()`, and what is decoded of it. -/
def readAll (json : JsonCodec) (s : McpStdioServerTransport) : McpStdioServerTransport :=
  let r := s.codec.decode json s.unread
  { s with unread := [], codec := r.1, undelivered := s.undelivered + r.2.length }

/-- `readFromDevice`. -/
def readFromDevice (json : JsonCodec) : Proc StdioServerSig Unit := do
  let s ← Proc.read (S := StdioServerSig)
  if !s.isOpen then
    pure ()
  else if s.unread.isEmpty then
    pure ()
  else
    Proc.modify (S := StdioServerSig) (readAll json)
    emitMessages (s.codec.decode json s.unread).2

/-- `start`. -/
def start (json : JsonCodec) : Proc StdioServerSig Unit := do
  Proc.modify (S := StdioServerSig) (·.observe .startCalled)
  if ← Proc.reads (S := StdioServerSig) (·.isOpen) then
    pure ()
  else
    Proc.modify (S := StdioServerSig) fun s =>
      { s with isOpen := true, subscribed := true }.observe .opened
    readFromDevice json

/-- `stop`. -/
def stop : Proc StdioServerSig Unit := do
  Proc.modify (S := StdioServerSig) (·.observe .stopCalled)
  if !(← Proc.reads (S := StdioServerSig) (·.isOpen)) then
    pure ()
  else
    Proc.modify (S := StdioServerSig) fun s =>
      { s with isOpen := false, subscribed := false }.observe .closed
    Proc.query (S := StdioServerSig) .closed

/-- `send`. -/
def send (json : JsonCodec) (message : JsonObject) : Proc StdioServerSig Unit := do
  let s ← Proc.read (S := StdioServerSig)
  if !s.isOpen then
    pure ()
  else
    let line := NdJsonCodec.encode json message
    if s.hasOutput then
      let written : Bool ← Proc.query (S := StdioServerSig) (.write line)
      if written then
        pure ()
      else
        let error : String ← Proc.query (S := StdioServerSig) .errorString
        Proc.query (S := StdioServerSig)
          (.errorOccurred (if error.isEmpty then "Short write to output device" else error))
    else
      Proc.query (S := StdioServerSig) (.writeStdout line)

/-- The slot of `readChannelFinished`. -/
def onReadChannelFinished (json : JsonCodec) : Proc StdioServerSig Unit := do
  Proc.modify (S := StdioServerSig) fun s => { s with finishing := s.finishing + 1 }
  readFromDevice json
  Proc.modify (S := StdioServerSig) fun s =>
    { s with finishing := s.finishing - 1, isOpen := false, subscribed := false }.observe .closed
  Proc.query (S := StdioServerSig) .closed

end McpStdioServerTransport

inductive StdioServerEvent where
  | start
  | stop
  | send (message : JsonObject)
  /-- Bytes arrive at the input device, which is told by `readyRead`. -/
  | arrived (data : Bytes)
  | readyRead
  | readChannelFinished

/-- The code of each event. -/
def stdioServerEntry (json : JsonCodec) : StdioServerEvent → Proc StdioServerSig Unit
  | .start => McpStdioServerTransport.start json
  | .stop => McpStdioServerTransport.stop
  | .send message => McpStdioServerTransport.send json message
  | .arrived data =>
      Proc.modify (S := StdioServerSig) fun s => { s with unread := s.unread ++ data }
  | .readyRead => do
      if ← Proc.reads (S := StdioServerSig) (·.subscribed) then
        McpStdioServerTransport.readFromDevice json
  | .readChannelFinished => do
      if ← Proc.reads (S := StdioServerSig) (·.subscribed) then
        McpStdioServerTransport.onReadChannelFinished json

def stdioServerMachine (json : JsonCodec) : Machine StdioServerSig where
  Event := StdioServerEvent
  entry := stdioServerEntry json
  body := nofun

/-- The transport may be entered again from the slots of its signals. -/
def StdioServerOut.Enters : StdioServerOut → Prop
  | .messageReceived _ => True
  | .errorOccurred _ => True
  | .closed => True
  | _ => False

/-- The surroundings of the transport, where events come in any order. -/
def stdioServerSurroundings (json : JsonCodec) : Surroundings (stdioServerMachine json) where
  event _ _ := True
  nested _ e _ := e.Enters
  answer _ _ _ := True

/-! ### The life of the transport

Neither the loop that emits messages nor the slot of `readChannelFinished` looks whether the
transport was closed meanwhile. So the transport lives as its users rely on as long as nothing
closes it while a decoded message waits to be emitted or that slot is running. -/

namespace McpStdioServerTransport

/-- Nothing waits for the transport to stay open. -/
def Settled (s : McpStdioServerTransport) : Prop := s.undelivered = 0 ∧ s.finishing = 0

/-- Nothing closes the transport while something waits for it to stay open. -/
def Orderly (s : McpStdioServerTransport) : StdioServerEvent → Prop
  | .stop => s.isOpen = true → s.Settled
  | .readChannelFinished => s.subscribed = true → s.Settled
  | _ => True

/-- The surroundings in which nothing comes out of order. -/
def orderlySurroundings (json : JsonCodec) : Surroundings (stdioServerMachine json) where
  event s c := Orderly s c
  nested s e c := e.Enters ∧ Orderly s c
  answer _ _ _ := True

structure LifeBooks (s : McpStdioServerTransport) : Prop where
  lives : LifeCycle s.log
  /-- A transport that is open was opened since it was closed. -/
  up : s.isOpen = true → isUp s.log = true
  subscribed : s.subscribed = true → s.isOpen = true
  settled : s.isOpen = false → s.Settled

/-- A visit leaves open what something waits for to stay open. -/
structure LifeRely (s s' : McpStdioServerTransport) : Prop where
  undelivered : s'.undelivered = s.undelivered
  finishing : s'.finishing = s.finishing
  isOpen : ¬ s.Settled → s'.isOpen = s.isOpen

def lifeContract : Contract StdioServerSig := .plain LifeBooks LifeRely

theorem LifeRely.settled {s s' : McpStdioServerTransport} (h : LifeRely s s') :
    s'.Settled ↔ s.Settled := by
  unfold Settled
  rw [h.undelivered, h.finishing]

theorem lifePreorder : lifeContract.Preorder where
  refl _ := ⟨rfl, rfl, fun _ => rfl⟩
  trans h₁ h₂ :=
    ⟨h₂.undelivered.trans h₁.undelivered, h₂.finishing.trans h₁.finishing, fun h =>
      (h₂.isOpen fun h' => h (h₁.settled.mp h')).trans (h₁.isOpen h)⟩

variable {A : McpStdioServerTransport → (e : StdioServerOut) → StdioServerOut.Ans e → Prop}
  {json : JsonCodec} {s : McpStdioServerTransport}

/-- While something waits for the transport to stay open, it is. -/
theorem LifeBooks.isOpen (hs : LifeBooks s) (h : ¬ s.Settled) : s.isOpen = true := by
  by_contra hne
  exact h (hs.settled (Bool.eq_false_iff.mpr hne))

/-- The loop emits messages of an open transport; the last one may be the last of its life. -/
theorem emitMessages_lives (messages : List JsonObject) {n : Nat} (hs : LifeBooks s)
    (hn : s.undelivered = n + messages.length) :
    wp A lifeContract (emitMessages messages)
      (fun _ s' => LifeBooks s' ∧ LifeRely { s with undelivered := n } s') s := by
  induction messages generalizing s with
  | nil =>
      have hsame : ({ s with undelivered := n } : McpStdioServerTransport) = s := by
        rw [show n = s.undelivered from hn.symm]
      rw [hsame]
      exact ⟨hs, lifePreorder.refl s⟩
  | cons message rest ih =>
      have hleft : s.undelivered - 1 = n + rest.length := by
        rw [hn, List.length_cons]; omega
      have hopen : s.isOpen = true := hs.isOpen fun h => by
        rw [h.1, List.length_cons] at hn; omega
      have hemitted : LifeBooks ({ s with undelivered := s.undelivered - 1 }.observe
          (.received message)) :=
        ⟨hs.lives.cons (o := .received message) (isDown_of_isUp (hs.up hopen)), hs.up,
          hs.subscribed, fun h => absurd (hopen.symm.trans h) Bool.false_ne_true.symm⟩
      refine ⟨hemitted, fun s' hr hs' _ _ => ?_⟩
      have hn' : s'.undelivered = n + rest.length := hr.undelivered.trans hleft
      refine wp_mono (p := emitMessages rest) (ih hs' hn') fun _ s'' h => ⟨h.1, ?_⟩
      refine ⟨h.2.undelivered, h.2.finishing.trans hr.finishing, fun hsettled => ?_⟩
      -- what waits for more than this message also waits during it
      have hwaits : ¬ ({ s with undelivered := s.undelivered - 1 }.observe
          (.received message)).Settled := fun h' =>
        hsettled ⟨show n = 0 by
          have hzero : s.undelivered - 1 = 0 := h'.1
          omega, h'.2⟩
      have hwaits' : ¬ ({ s' with undelivered := n } : McpStdioServerTransport).Settled :=
        fun h' => hsettled ⟨h'.1, hr.finishing.symm.trans h'.2⟩
      exact (h.2.isOpen hwaits').trans (hr.isOpen hwaits)

theorem readFromDevice_lives (hs : LifeBooks s) :
    lifeContract.KeepsAt A (readFromDevice json) s := by
  refine (wp_bind (S := StdioServerSig) _ _ _ s).mpr
    ((wp_ite (S := StdioServerSig) _ _ _ _ s).mpr ⟨fun _ => ⟨hs, lifePreorder.refl s⟩, fun ho => ?_⟩)
  refine (wp_ite (S := StdioServerSig) _ _ _ _ s).mpr ⟨fun _ => ⟨hs, lifePreorder.refl s⟩, fun _ => ?_⟩
  have hopen : s.isOpen = true := by simpa using ho
  have hread : LifeBooks (readAll json s) :=
    ⟨hs.lives, hs.up, hs.subscribed, fun h => absurd (hopen.symm.trans h) Bool.false_ne_true.symm⟩
  refine wp_mono (emitMessages_lives _ (n := s.undelivered) hread rfl) fun _ s' h => ⟨h.1, ?_⟩
  exact ⟨h.2.undelivered, h.2.finishing, h.2.isOpen⟩

/-- A visit that leaves the transport as users of it see it. -/
theorem LifeBooks.observe (hs : LifeBooks s) {o : TransportObservation} (ho : Lives s.log o)
    (hup : isUp (o :: s.log) = isUp s.log) : LifeBooks (s.observe o) :=
  ⟨hs.lives.cons ho, fun h => hup.trans (hs.up h), hs.subscribed, hs.settled⟩

theorem start_lives (hs : LifeBooks s) : lifeContract.KeepsAt A (start json) s := by
  have hcalled : LifeBooks (s.observe .startCalled) := hs.observe trivial rfl
  refine (wp_bind (S := StdioServerSig) _ _ _ s).mpr ((wp_bind (S := StdioServerSig) _ _ _ _).mpr ?_)
  refine (wp_ite (S := StdioServerSig) _ _ _ _ _).mpr
    ⟨fun _ => ⟨hcalled, ⟨rfl, rfl, fun _ => rfl⟩⟩, fun hclosed => ?_⟩
  -- it was not open, so nothing waits for it to stay so
  have hsettled : s.Settled := hs.settled (Bool.eq_false_iff.mpr hclosed)
  have hopened : LifeBooks ({ s.observe .startCalled with isOpen := true, subscribed := true }.observe
      .opened) :=
    ⟨hcalled.lives.cons trivial, fun _ => rfl, fun _ => rfl, nofun⟩
  refine wp_mono (readFromDevice_lives hopened) fun _ s' h => ⟨h.1, ?_⟩
  exact ⟨h.2.undelivered, h.2.finishing, fun hne => absurd hsettled hne⟩

/-- A call-out is all that is left of a visit that closed the transport. -/
theorem closed_wp {s₀ : McpStdioServerTransport} (hs : LifeBooks s) (hr : LifeRely s₀ s) :
    wp A lifeContract (Proc.query (S := StdioServerSig) .closed)
      (fun _ s' => lifeContract.Moves s₀ s') s :=
  ⟨hs, fun _ hr' hs' _ _ => ⟨hs', lifePreorder.trans hr hr'⟩⟩

theorem stop_lives (hs : LifeBooks s) (ho : Orderly s .stop) :
    lifeContract.KeepsAt A stop s := by
  have hcalled : LifeBooks (s.observe .stopCalled) := hs.observe trivial rfl
  refine (wp_bind (S := StdioServerSig) _ _ _ s).mpr ((wp_bind (S := StdioServerSig) _ _ _ _).mpr ?_)
  refine (wp_ite (S := StdioServerSig) _ _ _ _ _).mpr
    ⟨fun _ => ⟨hcalled, ⟨rfl, rfl, fun _ => rfl⟩⟩, fun hopen => ?_⟩
  have hopen : s.isOpen = true := by simpa [McpStdioServerTransport.observe] using hopen
  have hsettled : s.Settled := ho hopen
  exact closed_wp
    ⟨hcalled.lives.cons (o := .closed) (hs.up hopen), nofun, nofun, fun _ => hsettled⟩
    ⟨rfl, rfl, fun hne => absurd hsettled hne⟩

theorem send_lives (message : JsonObject) : lifeContract.Keeps A (send json message) := by
  refine .bind lifePreorder (.reads lifePreorder _) fun s => .ite _ (fun _ => .pure lifePreorder _)
    fun _ => .ite _ (fun _ => ?_) fun _ => .query _
  refine .bind lifePreorder (.query _) fun written => .ite _ (fun _ => .pure lifePreorder _) fun _ => ?_
  exact .bind lifePreorder (.query _) fun error => .query _

theorem onReadChannelFinished_lives (hs : LifeBooks s) (hopen : s.isOpen = true)
    (hsettled : s.Settled) : lifeContract.KeepsAt A (onReadChannelFinished json) s := by
  have hfinishing : LifeBooks { s with finishing := s.finishing + 1 } :=
    ⟨hs.lives, hs.up, hs.subscribed, fun h => absurd (hopen.symm.trans h) Bool.false_ne_true.symm⟩
  refine (wp_bind (S := StdioServerSig) _ _ _ s).mpr ((wp_bind (S := StdioServerSig) _ _ _ _).mpr ?_)
  refine wp_mono (readFromDevice_lives hfinishing) fun _ s' h => ?_
  -- the slot waits for the transport to stay open, so it did
  have hopen' : s'.isOpen = true := by
    have hwaits : ¬ ({ s with finishing := s.finishing + 1 } : McpStdioServerTransport).Settled :=
      fun h' => absurd h'.2 (Nat.succ_ne_zero _)
    exact (h.2.isOpen hwaits).trans hopen
  have hzero : s'.undelivered = 0 := h.2.undelivered.trans hsettled.1
  have hlast : s'.finishing - 1 = 0 := by
    have hone : s'.finishing = s.finishing + 1 := h.2.finishing
    rw [hone, hsettled.2]
  exact closed_wp
    ⟨h.1.lives.cons (o := .closed) (h.1.up hopen'), nofun, nofun, fun _ => ⟨hzero, hlast⟩⟩
    ⟨hzero.trans hsettled.1.symm, hlast.trans hsettled.2.symm, fun hne => absurd hsettled hne⟩

/-- No event that comes in order breaks the life of the transport. -/
theorem entry_lives {c : StdioServerEvent} (hs : LifeBooks s) (ho : Orderly s c) :
    lifeContract.KeepsAt A (stdioServerEntry json c) s := by
  cases c with
  | start => exact start_lives hs
  | stop => exact stop_lives hs ho
  | send message => exact send_lives message s hs
  | arrived data =>
      exact ⟨⟨hs.lives, hs.up, hs.subscribed, hs.settled⟩, ⟨rfl, rfl, fun _ => rfl⟩⟩
  | readyRead =>
      refine (wp_bind (S := StdioServerSig) _ _ _ s).mpr
        ((wp_ite (S := StdioServerSig) _ _ _ _ s).mpr ⟨fun _ => ?_, fun _ => ?_⟩)
      · exact readFromDevice_lives hs
      · exact ⟨hs, lifePreorder.refl s⟩
  | readChannelFinished =>
      refine (wp_bind (S := StdioServerSig) _ _ _ s).mpr ((wp_ite (S := StdioServerSig) _ _ _ _ s).mpr ?_)
      refine ⟨fun hsub => ?_, fun _ => ⟨hs, lifePreorder.refl s⟩⟩
      exact onReadChannelFinished_lives hs (hs.subscribed hsub) (ho hsub)

theorem lifeValid (json : JsonCodec) : lifeContract.Valid (orderlySurroundings json) where
  toPreorder := lifePreorder
  event _ _ hs ho := entry_lives hs ho
  nested _ _ _ hs ho := entry_lives hs ho.2
  body := nofun

/-- Where nothing comes out of order, the transport lives as its users rely on. -/
theorem lifeCycle {hasOutput : Bool} {c : Config StdioServerSig}
    (hrun : Reaches (orderlySurroundings json) (.idle { hasOutput }) c) (hw : c.Waiting) :
    LifeCycle c.state.log := by
  have hinit : lifeContract.inv { hasOutput } := ⟨lifeCycle_nil, nofun, nofun, fun _ => ⟨rfl, rfl⟩⟩
  exact ((lifeValid json).waiting hinit hrun hw).lives

end McpStdioServerTransport

end LLMQore.Mcp
