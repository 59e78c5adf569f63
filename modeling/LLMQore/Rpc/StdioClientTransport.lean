import LLMQore.Rpc.Transport

/-!
# LLMQore.Rpc.StdioClientTransport

The transport over the standard streams of a child process (`StdioClientTransport`).

What the child does is up to its surroundings: whether it starts in time, what it writes, when
it crashes or exits. `stop` waits for the child, and kills one that does not end in time; no
event loop runs meanwhile, so this is one update here. `undelivered` counts the messages that
were decoded and wait to be emitted; no code reads it.
-/

namespace LLMQore.Rpc

open Reentrant

/-- `QProcess::ProcessState`. -/
inductive ProcessState where
  | notRunning | starting | running
  deriving DecidableEq

/-- `QProcess::ProcessError`. -/
inductive ProcessError where
  | failedToStart | crashed | timedout | writeError | readError | unknownError
  deriving DecidableEq

/-- The value of an error. -/
def ProcessError.toInt : ProcessError → Int
  | .failedToStart => 0
  | .crashed => 1
  | .timedout => 2
  | .readError => 3
  | .writeError => 4
  | .unknownError => 5

structure StdioLaunchConfig where
  program : String := ""
  arguments : List String := []

structure StdioClientTransport where
  config : StdioLaunchConfig := {}
  /-- `m_process`, with the state its process is in. -/
  process : Option ProcessState := none
  stdoutCodec : NdJsonCodec := {}
  stderrFramer : LineFramer := {}
  undelivered : Nat := 0
  log : List TransportObservation := []

/-- What the transport calls out to: its process, and the slots of its signals. -/
inductive StdioOut where
  | startProcess (program : String) (arguments : List String)
  | waitForStarted
  | errorString
  | readAllStandardOutput
  | readAllStandardError
  | write (line : String)
  | messageReceived (message : JsonObject)
  | errorOccurred (reason : String)
  | stderrLine (text : String)
  | closed

def StdioOut.Ans : StdioOut → Type
  | .waitForStarted => Bool
  | .errorString => String
  | .readAllStandardOutput => Bytes
  | .readAllStandardError => Bytes
  | _ => Unit

abbrev StdioSig : Sig where
  State := StdioClientTransport
  Out := StdioOut
  Ans := StdioOut.Ans
  Fn := Empty
  Res := nofun

namespace StdioClientTransport

def observe (s : StdioClientTransport) (o : TransportObservation) : StdioClientTransport :=
  { s with log := o :: s.log }

/-- `isOpen`. -/
def isOpen (s : StdioClientTransport) : Bool := s.process = some .running

/-- A process that is starting goes on to another state. -/
def settle (state : ProcessState) (s : StdioClientTransport) : StdioClientTransport :=
  if s.process = some .starting then { s with process := some state } else s

/-- `new QProcess`, and that it is started. -/
def launch (s : StdioClientTransport) : StdioClientTransport :=
  { s with process := some .starting }.observe .launched

/-- `start`. -/
def start : Proc StdioSig Unit := do
  Proc.modify (S := StdioSig) (·.observe .startCalled)
  let s ← Proc.read (S := StdioSig)
  if s.process.isSome then
    pure ()
  else
    Proc.modify (S := StdioSig) launch
    Proc.query (S := StdioSig) (.startProcess s.config.program s.config.arguments)
    let started : Bool ← Proc.query (S := StdioSig) .waitForStarted
    if started then
      Proc.modify (S := StdioSig) fun s => (s.settle .running).observe .opened
    else
      let error : String ← Proc.query (S := StdioSig) .errorString
      Proc.query (S := StdioSig)
        (.errorOccurred s!"Failed to start '{s.config.program}': {error}")
      Proc.modify (S := StdioSig) (·.observe .closed)
      Proc.query (S := StdioSig) .closed

/-- `stop`. -/
def stop : Proc StdioSig Unit := do
  Proc.modify (S := StdioSig) (·.observe .stopCalled)
  if (← Proc.reads (S := StdioSig) (·.process)).isNone then
    pure ()
  else
    Proc.modify (S := StdioSig) fun s =>
      { s with
        process := none
        stdoutCodec := s.stdoutCodec.clear
        stderrFramer := s.stderrFramer.clear }.observe .closed
    Proc.query (S := StdioSig) .closed

/-- `send`. -/
def send (json : JsonCodec) (message : JsonObject) : Proc StdioSig Unit := do
  if !(← Proc.reads (S := StdioSig) (·.isOpen)) then
    Proc.query (S := StdioSig) (.errorOccurred "Transport not open")
  else
    Proc.query (S := StdioSig) (.write (NdJsonCodec.encode json message))

/-- The loop that emits what was decoded. -/
def emitMessages : List JsonObject → Proc StdioSig Unit
  | [] => pure ()
  | message :: rest => do
      Proc.modify (S := StdioSig) fun s =>
        { s with undelivered := s.undelivered - 1 }.observe (.received message)
      Proc.query (S := StdioSig) (.messageReceived message)
      emitMessages rest

/-- `stdoutCodec.decode`. -/
def decodeStdout (json : JsonCodec) (data : Bytes) (s : StdioClientTransport) :
    StdioClientTransport :=
  let r := s.stdoutCodec.decode json data
  { s with stdoutCodec := r.1, undelivered := s.undelivered + r.2.length }

/-- `onReadyReadStdout`. -/
def onReadyReadStdout (json : JsonCodec) : Proc StdioSig Unit := do
  if (← Proc.reads (S := StdioSig) (·.process)).isNone then
    pure ()
  else
    let data : Bytes ← Proc.query (S := StdioSig) .readAllStandardOutput
    let messages ← Proc.reads (S := StdioSig) fun s => (s.stdoutCodec.decode json data).2
    Proc.modify (S := StdioSig) (decodeStdout json data)
    emitMessages messages

/-- The loop that emits lines of the child's error stream. -/
def emitLines : List Bytes → Proc StdioSig Unit
  | [] => pure ()
  | line :: rest => do
      Proc.query (S := StdioSig) (.stderrLine (Bytes.toUtf8String line))
      emitLines rest

/-- `onReadyReadStderr`. -/
def onReadyReadStderr : Proc StdioSig Unit := do
  if (← Proc.reads (S := StdioSig) (·.process)).isNone then
    pure ()
  else
    let data : Bytes ← Proc.query (S := StdioSig) .readAllStandardError
    let lines ← Proc.reads (S := StdioSig) fun s => (s.stderrFramer.append data).2
    Proc.modify (S := StdioSig) fun s =>
      { s with stderrFramer := (s.stderrFramer.append data).1 }
    emitLines lines

/-- `onProcessErrorOccurred`. -/
def onProcessErrorOccurred (error : ProcessError) : Proc StdioSig Unit := do
  let process ← Proc.reads (S := StdioSig) (·.process)
  let text : String ← (if process.isSome then Proc.query (S := StdioSig) .errorString else pure "")
  Proc.query (S := StdioSig) (.errorOccurred s!"QProcess error {error.toInt}: {text}")

/-- `onProcessFinished`. -/
def onProcessFinished : Proc StdioSig Unit := do
  Proc.modify (S := StdioSig) (·.observe .closed)
  Proc.query (S := StdioSig) .closed

end StdioClientTransport

/-- The calls that reach the transport, and what its process does. -/
inductive StdioEvent where
  | start
  | stop
  | send (message : JsonObject)
  | readyReadStandardOutput
  | readyReadStandardError
  /-- A process that did not start in time starts after all. -/
  | processStarted
  | processError (error : ProcessError)
  | processFinished

/-- The code of each event. The signals of a process that was stopped are not connected. -/
def stdioEntry (json : JsonCodec) : StdioEvent → Proc StdioSig Unit
  | .start => StdioClientTransport.start
  | .stop => StdioClientTransport.stop
  | .send message => StdioClientTransport.send json message
  | .readyReadStandardOutput => StdioClientTransport.onReadyReadStdout json
  | .readyReadStandardError => StdioClientTransport.onReadyReadStderr
  | .processStarted => Proc.modify (S := StdioSig) (·.settle .running)
  | .processError error => do
      if (← Proc.reads (S := StdioSig) (·.process)).isSome then
        -- a process that failed to start is not running when it says so
        (if error = .failedToStart then
          Proc.modify (S := StdioSig) (·.settle .notRunning)
        else pure ())
        StdioClientTransport.onProcessErrorOccurred error
  | .processFinished => do
      if (← Proc.reads (S := StdioSig) (·.process)) = some .running then
        Proc.modify (S := StdioSig) fun s => { s with process := some .notRunning }
        StdioClientTransport.onProcessFinished

def stdioMachine (json : JsonCodec) : Machine StdioSig where
  Event := StdioEvent
  entry := stdioEntry json
  body := nofun

/-- Where the transport may be entered while it calls out: from the slots of its signals that
give up control, and from a process that reports an error while it is started. -/
def StdioOut.Enters : StdioOut → StdioEvent → Prop
  | .messageReceived _, _ => True
  | .closed, _ => True
  | .startProcess _ _, .processError _ => True
  | .waitForStarted, .processError _ => True
  | _, _ => False

/-- The surroundings of the transport, where events come in any order. -/
def stdioSurroundings (json : JsonCodec) : Surroundings (stdioMachine json) where
  event _ _ := True
  nested _ e c := e.Enters c
  answer _ _ _ := True

/-! ### Opening a transport that is not open -/

namespace StdioClientTransport

/-- Was `start` the last call there was of `start` and `stop`? -/
def startedLast : List TransportObservation → Bool
  | .startCalled :: _ => true
  | .stopCalled :: _ => false
  | _ :: earlier => startedLast earlier
  | [] => false

/-- Does `start` launch a child process? -/
def launches (s : StdioClientTransport) : Bool :=
  match (start.advance s).2 with
  | .out (.startProcess _ _) _ => true
  | _ => false

/-- It does where there is no process, running or not. -/
theorem launches_eq (s : StdioClientTransport) : s.launches = s.process.isNone := by
  obtain ⟨config, process, stdoutCodec, stderrFramer, undelivered, log⟩ := s
  cases process with
  | none => rfl
  | some state => rfl

/-- There is a process from a call of `start` to the next call of `stop`. -/
def processContract : Contract StdioSig :=
  .plain (fun s => s.process.isSome = startedLast s.log) fun _ _ => True

theorem processPreorder : processContract.Preorder := ⟨fun _ => trivial, fun _ _ => trivial⟩

variable {A : StdioClientTransport → (e : StdioOut) → StdioOut.Ans e → Prop}

theorem startedLast_settle (state : ProcessState) {s : StdioClientTransport}
    (hs : processContract.inv s) : processContract.inv (s.settle state) := by
  have hs : s.process.isSome = startedLast s.log := hs
  unfold settle
  split
  · rename_i hp
    show true = startedLast s.log
    rw [← hs, hp]
    rfl
  · exact hs

theorem keepsProcess_start : processContract.Keeps A start := by
  intro s hs
  have hs : s.process.isSome = startedLast s.log := hs
  refine (wp_bind (S := StdioSig) _ _ _ s).mpr ((wp_bind (S := StdioSig) _ _ _ _).mpr ?_)
  refine (wp_ite (S := StdioSig) _ _ _ _ _).mpr ⟨fun hp => ⟨hp, trivial⟩, fun _ => ?_⟩
  -- from here on there is a process, whatever becomes of it
  have hlaunched : processContract.inv (launch (s.observe .startCalled)) := rfl
  refine (Contract.Keeps.bind processPreorder (.query _) fun _ => ?_).wp hlaunched
    fun _ _ h _ => ⟨h, trivial⟩
  refine .bind processPreorder (.query _) fun started => .ite _ (fun _ => ?_) fun _ => ?_
  · exact .modify fun s hs => ⟨startedLast_settle .running hs, trivial⟩
  · refine .bind processPreorder (.query _) fun error => .bind processPreorder (.query _) fun _ => ?_
    exact .bind processPreorder (.modify fun s hs => ⟨hs, trivial⟩) fun _ => .query _

theorem keepsProcess_stop : processContract.Keeps A stop := by
  intro s _
  refine (wp_bind (S := StdioSig) _ _ _ s).mpr ((wp_bind (S := StdioSig) _ _ _ _).mpr ?_)
  refine (wp_ite (S := StdioSig) _ _ _ _ _).mpr ⟨fun hp => ⟨?_, trivial⟩, fun _ => ?_⟩
  · exact Option.isSome_eq_false_iff.mpr hp
  · exact ⟨rfl, fun _ _ hs' _ _ => ⟨hs', trivial⟩⟩

theorem keepsProcess_emitMessages (messages : List JsonObject) :
    processContract.Keeps A (emitMessages messages) := by
  induction messages with
  | nil => exact .pure processPreorder _
  | cons message rest ih =>
      exact .bind processPreorder (.modify fun s hs => ⟨hs, trivial⟩) fun _ =>
        .bind processPreorder (.query _) fun _ => ih

theorem keepsProcess_emitLines (lines : List Bytes) :
    processContract.Keeps A (emitLines lines) := by
  induction lines with
  | nil => exact .pure processPreorder _
  | cons line rest ih => exact .bind processPreorder (.query _) fun _ => ih

theorem keepsProcess_onProcessErrorOccurred (error : ProcessError) :
    processContract.Keeps A (onProcessErrorOccurred error) := by
  refine .bind processPreorder (.reads processPreorder _) fun process => ?_
  exact .bind processPreorder (.ite _ (fun _ => .query _) fun _ => .pure processPreorder _)
    fun _ => .query _

/-- No event takes the process away but `stop`, or makes one but `start`. -/
theorem keepsProcess_entry (json : JsonCodec) (c : StdioEvent) :
    processContract.Keeps A (stdioEntry json c) := by
  have hread {α : Type} (f : StdioClientTransport → α) :
      processContract.Keeps A (Proc.reads (S := StdioSig) f) := .reads processPreorder f
  cases c with
  | start => exact keepsProcess_start
  | stop => exact keepsProcess_stop
  | send message =>
    exact .bind processPreorder (hread _) fun _ => .ite _ (fun _ => .query _) fun _ => .query _
  | readyReadStandardOutput =>
      refine .bind processPreorder (hread _) fun _ => .ite _ (fun _ => .pure processPreorder _) fun _ => ?_
      refine .bind processPreorder (.query _) fun data => .bind processPreorder (hread _) fun messages => ?_
      exact .bind processPreorder (.modify fun s hs => ⟨hs, trivial⟩) fun _ =>
        keepsProcess_emitMessages messages
  | readyReadStandardError =>
      refine .bind processPreorder (hread _) fun _ => .ite _ (fun _ => .pure processPreorder _) fun _ => ?_
      refine .bind processPreorder (.query _) fun data => .bind processPreorder (hread _) fun lines => ?_
      exact .bind processPreorder (.modify fun s hs => ⟨hs, trivial⟩) fun _ =>
        keepsProcess_emitLines lines
  | processStarted => exact .modify fun s hs => ⟨startedLast_settle .running hs, trivial⟩
  | processError error =>
      refine .bind processPreorder (hread _) fun _ => .ite _ (fun _ => ?_) fun _ => .pure processPreorder _
      refine .bind processPreorder (.ite _ (fun _ => ?_) fun _ => .pure processPreorder _) fun _ =>
        keepsProcess_onProcessErrorOccurred error
      exact .modify fun s hs => ⟨startedLast_settle .notRunning hs, trivial⟩
  | processFinished =>
      intro s hs
      have hs : s.process.isSome = startedLast s.log := hs
      refine (wp_bind (S := StdioSig) _ _ _ s).mpr ((wp_ite (S := StdioSig) _ _ _ _ s).mpr ⟨?_, ?_⟩)
      · intro hp
        have hexited : true = startedLast s.log := by
          have hp : s.process = some .running := hp
          rw [← hs, hp]
          rfl
        exact ⟨hexited, fun _ _ hs' _ _ => ⟨hs', trivial⟩⟩
      · exact fun _ => ⟨hs, trivial⟩

theorem processValid (json : JsonCodec) : processContract.Valid (stdioSurroundings json) where
  toPreorder := processPreorder
  event s c hs _ := keepsProcess_entry json c s hs
  nested s _ c hs _ := keepsProcess_entry json c s hs
  body := nofun

/-- In every run, `start` launches a child exactly where it was not called since `stop` was. -/
theorem launches_iff {json : JsonCodec} {config : StdioLaunchConfig} {c : Config StdioSig}
    (hrun : Reaches (stdioSurroundings json) (.idle { config }) c) (hw : c.Waiting) :
    c.state.launches = true ↔ startedLast c.state.log = false := by
  have hinit : processContract.inv { config } := rfl
  have hprocess : c.state.process.isSome = startedLast c.state.log :=
    (processValid json).waiting hinit hrun hw
  rw [launches_eq, ← hprocess]
  cases c.state.process with
  | none => exact iff_of_true rfl rfl
  | some state => exact iff_of_false Bool.false_ne_true nofun

/-! ### The life of the transport

`closed` is emitted by `stop` and by the end of the process, each on its own, and the loop that
emits messages does not look whether the transport was closed meanwhile. So the transport lives
as its users rely on as long as every start succeeds, `stop` finds no process that has ended,
and neither `stop` nor the end of the process comes while a decoded message waits to be
emitted. -/

/-- Nothing closes the transport again, or while a message waits to be emitted. -/
def Orderly (s : StdioClientTransport) : StdioEvent → Prop
  | .stop => s.undelivered = 0 ∧ (s.process = none ∨ s.process = some .running)
  | .processFinished => s.process = some .running → s.undelivered = 0
  | .processStarted => s.process ≠ some .starting
  | .processError error => error = .failedToStart → s.process ≠ some .starting
  | _ => True

/-- Every start succeeds, and a process that has ended writes no message more. -/
def OrderlyAnswer (json : JsonCodec) (s : StdioClientTransport) :
    (e : StdioOut) → StdioOut.Ans e → Prop
  | .waitForStarted, started => started = true
  | .readAllStandardOutput, data =>
      s.process = some .running ∨ (s.stdoutCodec.decode json data).2 = []
  | _, _ => True

/-- The surroundings in which nothing comes out of order. -/
def orderlySurroundings (json : JsonCodec) : Surroundings (stdioMachine json) where
  event s c := Orderly s c
  nested s e c := e.Enters c ∧ Orderly s c
  answer s e a := OrderlyAnswer json s e a

structure LifeBooks (s : StdioClientTransport) : Prop where
  lives : LifeCycle s.log
  /-- A process that runs was started since the transport was closed. -/
  up : s.process = some .running → isUp s.log = true
  /-- Messages wait only while the process runs. -/
  runs : 0 < s.undelivered → s.process = some .running

/-- A visit emits all it decodes, and does not end the process before that. -/
structure LifeRely (s s' : StdioClientTransport) : Prop where
  undelivered : s'.undelivered = s.undelivered
  process : 0 < s.undelivered → s'.process = s.process

def lifeContract : Contract StdioSig := .plain LifeBooks LifeRely

theorem lifePreorder : lifeContract.Preorder where
  refl _ := ⟨rfl, fun _ => rfl⟩
  trans h₁ h₂ :=
    ⟨h₂.undelivered.trans h₁.undelivered, fun h =>
      (h₂.process (h₁.undelivered.symm ▸ h)).trans (h₁.process h)⟩

/-- What the transport notes of a call leaves it as it was. -/
theorem LifeBooks.startCalled {s : StdioClientTransport} (hs : LifeBooks s) :
    LifeBooks (s.observe .startCalled) := ⟨hs.lives.cons trivial, hs.up, hs.runs⟩

theorem LifeBooks.stopCalled {s : StdioClientTransport} (hs : LifeBooks s) :
    LifeBooks (s.observe .stopCalled) := ⟨hs.lives.cons trivial, hs.up, hs.runs⟩

/-- A call-out is all that is left of a visit that closed the transport. -/
theorem closed_wp {s s₀ : StdioClientTransport} (hs : LifeBooks s) (hr : LifeRely s₀ s) :
    wp A lifeContract (Proc.query (S := StdioSig) .closed)
      (fun _ s' => lifeContract.Moves s₀ s') s :=
  ⟨hs, fun _ hr' hs' _ _ => ⟨hs', lifePreorder.trans hr hr'⟩⟩

theorem start_lives {json : JsonCodec} {s : StdioClientTransport} (hs : LifeBooks s) :
    lifeContract.KeepsAt (OrderlyAnswer json) start s := by
  have hcalled := hs.startCalled
  refine (wp_bind (S := StdioSig) _ _ _ s).mpr ((wp_bind (S := StdioSig) _ _ _ _).mpr ?_)
  refine (wp_ite (S := StdioSig) _ _ _ _ _).mpr
    ⟨fun _ => ⟨hcalled, ⟨rfl, fun _ => rfl⟩⟩, fun hnone => ?_⟩
  -- there is no process, so no message waits
  have hzero : s.undelivered = 0 := by
    by_contra hne
    have hrunning := hs.runs (Nat.pos_of_ne_zero hne)
    exact hnone (by rw [show (s.observe .startCalled).process = some .running from hrunning]; rfl)
  have hlaunched : LifeBooks (launch (s.observe .startCalled)) :=
    ⟨hcalled.lives.cons trivial, nofun, fun h => absurd h (hzero ▸ Nat.lt_irrefl 0)⟩
  refine ⟨hlaunched, fun s₁ hr₁ h₁ _ _ => ⟨h₁, fun s₂ hr₂ h₂ started hstarted => ?_⟩⟩
  have hzero₂ : s₂.undelivered = 0 := (hr₂.undelivered.trans hr₁.undelivered).trans hzero
  have hstarted : started = true := hstarted
  subst hstarted
  have hopened : LifeBooks ((s₂.settle .running).observe .opened) := by
    refine ⟨LifeCycle.cons ?_ trivial, fun _ => rfl, fun h => absurd h ?_⟩
    · unfold settle; split <;> exact h₂.lives
    · unfold settle; split <;> exact hzero₂ ▸ Nat.lt_irrefl 0
  have hsame : ((s₂.settle .running).observe .opened).undelivered = 0 := by
    unfold settle; split <;> exact hzero₂
  exact ⟨hopened, ⟨hsame.trans hzero.symm, fun h => absurd h (hzero ▸ Nat.lt_irrefl 0)⟩⟩

theorem stop_lives {s : StdioClientTransport} (hs : LifeBooks s) (ho : Orderly s .stop) :
    lifeContract.KeepsAt A stop s := by
  obtain ⟨hzero, hprocess⟩ := ho
  have hcalled := hs.stopCalled
  refine (wp_bind (S := StdioSig) _ _ _ s).mpr ((wp_bind (S := StdioSig) _ _ _ _).mpr ?_)
  refine (wp_ite (S := StdioSig) _ _ _ _ _).mpr
    ⟨fun _ => ⟨hcalled, ⟨rfl, fun _ => rfl⟩⟩, fun hsome => ?_⟩
  have hrunning : s.process = some .running := by
    rcases hprocess with hp | hp
    · exact absurd (show (s.observe .stopCalled).process.isNone = true by
        rw [show (s.observe .stopCalled).process = none from hp]; rfl) hsome
    · exact hp
  refine closed_wp ⟨hcalled.lives.cons (o := .closed) (hs.up hrunning), nofun, ?_⟩ ⟨rfl, ?_⟩
  · exact fun h => absurd h (hzero ▸ Nat.lt_irrefl 0)
  · exact fun h => absurd h (hzero ▸ Nat.lt_irrefl 0)

/-- The loop emits messages of a process that runs; the last one may be the last of its life. -/
theorem emitMessages_lives (messages : List JsonObject) {s : StdioClientTransport} {n : Nat}
    (hs : LifeBooks s) (hn : s.undelivered = n + messages.length) :
    wp A lifeContract (emitMessages messages)
      (fun _ s' => LifeBooks s' ∧ s'.undelivered = n ∧ (0 < n → s'.process = s.process)) s := by
  induction messages generalizing s with
  | nil => exact ⟨hs, hn, fun _ => rfl⟩
  | cons message rest ih =>
      have hrunning : s.process = some .running :=
        hs.runs (by rw [hn, List.length_cons]; omega)
      have hleft : s.undelivered - 1 = n + rest.length := by
        rw [hn, List.length_cons]; omega
      have hemitted : LifeBooks ({ s with undelivered := s.undelivered - 1 }.observe
          (.received message)) :=
        ⟨hs.lives.cons (o := .received message) (isDown_of_isUp (hs.up hrunning)), hs.up,
          fun _ => hrunning⟩
      refine ⟨hemitted, fun s' hr hs' _ _ => ?_⟩
      have hn' : s'.undelivered = n + rest.length := hr.undelivered.trans hleft
      refine wp_mono (p := emitMessages rest) (ih hs' hn') fun _ s'' h =>
        ⟨h.1, h.2.1, fun hpos => ?_⟩
      have hkept : s'.process = s.process :=
        hr.process (show 0 < s.undelivered - 1 by omega)
      exact (h.2.2 hpos).trans hkept

theorem onReadyReadStdout_lives {json : JsonCodec} {s : StdioClientTransport} (hs : LifeBooks s) :
    lifeContract.KeepsAt (OrderlyAnswer json) (onReadyReadStdout json) s := by
  refine (wp_bind (S := StdioSig) _ _ _ s).mpr ((wp_ite (S := StdioSig) _ _ _ _ s).mpr ?_)
  refine ⟨fun _ => ⟨hs, ⟨rfl, fun _ => rfl⟩⟩, fun _ => ⟨hs, fun s₁ hr₁ h₁ data hdata => ?_⟩⟩
  have hdecoded : LifeBooks (decodeStdout json data s₁) := by
    refine ⟨h₁.lives, h₁.up, fun hpos => ?_⟩
    rcases hdata with hrunning | hnone
    · exact hrunning
    · have hsame : (decodeStdout json data s₁).undelivered = s₁.undelivered := by
        show s₁.undelivered + (s₁.stdoutCodec.decode json data).2.length = s₁.undelivered
        rw [hnone]
        rfl
      exact h₁.runs (hsame ▸ hpos)
  refine wp_mono (emitMessages_lives _ (n := s₁.undelivered) hdecoded rfl) fun _ s' h => ?_
  refine ⟨h.1, ⟨h.2.1.trans hr₁.undelivered, fun hpos => ?_⟩⟩
  exact (h.2.2 (hr₁.undelivered.symm ▸ hpos)).trans (hr₁.process hpos)

theorem emitLines_lives (lines : List Bytes) : lifeContract.Keeps A (emitLines lines) := by
  induction lines with
  | nil => exact .pure lifePreorder _
  | cons line rest ih => exact .bind lifePreorder (.query _) fun _ => ih

theorem onReadyReadStderr_lives : lifeContract.Keeps A onReadyReadStderr := by
  refine .bind lifePreorder (.reads lifePreorder _) fun _ => .ite _ (fun _ => .pure lifePreorder _)
    fun _ => .bind lifePreorder (.query _) fun data => ?_
  refine .bind lifePreorder (.reads lifePreorder _) fun lines => .bind lifePreorder (.modify ?_)
    fun _ => emitLines_lives lines
  exact fun s hs => ⟨⟨hs.lives, hs.up, hs.runs⟩, ⟨rfl, fun _ => rfl⟩⟩

/-- A process that is not starting stays as it is. -/
theorem settle_of_ne {s : StdioClientTransport} (h : s.process ≠ some .starting)
    (state : ProcessState) : s.settle state = s := if_neg h

theorem onProcessErrorOccurred_lives (error : ProcessError) :
    lifeContract.Keeps A (onProcessErrorOccurred error) :=
  .bind lifePreorder (.reads lifePreorder _) fun _ =>
    .bind lifePreorder (.ite _ (fun _ => .query _) fun _ => .pure lifePreorder _) fun _ => .query _

/-- No event that comes in order breaks the life of the transport. -/
theorem entry_lives {json : JsonCodec} {s : StdioClientTransport} {c : StdioEvent}
    (hs : LifeBooks s) (ho : Orderly s c) :
    lifeContract.KeepsAt (OrderlyAnswer json) (stdioEntry json c) s := by
  cases c with
  | start => exact start_lives hs
  | stop => exact stop_lives hs ho
  | send message =>
      have hsend : lifeContract.Keeps (OrderlyAnswer json) (send json message) :=
        .bind lifePreorder (.reads lifePreorder _) fun _ =>
          .ite _ (fun _ => .query _) fun _ => .query _
      exact hsend s hs
  | readyReadStandardOutput => exact onReadyReadStdout_lives hs
  | readyReadStandardError => exact onReadyReadStderr_lives s hs
  | processStarted =>
      show lifeContract.Moves s (s.settle .running)
      rw [settle_of_ne ho]
      exact ⟨hs, lifePreorder.refl s⟩
  | processError error =>
      have herror : lifeContract.KeepsAt (OrderlyAnswer json) (onProcessErrorOccurred error) s :=
        onProcessErrorOccurred_lives error s hs
      refine (wp_bind (S := StdioSig) _ _ _ s).mpr ((wp_ite (S := StdioSig) _ _ _ _ s).mpr ?_)
      refine ⟨fun _ => ?_, fun _ => ⟨hs, lifePreorder.refl s⟩⟩
      refine (wp_bind (S := StdioSig) _ _ _ s).mpr ((wp_ite (S := StdioSig) _ _ _ _ s).mpr ?_)
      refine ⟨fun he => ?_, fun _ => herror⟩
      refine (wp_modify (S := StdioSig) (·.settle .notRunning) _ s).mpr ?_
      rw [settle_of_ne (ho he)]
      exact herror
  | processFinished =>
      refine (wp_bind (S := StdioSig) _ _ _ s).mpr ((wp_ite (S := StdioSig) _ _ _ _ s).mpr ?_)
      refine ⟨fun hrunning => ?_, fun _ => ⟨hs, lifePreorder.refl s⟩⟩
      have hzero := ho hrunning
      refine closed_wp ⟨hs.lives.cons (o := .closed) (hs.up hrunning), nofun, ?_⟩ ⟨rfl, ?_⟩
      · exact fun h => absurd h (hzero ▸ Nat.lt_irrefl 0)
      · exact fun h => absurd h (hzero ▸ Nat.lt_irrefl 0)

theorem lifeValid (json : JsonCodec) : lifeContract.Valid (orderlySurroundings json) where
  toPreorder := lifePreorder
  event _ _ hs ho := entry_lives hs ho
  nested _ _ _ hs ho := entry_lives hs ho.2
  body := nofun

/-- Where nothing comes out of order, the transport lives as its users rely on. -/
theorem lifeCycle {json : JsonCodec} {config : StdioLaunchConfig} {c : Config StdioSig}
    (hrun : Reaches (orderlySurroundings json) (.idle { config }) c) (hw : c.Waiting) :
    LifeCycle c.state.log := by
  have hinit : lifeContract.inv { config } := ⟨lifeCycle_nil, nofun, nofun⟩
  exact ((lifeValid json).waiting hinit hrun hw).lives

end StdioClientTransport

end LLMQore.Rpc
